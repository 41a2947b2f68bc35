import ArcadeToolbox.Utxostore.Holds
import ArcadeToolbox.Utxostore.Rows

/-!
# The life of a stored coin

Every method of the store that writes, and what it can do to the row of one outpoint: hold it for a
token, release it, pin it, spend it, take the spend back, move its tier, freeze it, remove it. What
is true of every row in every state, and of one row from its mint to its removal, is read off that
list.
-/

namespace ArcadeToolbox

open Txn

/-- The methods of the store that write. -/
inductive StoreOp where
  | mint (ms : List Mint)
  | remove (ops : List Outpoint) (force : Bool)
  | claimSmallestSufficient (sc : Scope) (reservation : Token) (minSats : ℕ)
  | claimLargestInsufficient (sc : Scope) (reservation : Token) (capSats : ℕ) (limit : ℤ)
  | claimExact (sc : Scope) (reservation : Token) (denomination : ℕ) (count : ℤ)
  | reserveOutpoints (userID : UserID) (reservation : Token) (ops : List Outpoint)
  | releaseReservation (userID : UserID) (reservation : Token)
  | releaseOutpoints (reservation : Token) (ops : List Outpoint)
  | pin (userID : UserID) (reservation : Token)
  | unpin (userID : UserID) (reservation : Token)
  | spend (sps : List SpendOp) (force : Bool)
  | unspend (spendingTxID : TxID) (ops : List Outpoint)
  | removeSpentBy (spendingTxID : TxID)
  | promote (ops : List Outpoint) (target : Tier)
  | removeByMintTx (mintTxID : TxID) (ops : List Outpoint)
  | freeze (ops : List Outpoint)
  | unfreeze (ops : List Outpoint)

/-- What the operation leaves. -/
def StoreOp.apply (now : Time) (s : Inventory) : StoreOp → Inventory
  | mint ms => (s.mint now ms).2
  | remove ops force => (s.remove ops force).2
  | claimSmallestSufficient sc R minSats => (s.claimSmallestSufficient now sc R minSats).2
  | claimLargestInsufficient sc R capSats limit =>
    (s.claimLargestInsufficient now sc R capSats limit).2
  | claimExact sc R denomination count => (s.claimExact now sc R denomination count).2
  | reserveOutpoints u R ops => (s.reserveOutpoints now u R ops).2
  | releaseReservation u R => (s.releaseReservation u R).2
  | releaseOutpoints R ops => (s.releaseOutpoints R ops).2
  | pin u R => (s.pin u R).2
  | unpin u R => (s.unpin u R).2
  | spend sps force => (s.spend force sps).2
  | unspend t ops => (s.unspend t ops).2
  | removeSpentBy t => (s.removeSpentBy t).2
  | promote ops tier => (s.promote ops tier).2
  | removeByMintTx t ops => (s.removeByMintTx t ops).2
  | freeze ops => (s.freeze ops).2
  | unfreeze ops => (s.unfreeze ops).2

/-- What a call can do to a row it leaves in place. -/
inductive RowChange (now : Time) (call : StoreOp) (r : Row) : Row → Prop
  | same : RowChange now call r r
  | held (R : Token) (hR : R ≠ "") (hb : r.reservedBy = "") (hs : r.spentBy = none) :
      RowChange now call r { r with reservedBy := R, reservedAt := now }
  | released (hs : r.spentBy = none) :
      RowChange now call r { r with reservedBy := "", reservedAt := 0, pinned := false }
  | pinned (b : Bool) (hb : r.reservedBy ≠ "") (hs : r.spentBy = none) :
      RowChange now call r { r with pinned := b }
  | spent (t : TxID) (hs : r.spentBy = none) :
      RowChange now call r { r with spentBy := some t, pinned := false }
  | unspent (t : TxID) (ops : List Outpoint) (hc : call = .unspend t ops) (hop : r.outpoint ∈ ops)
      (hs : r.spentBy = some t) : RowChange now call r
        { r with spentBy := none, reservedBy := "", reservedAt := 0, pinned := false }
  | retiered (tier : Tier) : RowChange now call r { r with tier := tier }
  | frozen (b : Bool) : RowChange now call r { r with frozen := b }

namespace RowChange

variable {now : Time} {call : StoreOp} {r r' : Row}

/-- What no call changes: whose the coin is and what it is worth, and when it came. -/
theorem identity (h : RowChange now call r r') :
    r'.outpoint = r.outpoint ∧ r'.userID = r.userID ∧ r'.basket = r.basket
      ∧ r'.satoshis = r.satoshis
      ∧ r'.inputSize = r.inputSize ∧ r'.seq = r.seq := by
  cases h <;> exact ⟨rfl, rfl, rfl, rfl, rfl, rfl⟩

theorem spentBy (h : RowChange now call r r') {w : TxID} (hw : r.spentBy = some w) :
    r'.spentBy = some w
      ∨ r'.spentBy = none ∧ ∃ ops, call = .unspend w ops ∧ r.outpoint ∈ ops := by
  cases h with
  | spent t hs =>
    rw [hs] at hw
    cases hw
  | unspent t ops hc hop hs =>
    obtain rfl : t = w := by
      rw [hs] at hw
      exact Option.some.inj hw
    exact Or.inr ⟨rfl, ops, hc, hop⟩
  | _ => exact Or.inl hw

end RowChange

namespace Inventory

variable {now : Time} {call : StoreOp} {s : Inventory} {op : Outpoint} {r : Row}

/-- Every row afterwards is a row from before that underwent what a call can do to one. -/
def Derives (now : Time) (call : StoreOp) (s s' : Inventory) : Prop :=
  s'.nextSeq = s.nextSeq ∧ ∀ r' ∈ s'.rows, ∃ r ∈ s.rows, RowChange now call r r'

theorem derives_refl (s : Inventory) : Derives now call s s :=
  ⟨rfl, fun r hr => ⟨r, hr, .same⟩⟩

theorem derives_modify {p : Row → Bool} {f : Row → Row} {hf : ∀ r, (f r).outpoint = r.outpoint}
    (h : ∀ r ∈ s.rows, p r = true → RowChange now call r (f r)) :
    Derives now call s (s.modify p f hf) := by
  refine ⟨rfl, fun r' hr' => ?_⟩
  obtain ⟨r, hr, rfl⟩ := mem_modify.mp hr'
  refine ⟨r, hr, ?_⟩
  split
  · exact h r hr ‹_›
  · exact .same

theorem derives_drop (p : Row → Bool) : Derives now call s (s.drop p) :=
  ⟨rfl, fun r hr => ⟨r, (Table.mem_delete.mp hr).1, .same⟩⟩

theorem derives_reserve {u : UserID} {R : Token} {ops : List Outpoint} (hR : R ≠ "")
    (h : Free u s ops) :
    Derives now call s (s.reserve now R ops) := by
  refine derives_modify fun r hr hp => ?_
  obtain ⟨r0, hr0, hk, hb, -, hs⟩ := h r.outpoint (of_decide_eq_true hp)
  rw [Table.eq_of_key hr0 hr hk] at hb hs
  exact .held R hR hb hs

theorem derives_claimFirst {sc : Scope} {R : Token} {p : Row → Bool} {le : Row → Row → Prop}
    [DecidableRel le] (hR : R ≠ "") (hp : ∀ r, p r = true → claimable r sc = true) (limit : ℤ) :
    Derives now call s (s.claimFirst now R limit ((s.rows.select p).insertionSort le)).2 := by
  refine derives_reserve hR (u := sc.userID) (free_of_claimable _ fun r hr => ?_)
  have hr := Table.mem_select.mp ((List.mem_insertionSort le).mp (List.mem_of_mem_take hr))
  exact ⟨hr.1, hp r hr.2⟩

theorem derives_claimSmallestSufficient (sc : Scope) (R : Token) (minSats : ℕ) :
    Derives now call s (s.claimSmallestSufficient now sc R minSats).2 := by
  unfold claimSmallestSufficient
  rcases hv : validateClaim sc R with _ | e
  · rcases hb : smallest (s.rows.select fun r => claimable r sc && !(r.satoshis < minSats))
      with _ | best
    · exact derives_refl s
    · obtain ⟨hm, hc⟩ := Table.mem_select.mp (smallest_mem hb)
      rw [Bool.and_eq_true] at hc
      exact derives_reserve (validateClaim_eq_none hv)
        (@free_of_claimable _ sc [best] (by simp [hm, hc.1]))
  · exact derives_refl s

theorem derives_claimLargestInsufficient (sc : Scope) (R : Token) (capSats : ℕ) (limit : ℤ) :
    Derives now call s (s.claimLargestInsufficient now sc R capSats limit).2 := by
  unfold claimLargestInsufficient
  rcases hv : validateClaim sc R with _ | e
  · dsimp only
    split
    · exact derives_refl s
    · exact derives_claimFirst (validateClaim_eq_none hv) (fun r hr =>
        (Bool.and_eq_true_iff.mp hr).1) limit
  · exact derives_refl s

theorem derives_claimExact (sc : Scope) (R : Token) (denomination : ℕ) (count : ℤ) :
    Derives now call s (s.claimExact now sc R denomination count).2 := by
  unfold claimExact
  rcases hv : validateClaim sc R with _ | e
  · dsimp only
    split
    · exact derives_refl s
    · exact derives_claimFirst (validateClaim_eq_none hv) (fun r hr =>
        (Bool.and_eq_true_iff.mp hr).1) count
  · exact derives_refl s

/-- What an accepted outpoint is like. -/
theorem reserveRefusal_eq_none {u : UserID} {R : Token} (h : s.reserveRefusal u R op = none) :
    ∃ r, s.get op = some r ∧ r.userID = u ∧ r.spentBy = none
      ∧ (r.reservedBy = "" ∨ r.reservedBy = R)
      ∧ r.frozen = false := by
  unfold reserveRefusal at h
  rcases hg : s.get op with _ | r <;> simp only [hg] at h
  · cases h
  · split at h
    · cases h
    · rename_i hu
      rcases hs : r.spentBy with _ | w <;> simp only [hs] at h
      · split at h
        · cases h
        · rename_i hb
          split at h
          · cases h
          · rename_i hf
            refine ⟨r, rfl, not_not.mp hu, hs, ?_, by simpa using hf⟩
            by_contra hne
            exact hb (not_or.mp hne)
      · cases h

theorem derives_reserveOutpoints (u : UserID) (R : Token) (ops : List Outpoint) :
    Derives now call s (s.reserveOutpoints now u R ops).2 := by
  unfold reserveOutpoints
  rcases hv : validateReserveOutpoints R ops with _ | e
  · rcases hr : ops.eraseDups.filterMap (s.reserveRefusal u R) with _ | ⟨e, es⟩
    · refine derives_modify fun r hmem hp => ?_
      simp only [Bool.and_eq_true, decide_eq_true_eq] at hp
      have hnone : s.reserveRefusal u R r.outpoint = none :=
        List.filterMap_eq_nil_iff.mp hr r.outpoint (List.mem_eraseDups.mpr hp.1)
      obtain ⟨r0, hg, -, hs, hb, -⟩ := reserveRefusal_eq_none hnone
      obtain ⟨hr0, hk⟩ := get_eq_some.mp hg
      rw [Table.eq_of_key hr0 hmem hk] at hs hb
      have hR : R ≠ "" := by
        rintro rfl
        simp [validateReserveOutpoints, validateReservation] at hv
      exact .held R hR (hb.resolve_right hp.2) hs
    · exact derives_refl s
  · exact derives_refl s

theorem validateReservation_eq_none {R : Token} : validateReservation R = none ↔ R ≠ "" := by
  unfold validateReservation
  split <;> simp [*]

theorem heldBy_iff {u : UserID} {R : Token} :
    heldBy r u R = true ↔ r.userID = u ∧ r.reservedBy = R ∧ r.spentBy = none := by
  simp [heldBy, and_assoc]

theorem derives_releaseReservation (u : UserID) (R : Token) :
    Derives now call s (s.releaseReservation u R).2 := by
  unfold releaseReservation
  rcases hv : validateReservation R with _ | e
  · refine derives_modify fun r hr hp => ?_
    simp only [Bool.and_eq_true, Bool.not_eq_true', heldBy_iff] at hp
    -- the row is not pinned, so clearing the pin as well changes nothing
    have heq : ({ r with reservedBy := "", reservedAt := 0 } : Row)
        = { r with reservedBy := "", reservedAt := 0, pinned := false } := by
      rw [← hp.2]
    exact heq ▸ .released hp.1.2.2
  · exact derives_refl s

theorem derives_setPinned (u : UserID) (R : Token) (b : Bool) :
    Derives now call s (s.setPinned u R b).2 := by
  unfold setPinned
  rcases hv : validateReservation R with _ | e
  · refine derives_modify fun r hr hp => ?_
    simp only [Bool.and_eq_true, heldBy_iff] at hp
    exact .pinned b (hp.1.2.1 ▸ validateReservation_eq_none.mp hv) hp.1.2.2
  · exact derives_refl s

theorem derives_releaseOutpoints (R : Token) (ops : List Outpoint) :
    Derives now call s (s.releaseOutpoints R ops).2 := by
  unfold releaseOutpoints
  rcases hv : validateReservation R with _ | e
  · refine derives_modify fun r hr hp => ?_
    simp only [Bool.and_eq_true, decide_eq_true_eq] at hp
    exact .released hp.2
  · exact derives_refl s

theorem spend_rows (force : Bool) : ∀ (sps : List SpendOp) (s : Inventory),
    (s.spend force sps).2.nextSeq = s.nextSeq ∧ ∀ r' ∈ (s.spend force sps).2.rows, ∃ r ∈ s.rows,
      r' = r ∨ r.spentBy = none ∧ ∃ t, r' = { r with spentBy := some t, pinned := false }
  | [], _ => ⟨rfl, fun r hr => ⟨r, hr, Or.inl rfl⟩⟩
  | sp :: sps, s => by
    obtain ⟨hseq, hrows⟩ := spend_rows force sps (spendOne sp force s).2
    rcases spendOne_cases sp force s with he | ⟨⟨r0, hg0, hs0⟩, he⟩
    · rw [he] at hseq hrows
      change ((spendOne sp force s).2.spend force sps).2.nextSeq = _ ∧
        ∀ r' ∈ ((spendOne sp force s).2.spend force sps).2.rows, _
      rw [he]
      exact ⟨hseq, hrows⟩
    · refine ⟨hseq.trans (by rw [he]; rfl), fun r' hr' => ?_⟩
      obtain ⟨r1, hr1, hcase⟩ := hrows r' hr'
      rw [he] at hr1
      obtain ⟨r, hr, rfl⟩ := mem_modify.mp hr1
      refine ⟨r, hr, ?_⟩
      by_cases hop : r.outpoint = sp.outpoint
      · rw [if_pos (decide_eq_true hop)] at hcase
        obtain ⟨hr0, hk0⟩ := get_eq_some.mp hg0
        have hs : r.spentBy = none := by rwa [Table.eq_of_key hr hr0 (hop.trans hk0.symm)]
        rcases hcase with rfl | ⟨hs', -⟩
        · exact Or.inr ⟨hs, sp.spendingTxID, rfl⟩
        · cases hs'
      · simpa only [hop, decide_false, Bool.false_eq_true, if_false] using hcase

theorem derives_spend (sps : List SpendOp) (force : Bool) :
    Derives now call s (s.spend force sps).2 := by
  obtain ⟨hseq, hrows⟩ := spend_rows force sps s
  refine ⟨hseq, fun r' hr' => ?_⟩
  obtain ⟨r, hr, rfl | ⟨hs, t, rfl⟩⟩ := hrows r' hr'
  · exact ⟨r', hr, .same⟩
  · exact ⟨r, hr, .spent t hs⟩

/-- A call that does not mint. -/
theorem derives_apply (h : ∀ ms, call ≠ .mint ms) : Derives now call s (call.apply now s) := by
  cases call with
  | mint ms => exact absurd rfl (h ms)
  | remove | removeSpentBy => exact derives_drop _
  | removeByMintTx t ops =>
    change Derives _ _ s (s.removeByMintTx t ops).2
    unfold removeByMintTx
    rcases validateMintOutpoints t ops with _ | e
    · exact derives_drop _
    · exact derives_refl s
  | claimSmallestSufficient => exact derives_claimSmallestSufficient ..
  | claimLargestInsufficient => exact derives_claimLargestInsufficient ..
  | claimExact => exact derives_claimExact ..
  | reserveOutpoints => exact derives_reserveOutpoints ..
  | releaseReservation => exact derives_releaseReservation ..
  | releaseOutpoints => exact derives_releaseOutpoints ..
  | pin | unpin => exact derives_setPinned ..
  | spend => exact derives_spend ..
  | unspend t ops =>
    refine derives_modify fun r hr hp => ?_
    simp only [Bool.and_eq_true, decide_eq_true_eq] at hp
    exact .unspent t ops rfl hp.1 hp.2
  | promote => exact derives_modify fun r hr hp => .retiered _
  | freeze | unfreeze => exact derives_modify fun r hr hp => .frozen _

theorem get_apply_eq_none (hno : ∀ ms, call = .mint ms → ∀ m ∈ ms, m.outpoint ≠ op)
    (h : s.get op = none) :
    (call.apply now s).get op = none := by
  by_cases hmint : ∃ ms, call = .mint ms
  · obtain ⟨ms, rfl⟩ := hmint
    exact (get_mint_of_ne (hno ms rfl)).trans h
  · refine Table.get?_eq_none.mpr fun r' hr' hk => ?_
    obtain ⟨r, hr, hc⟩ := (derives_apply fun ms hms => hmint ⟨ms, hms⟩).2 r' hr'
    refine Table.get?_eq_none.mp h r hr ?_
    cases hc <;> exact hk

/-- What is true of the rows of every state. -/
structure Sound (s : Inventory) : Prop where
  pinned : ∀ r ∈ s.rows, r.pinned = true → r.reservedBy ≠ "" ∧ r.spentBy = none
  reservedAt : ∀ r ∈ s.rows, r.reservedAt = 0 ↔ r.reservedBy = ""
  seq_le : ∀ r ∈ s.rows, r.seq ≤ s.nextSeq
  seq_inj : ∀ r ∈ s.rows, ∀ r' ∈ s.rows, r.seq = r'.seq → r = r'

theorem Sound.empty : Sound Inventory.empty where
  pinned r hr := absurd hr (Table.not_mem_empty r)
  reservedAt r hr := absurd hr (Table.not_mem_empty r)
  seq_le r hr := absurd hr (Table.not_mem_empty r)
  seq_inj r hr := absurd hr (Table.not_mem_empty r)

/-- A call that changes rows in place. -/
theorem Sound.derives {s' : Inventory} (h : Sound s) (hnow : now ≠ 0) (hd : Derives now call s s') :
    Sound s' where
  pinned r' hr' hp := by
    obtain ⟨r, hr, hc⟩ := hd.2 r' hr'
    cases hc with
    | same => exact h.pinned _ hr hp
    | held R hR hb hs => exact ⟨hR, hs⟩
    | pinned b hb hs => exact ⟨hb, hs⟩
    | released | spent | unspent => cases hp
    | retiered | frozen => exact h.pinned r hr hp
  reservedAt r' hr' := by
    obtain ⟨r, hr, hc⟩ := hd.2 r' hr'
    cases hc with
    | held R hR hb hs => exact ⟨fun h => absurd h hnow, fun h => absurd h hR⟩
    | released | unspent => exact ⟨fun _ => rfl, fun _ => rfl⟩
    | same => exact h.reservedAt _ hr
    | pinned | spent | retiered | frozen => exact h.reservedAt r hr
  seq_le r' hr' := by
    obtain ⟨r, hr, hc⟩ := hd.2 r' hr'
    rw [hc.identity.2.2.2.2.2, hd.1]
    exact h.seq_le r hr
  seq_inj r1 hr1 r2 hr2 hseq := by
    obtain ⟨q1, hq1, hc1⟩ := hd.2 r1 hr1
    obtain ⟨q2, hq2, hc2⟩ := hd.2 r2 hr2
    obtain ⟨hop1, -, -, -, -, hs1⟩ := hc1.identity
    obtain ⟨hop2, -, -, -, -, hs2⟩ := hc2.identity
    have hq : q1 = q2 := h.seq_inj q1 hq1 q2 hq2 (by rw [← hs1, ← hs2, hseq])
    exact Table.eq_of_key hr1 hr2 (show r1.outpoint = r2.outpoint by rw [hop1, hop2, hq])

theorem mem_mintOne {m : Mint} (h : r ∈ (mintOne now m s).2.rows) :
    r ∈ s.rows ∨ r = minted now (s.nextSeq + 1) m := by
  rcases mintOne_cases now m s with ⟨he, -⟩ | ⟨-, -, he⟩ <;> rw [he] at h
  · exact Or.inl h
  · rcases Table.mem_insert.mp h with h | ⟨rfl, -⟩
    · exact Or.inl h
    · exact Or.inr rfl

theorem mem_mint : ∀ {ms : List Mint} {s : Inventory}, r ∈ (s.mint now ms).2.rows →
    r ∈ s.rows ∨ ∃ m ∈ ms, ∃ seq, r = minted now seq m
  | [], _, h => Or.inl h
  | m :: ms, s, h => by
    rcases @mem_mint ms _ h with h | ⟨m', hm', seq, rfl⟩
    · rcases mem_mintOne h with h | rfl
      · exact Or.inl h
      · exact Or.inr ⟨m, List.mem_cons_self, _, rfl⟩
    · exact Or.inr ⟨m', List.mem_cons_of_mem m hm', seq, rfl⟩

theorem mint_induction {I : Inventory → Prop} (h : ∀ m s, I s → I (mintOne now m s).2) :
    ∀ (ms : List Mint) {s : Inventory}, I s → I (s.mint now ms).2
  | [], _, hs => hs
  | m :: ms, _, hs => mint_induction h ms (h m _ hs)

/-- A minted row comes with a sequence number of its own. -/
theorem Sound.mintOne (h : Sound s) (m : Mint) : Sound (mintOne now m s).2 := by
  constructor
  · intro r hr hp
    rcases mem_mintOne hr with hr | rfl
    · exact h.pinned r hr hp
    · cases hp
  · intro r hr
    rcases mem_mintOne hr with hr | rfl
    · exact h.reservedAt r hr
    · exact ⟨fun _ => rfl, fun _ => rfl⟩
  · intro r hr
    rcases mintOne_cases now m s with ⟨he, -⟩ | ⟨-, -, he⟩
    · rw [he] at hr ⊢
      exact h.seq_le r hr
    · rcases mem_mintOne hr with hr | rfl <;> rw [he]
      · exact (h.seq_le r hr).trans (Nat.le_succ _)
      · exact le_rfl
  · intro r hr r' hr' hseq
    rcases mem_mintOne hr with hr | rfl <;> rcases mem_mintOne hr' with hr' | rfl
    · exact h.seq_inj r hr r' hr' hseq
    · have hle := h.seq_le r hr
      rw [hseq] at hle
      exact absurd hle (Nat.not_succ_le_self _)
    · have hle := h.seq_le r' hr'
      rw [← hseq] at hle
      exact absurd hle (Nat.not_succ_le_self _)
    · rfl

theorem Sound.apply (h : Sound s) (hnow : now ≠ 0) (call : StoreOp) : Sound (call.apply now s) := by
  cases call with
  | mint ms => exact mint_induction (fun m _ hs => hs.mintOne m) ms h
  | _ => exact h.derives hnow (derives_apply (by intro ms hm; cases hm))

theorem rowChange_apply {r' : Row} (hr : s.get op = some r)
    (hr' : (call.apply now s).get op = some r') :
    RowChange now call r r' := by
  have hd : (∀ ms, call ≠ .mint ms) → RowChange now call r r' := by
    intro h
    obtain ⟨hm', hk'⟩ := get_eq_some.mp hr'
    obtain ⟨r0, hr0, hc⟩ := (@derives_apply now call s h).2 r' hm'
    have hk0 : r0.outpoint = op := hc.identity.1.symm.trans hk'
    rw [get_eq_some.mpr ⟨hr0, hk0⟩] at hr
    exact Option.some.inj hr ▸ hc
  cases call with
  | mint ms =>
    have hsame : (s.mint now ms).2.get op = some r := get_mint_of_some ms hr
    rw [show ((StoreOp.mint ms).apply now s) = (s.mint now ms).2 from rfl, hsame] at hr'
    exact Option.some.inj hr' ▸ .same
  | _ => exact hd (by intro ms hm; cases hm)

/-- Calls one after another, each with the time its clock reads. -/
def run (calls : List (Time × StoreOp)) (s : Inventory) : Inventory :=
  calls.foldl (fun s c => c.2.apply c.1 s) s

variable {calls : List (Time × StoreOp)}

theorem Sound.run (hclock : ∀ c ∈ calls, c.1 ≠ 0) (h : Sound s) :
    Sound (s.run calls) := by
  induction calls generalizing s with
  | nil => exact h
  | cons c calls ih =>
    obtain ⟨hc, hcalls⟩ := List.forall_mem_cons.mp hclock
    exact ih hcalls (h.apply hc c.2)

/-- The outpoint has a row before and after every one of the calls. -/
def Stays (op : Outpoint) (calls : List (Time × StoreOp)) (s : Inventory) : Prop :=
  ∀ n ≤ calls.length, ((s.run (calls.take n)).get op).isSome = true

theorem Stays.tail {c : Time × StoreOp} (h : Stays op (c :: calls) s) :
    Stays op calls (c.2.apply c.1 s) := fun n hn => h (n + 1) (Nat.succ_le_succ hn)

theorem Stays.identity {r' : Row} (h : Stays op calls s)
    (hr : s.get op = some r) (hr' : (s.run calls).get op = some r') :
    r'.userID = r.userID ∧ r'.basket = r.basket ∧ r'.satoshis = r.satoshis
      ∧ r'.inputSize = r.inputSize := by
  induction calls generalizing s r with
  | nil =>
    rw [show s.run [] = s from rfl, hr] at hr'
    cases hr'
    exact ⟨rfl, rfl, rfl, rfl⟩
  | cons c calls ih =>
    obtain ⟨r1, hr1⟩ := Option.isSome_iff_exists.mp (h.tail 0 (Nat.zero_le _))
    obtain ⟨-, hu, hb, hsat, hsize, -⟩ := (rowChange_apply hr hr1).identity
    obtain ⟨hu', hb', hsat', hsize'⟩ := ih h.tail hr1 hr'
    exact ⟨hu'.trans hu, hb'.trans hb, hsat'.trans hsat, hsize'.trans hsize⟩

end Inventory

open Inventory in
/-- After any calls, under a clock that never reads the zero time: only held, unspent rows are
pinned, exactly the held ones are dated, no two rows have one sequence number; and whatever is
called next, a row keeps whose it is and what it is worth as long as it is there, and a spend is
taken back only by an `Unspend` that names it. -/
theorem store_rows_sound (calls : List (Time × StoreOp)) (hclock : ∀ c ∈ calls, c.1 ≠ 0) :
    let s := Inventory.empty.run calls
    (∀ r ∈ s.rows, r.pinned = true → r.reservedBy ≠ "" ∧ r.spentBy = none)
    ∧ (∀ r ∈ s.rows, r.reservedAt = 0 ↔ r.reservedBy = "")
    ∧ (∀ r ∈ s.rows, ∀ r' ∈ s.rows, r.seq = r'.seq → r = r')
    ∧ (∀ more op r r', Stays op more s → s.get op = some r → (s.run more).get op = some r' →
        r'.userID = r.userID ∧ r'.basket = r.basket ∧ r'.satoshis = r.satoshis
          ∧ r'.inputSize = r.inputSize)
    ∧ ∀ now call op r r' w, s.get op = some r → (StoreOp.apply now s call).get op = some r' →
        r.spentBy = some w →
        r'.spentBy = some w ∨ r'.spentBy = none ∧ ∃ ops, call = .unspend w ops ∧ op ∈ ops := by
  intro s
  have hs : Sound s := Sound.empty.run hclock
  refine ⟨hs.pinned, hs.reservedAt, hs.seq_inj, fun more op r r' hstays => hstays.identity, ?_⟩
  intro now call op r r' w hr hr' hw
  have hop : r.outpoint = op := (get_eq_some.mp hr).2
  rw [← hop]
  exact (rowChange_apply hr hr').spentBy hw

/-- A coin is minted, claimed and pinned. -/
def pinnedCalls : List (Time × StoreOp) :=
  [(1, .mint [⟨⟨"parent", 0⟩, 7, "default", 1000, defaultP2PKHInputSize, .mined⟩]),
   (2, .claimExact ⟨7, "default", .mined⟩ "ref" 1000 1), (3, .pin 7 "ref")]

theorem store_rows_sound_pinned :
    ((Inventory.empty.run pinnedCalls).get ⟨"parent", 0⟩).any (·.pinned) = true
    ∧ ∀ r ∈ (Inventory.empty.run pinnedCalls).rows, r.pinned = true → r.reservedBy ≠ ""
      ∧ r.spentBy = none :=
  ⟨by decide, (store_rows_sound pinnedCalls (by decide)).1⟩

end ArcadeToolbox
