import ArcadeToolbox.Aerostore.Exclusive

/-!
# The derived bins of a record

Whoever writes a key back takes the owner, the basket and the value from a snapshot that may be old,
but the tier from the record. The snapshot may even be of an earlier record of the outpoint, so this
needs that an outpoint is always minted for the same owner and value.
-/

namespace ArcadeToolbox.Aerostore

open Txn

/-- The coin belongs to the same owner and basket and is worth the same. -/
structure SameCoin (u : Utxo) (r : Record) : Prop where
  userID : u.userID = r.userID
  basket : u.basket = r.basket
  satoshis : u.satoshis = r.sats

theorem sameCoin_recordToUTXO (r : Record) : SameCoin (recordToUTXO r) r := ⟨rfl, rfl, rfl⟩

theorem SameCoin.effect {u : Utxo} {r : Record} (h : SameCoin u r) (w : RecordOp) :
    SameCoin u (w.effect r) := by
  obtain ⟨hu, hb, hs⟩ := w.effect_identity r
  exact ⟨h.userID.trans hu.symm, h.basket.trans hb.symm, h.satoshis.trans hs.symm⟩

/-- The snapshot that an operation writes from. -/
def RecordOp.snapshot : RecordOp → Option Utxo
  | .release u _ _ => some u
  | .unspend _ u => some u
  | .unfreeze u => some u
  | .promote u _ => some u
  | _ => none

namespace Record

/-- The coin can be claimed. -/
def Claimable (r : Record) : Prop := r.resBy = none ∧ r.spentBy = none ∧ r.frozen = false

instance (r : Record) : Decidable r.Claimable := inferInstanceAs (Decidable (_ ∧ _ ∧ _))

/-- The claim key that the coin has when it can be claimed. -/
def ownClaimKey (r : Record) : String := claimKeyFor r.userID r.basket r.tier (bucketOf r.sats)

/-- The fields of a record that the filters read agree with its coin. -/
structure Coherent (r : Record) : Prop where
  claimKey : r.claimKey = if r.Claimable then some r.ownClaimKey else none
  invKey : r.invKey = if r.spentBy = none then some (invKeyFor r.userID r.basket) else none
  pinned : r.pinned = true → r.resBy.isSome = true ∧ r.spentBy = none

theorem coherent_mintedRecord (m : Mint) (now : Time) : (mintedRecord now m).Coherent where
  claimKey := (if_pos ⟨rfl, rfl, rfl⟩).symm
  invKey := (if_pos rfl).symm
  pinned h := absurd h (by simp [mintedRecord])

variable {r : Record}

/-- The key that is written back is the coin's own. -/
theorem restoreClaimKey_eq {u : Utxo} (hu : SameCoin u r) (skip : Bool) :
    RecordOp.restoreClaimKey skip u r = if skip then r.claimKey else some r.ownClaimKey := by
  unfold RecordOp.restoreClaimKey ownClaimKey
  rw [hu.userID, hu.basket, hu.satoshis]

namespace Coherent

theorem claimKey_none (h : r.Coherent) (hr : ¬r.Claimable) : r.claimKey = none :=
  h.claimKey.trans (if_neg hr)

theorem unpinned (h : r.Coherent) (hr : r.spentBy ≠ none) : r.pinned = false := by
  by_contra hp
  exact hr (h.pinned (by simpa using hp)).2

/-- The coin was taken, so the key goes and the inventory key stays. -/
theorem stamp (h : r.Coherent) (hr : r.Claimable) (token : Token) (now : Time) :
    Coherent { r with resBy := some token, resAt := some now, claimKey := none } where
  claimKey := (if_neg fun hc => absurd hc.1 (by simp)).symm
  invKey := h.invKey
  pinned hp := by
    obtain ⟨hs, -⟩ := h.pinned hp
    exact absurd hr.1 (Option.isSome_iff_ne_none.mp hs)

theorem claimable_of_claimKey (h : r.Coherent) (hk : r.claimKey.isSome = true) : r.Claimable := by
  by_contra hc
  rw [h.claimKey_none hc] at hk
  cases hk

/-- A coherent record stays so under every operation whose snapshot is of the same coin. -/
theorem effect (h : r.Coherent) (w : RecordOp) (hg : w.guard r = true)
    (hw : ∀ u ∈ w.snapshot, SameCoin u r) :
    (w.effect r).Coherent := by
  cases w with
  | reserve key token now =>
    refine h.stamp (h.claimable_of_claimKey ?_) token now
    simp only [RecordOp.guard, decide_eq_true_eq] at hg
    simp [hg]
  | reserveOutpoint userID token now =>
    simp only [RecordOp.guard, Bool.and_eq_true] at hg
    exact h.stamp (h.claimable_of_claimKey hg.1) token now
  | release u token overridePin =>
    simp only [RecordOp.guard, Bool.and_eq_true, decide_eq_true_eq, Option.isNone_iff_eq_none] at hg
    obtain ⟨⟨hres, hspent⟩, hpin⟩ := hg
    refine ⟨?_, h.invKey, fun hp => ?_⟩
    · simp only [RecordOp.effect, restoreClaimKey_eq (hw u rfl)]
      split_ifs with hf hc hc
      · exact absurd hc.2.2 (by simp [hf])
      · exact h.claimKey_none fun hc => absurd (hc.1.symm.trans hres) (by simp)
      · rfl
      · exact absurd ⟨rfl, hspent, by simpa using hf⟩ hc
    · simp only [RecordOp.effect, Bool.and_eq_true, Bool.not_eq_true'] at hp
      simp [hp.1, hp.2] at hpin
  | setPinned token pinned =>
    simp only [RecordOp.guard, Bool.and_eq_true, decide_eq_true_eq, Option.isNone_iff_eq_none] at hg
    exact ⟨h.claimKey, h.invKey, fun _ => ⟨by simp [RecordOp.effect, hg.1.1], hg.1.2⟩⟩
  | spend sp force =>
    refine ⟨?_, (if_neg (by simp [RecordOp.effect])).symm, fun hp =>
        absurd hp (by simp [RecordOp.effect])⟩
    rw [if_neg fun hc => absurd hc.2.1 (by simp [RecordOp.effect])]
    cases force with
    | true => rfl
    | false =>
      simp only [RecordOp.guard, Bool.false_eq_true, if_false, Bool.and_eq_true,
          decide_eq_true_eq] at hg
      exact h.claimKey_none fun hc => absurd (hc.1.symm.trans hg.1.1) (by simp)
  | unspend txid u =>
    simp only [RecordOp.guard, decide_eq_true_eq] at hg
    refine ⟨?_, ?_, fun hp => absurd hp (by simp [RecordOp.effect])⟩
    · simp only [RecordOp.effect, restoreClaimKey_eq (hw u rfl)]
      split_ifs with hf hc hc
      · exact absurd hc.2.2 (by simp [hf])
      · exact h.claimKey_none fun hc => absurd (hc.2.1.symm.trans hg) (by simp)
      · rfl
      · exact absurd ⟨rfl, rfl, by simpa using hf⟩ hc
    · simp only [RecordOp.effect, (hw u rfl).userID, (hw u rfl).basket, if_true]
  | freeze =>
    exact ⟨(if_neg fun hc => absurd hc.2.2 (by simp [RecordOp.effect])).symm, h.invKey, h.pinned⟩
  | unfreeze u =>
    refine ⟨?_, h.invKey, h.pinned⟩
    simp only [RecordOp.effect, restoreClaimKey_eq (hw u rfl), Bool.or_eq_true,
        Option.isSome_iff_ne_none]
    split_ifs with hheld hc hc
    · exact absurd hheld (by simp [show r.resBy = none from hc.1, show r.spentBy = none
        from hc.2.1])
    · refine h.claimKey_none fun hc' => hc ⟨hc'.1, hc'.2.1, rfl⟩
    · rfl
    · push Not at hheld
      exact absurd ⟨hheld.1, hheld.2, rfl⟩ hc
  | promote u target =>
    refine ⟨?_, h.invKey, h.pinned⟩
    have hu := hw u rfl
    simp only [RecordOp.effect, h.claimKey, hu.userID, hu.basket, hu.satoshis]
    by_cases hc : r.Claimable
    · rw [if_pos hc, if_pos (show Claimable { r with tier := target, claimKey := _ } from hc)]
      rfl
    · rw [if_neg hc, if_neg (show ¬Claimable { r with tier := target, claimKey := _ } from hc)]
      rfl

end Coherent

end Record

/-- The coin was read from the record of the outpoint at some point of the run. -/
def ReadBefore (qs : List Request) (op : Outpoint) (u : Utxo) : Prop :=
  ∃ qs' r, qs' <+: qs ∧ (Server.run ∅ qs').get? op = some r ∧ SameCoin u r

/-- Every operation writes from what was read before it. -/
def Informed (qs : List Request) : Prop :=
  ∀ pre op w post, qs = pre ++ .operate op w :: post → ∀ u ∈ RecordOp.snapshot w,
      ReadBefore pre op u

/-- Every mint of an outpoint is for the owner, the basket and the value that it has. -/
def MintsAs (owner : Outpoint → UserID × String × ℕ) (qs : List Request) : Prop :=
  ∀ m now, .create m now ∈ qs → (m.userID, m.basket, m.satoshis) = owner m.outpoint

variable {owner : Outpoint → UserID × String × ℕ} {qs : List Request}

theorem Informed.init {q : Request} (h : Informed (qs ++ [q])) : Informed qs := by
  intro pre op w post hqs
  exact h pre op w (post ++ [q]) (by simp [hqs])

theorem Informed.snoc {q : Request} (h : Informed qs)
    (hq : ∀ op w, q = .operate op w → ∀ u ∈ RecordOp.snapshot w, ReadBefore qs op u) :
    Informed (qs ++ [q]) := by
  intro pre op w post hqs
  rcases List.eq_nil_or_concat post with rfl | ⟨post, q', rfl⟩
  · obtain ⟨rfl, hlast⟩ := List.append_inj' hqs rfl
    exact hq op w (List.head_eq_of_cons_eq hlast)
  · rw [List.concat_eq_append, ← List.cons_append, ← List.append_assoc] at hqs
    exact h pre op w post (List.append_inj' hqs rfl).1

theorem MintsAs.mono {qs' : List Request} (h : MintsAs owner qs) (hsub : qs' ⊆ qs) :
    MintsAs owner qs' :=
  fun m now hm => h m now (hsub hm)

/-- A record has the owner, the basket and the value of its outpoint. -/
theorem identity_run (h : MintsAs owner qs) : ∀ op r, (Server.run ∅ qs).get? op = some r →
    (r.userID, r.basket, r.sats) = owner op := by
  induction qs using List.reverseRecOn with
  | nil => exact fun op r hr => absurd (Table.get?_eq_some.mp hr).1 (Table.not_mem_empty r)
  | append_singleton qs q ih =>
    intro op r' hr'
    have hprev := ih (h.mono (List.subset_append_left qs [q]))
    rw [Server.run_append] at hr'
    have hc := Server.change_step (Server.run ∅ qs) q op
    generalize hb : (Server.run ∅ qs).get? op = b at hc
    rw [show ((Server.run ∅ qs).step q).get? op = some r' from hr'] at hc
    cases hc with
    | same => exact hprev op r' hb
    | created m now hq hop => exact hop ▸ h m now (by simp [hq])
    | changed w r hq hg =>
      obtain ⟨hu, hbasket, hs⟩ := w.effect_identity r
      rw [hu, hbasket, hs]
      exact hprev op r hb

theorem ReadBefore.sameCoin {op : Outpoint} {u : Utxo} {r : Record} (hu : ReadBefore qs op u)
    (h : MintsAs owner qs) (hr : (Server.run ∅ qs).get? op = some r) : SameCoin u r := by
  obtain ⟨qs', r', hpre, hr', hsame⟩ := hu
  have heq := (identity_run (h.mono hpre.subset) op r' hr').trans (identity_run h op r hr).symm
  simp only [Prod.mk.injEq] at heq
  obtain ⟨hid, hbasket, hsats⟩ := heq
  exact ⟨hsame.userID.trans hid, hsame.basket.trans hbasket, hsame.satoshis.trans hsats⟩

theorem coherent_run (hmint : MintsAs owner qs) (hread : Informed qs) :
    ∀ op r, (Server.run ∅ qs).get? op = some r → r.Coherent := by
  induction qs using List.reverseRecOn with
  | nil => exact fun op r hr => absurd (Table.get?_eq_some.mp hr).1 (Table.not_mem_empty r)
  | append_singleton qs q ih =>
    intro op r' hr'
    have hmint' := hmint.mono (List.subset_append_left qs [q])
    have hprev := ih hmint' hread.init
    rw [Server.run_append] at hr'
    have hc := Server.change_step (Server.run ∅ qs) q op
    generalize hb : (Server.run ∅ qs).get? op = b at hc
    rw [show ((Server.run ∅ qs).step q).get? op = some r' from hr'] at hc
    cases hc with
    | same => exact hprev op r' hb
    | created m now hq hop => exact Record.coherent_mintedRecord m now
    | changed w r hq hg =>
      subst hq
      refine (hprev op r hb).effect w hg fun u hu => ?_
      exact (hread qs op w [] rfl u hu).sameCoin hmint' hb

/-- However the operations of the clients are interleaved and however old the snapshots they write
from: the claim key is there if and only if the coin is not reserved, not spent and not frozen, and
is then the one of its owner, basket, present tier and bucket; the inventory key is there if and
only if the coin is unspent; and a pinned coin is reserved and unspent. -/
theorem derived_bins (hmint : MintsAs owner qs) (hread : Informed qs) (op : Outpoint) (r : Record)
    (hr : (Server.run ∅ qs).get? op = some r) :
    (r.claimKey.isSome = true ↔ r.resBy = none ∧ r.spentBy = none ∧ r.frozen = false)
      ∧ (∀ k, r.claimKey = some k → k = claimKeyFor r.userID r.basket r.tier (bucketOf r.sats))
      ∧ (r.invKey.isSome = true ↔ r.spentBy = none)
      ∧ (r.pinned = true → r.resBy.isSome = true ∧ r.spentBy = none) := by
  have h := coherent_run hmint hread op r hr
  refine ⟨⟨h.claimable_of_claimKey, fun hc => ?_⟩, fun k hk => ?_, ?_, h.pinned⟩
  · rw [h.claimKey, if_pos (show r.Claimable from hc)]
    rfl
  · have hc : r.Claimable := h.claimable_of_claimKey (by simp [hk])
    rw [h.claimKey, if_pos hc] at hk
    exact (Option.some.inj hk).symm
  · rw [h.invKey]
    split_ifs with hs <;> simp [hs]

/-- A coin of 1000 satoshis is reserved and moves from the tier `sending` to `mined`; then the
reservation is released by a client that had read the coin in between. -/
def promotedRun : List Request :=
  let op : Outpoint := ⟨"a", 0⟩
  let mint : Mint := ⟨op, 7, "default", 1000, 107, .sending⟩
  let coin := recordToUTXO (mintedRecord 1 mint)
  [.create mint 1, .operate op (.reserve "7|default|1|9" "ref" 2),
      .operate op (.promote coin .mined),
    .operate op (.release coin "ref" false)]

theorem informed_promotedRun : Informed promotedRun := by
  have hread : ∀ qs, ReadBefore (promotedRun.take 1 ++ qs) ⟨"a", 0⟩
      (recordToUTXO (mintedRecord 1 ⟨⟨"a", 0⟩, 7, "default", 1000, 107, .sending⟩)) := fun qs =>
    ⟨promotedRun.take 1, mintedRecord 1 ⟨⟨"a", 0⟩, 7, "default", 1000, 107, .sending⟩,
      List.prefix_append _ _, by decide, sameCoin_recordToUTXO _⟩
  have hnil : Informed [] := fun pre op w post h => absurd h (by simp)
  refine (((hnil.snoc (q := promotedRun[0]) ?_).snoc (q := promotedRun[1]) ?_).snoc
      (q := promotedRun[2]) ?_).snoc
    (q := promotedRun[3]) ?_
  · exact fun op w h => absurd h (by simp [promotedRun])
  · rintro op w h u hu
    cases h
    cases hu
  · rintro op w h u hu
    cases h
    cases hu
    exact hread (promotedRun.take 2 |>.drop 1)
  · rintro op w h u hu
    cases h
    cases hu
    exact hread (promotedRun.take 3 |>.drop 1)

/-- The key that comes back has the new tier. -/
theorem derived_bins_promoted :
    ((Server.run ∅ promotedRun).get? ⟨"a", 0⟩).bind (·.claimKey) = some "7|default|3|9"
      ∧ ∀ r, (Server.run ∅ promotedRun).get? ⟨"a", 0⟩ = some r →
        (r.claimKey.isSome = true ↔ r.resBy = none ∧ r.spentBy = none ∧ r.frozen = false)
        ∧ (∀ k, r.claimKey = some k → k = claimKeyFor r.userID r.basket r.tier (bucketOf r.sats))
        ∧ (r.invKey.isSome = true ↔ r.spentBy = none)
        ∧ (r.pinned = true → r.resBy.isSome = true ∧ r.spentBy = none) :=
  ⟨by decide, @derived_bins (fun _ => (7, "default", 1000)) promotedRun
    (fun m now hm => by
      simp only [promotedRun, List.mem_cons, Request.create.injEq, reduceCtorEq, List.not_mem_nil,
          or_false] at hm
      rw [hm.1])
    informed_promotedRun ⟨"a", 0⟩⟩

end ArcadeToolbox.Aerostore
