import ArcadeToolbox.Funder.Exhausted
import ArcadeToolbox.Storage.Rules
import ArcadeToolbox.Utxostore.Holds
import ArcadeToolbox.Utxostore.Invariants

/-!
# The inventory behind a session

The inventory behind a session is an honest store for every user and token, whatever it refuses.
Where nobody gets in the way it answers as the reference store does, so a pass that fails has not
met contention. So a call of `Fund` that succeeds over statements that do not fail holds what was
held before and its coins, or it met contention, released the token, and holds its coins only.
-/

namespace ArcadeToolbox

open Txn

namespace Inventory

variable {s s' : Inventory} {u : UserID} {R : Token} {ops : List Outpoint} {now : Time}

/-- A coin nobody holds is not pinned. -/
def Loose (s : Inventory) : Prop := ∀ r ∈ s.rows, r.reservedBy = "" → r.pinned = false

theorem Loose.derives {call : StoreOp} (h : Loose s) (hd : Derives now call s s') : Loose s' := by
  intro r' hr' hb
  obtain ⟨r, hr, hc⟩ := hd.2 r' hr'
  cases hc with
  | same => exact h _ hr hb
  | held R hR => exact absurd hb hR
  | pinned b hne => exact absurd hb hne
  | released | spent | unspent => rfl
  | retiered | frozen => exact h r hr hb

theorem Loose.apply (h : Loose s) (now : Time) (call : StoreOp) : Loose (call.apply now s) := by
  cases call with
  | mint ms =>
    refine mint_induction (fun m s hs r hr hb => ?_) ms h
    rcases mem_mintOne hr with hr | rfl
    · exact hs r hr hb
    · rfl
  | _ => exact h.derives (derives_apply (by intro ms hm; cases hm))

/-- The coins that a release of the token gives back. -/
def holding (u : UserID) (R : Token) (s : Inventory) : Set Outpoint :=
  {op | ∃ r ∈ s.rows, r.outpoint = op ∧ heldBy r u R = true ∧ r.pinned = false}

theorem Grip.held_eq (hg : Grip u R s) : held R s = holding u R s := by
  ext op
  constructor
  · rintro ⟨r, hr, rfl, hb⟩
    obtain ⟨hu, hs, hp⟩ := hg.owned r hr hb
    exact ⟨r, hr, rfl, heldBy_iff.mpr ⟨hu, hb, hs⟩, hp⟩
  · rintro ⟨r, hr, rfl, hh, -⟩
    exact ⟨r, hr, rfl, (heldBy_iff.mp hh).2.1⟩

theorem Claimed.took {us : List Utxo} (hl : Loose s) (h : Claimed u R s us s') :
    Took (holding u R s) (holding u R s') us := by
  have hfree : ∀ r ∈ s.rows, r.outpoint ∈ us.map (·.outpoint) →
      r.reservedBy = "" ∧ r.userID = u ∧ r.spentBy = none := fun r hr hop => by
    obtain ⟨r0, hr0, hk, hrow⟩ := h.free _ hop
    rwa [Table.eq_of_key hr0 hr hk] at hrow
  have hnot : ∀ r ∈ s.rows, heldBy r u R = true → r.outpoint ∉ us.map (·.outpoint) :=
    fun r hr hh hop =>
    h.token ((heldBy_iff.mp hh).2.1.symm.trans (hfree r hr hop).1)
  obtain ⟨now, rfl⟩ := h.state
  refine ⟨h.nodup, ?_, ?_⟩
  · rintro op hop ⟨r, hr, rfl, hh, -⟩
    exact hnot r hr hh hop
  · ext op
    constructor
    · rintro ⟨x, hx, rfl, hh, hp⟩
      obtain ⟨r, hr, rfl⟩ := mem_modify.mp hx
      by_cases hop : r.outpoint ∈ us.map (·.outpoint)
      · rw [if_pos (decide_eq_true hop)]
        exact Or.inr hop
      · rw [if_neg (by simpa using hop)] at hh hp ⊢
        exact Or.inl ⟨r, hr, rfl, hh, hp⟩
    · rintro (⟨r, hr, rfl, hh, hp⟩ | hop)
      · have hop := hnot r hr hh
        exact ⟨r, mem_modify.mpr ⟨r, hr, by rw [if_neg (by simpa using hop)]⟩, rfl, hh, hp⟩
      · have hop : op ∈ us.map (·.outpoint) := hop
        obtain ⟨r, hr, rfl, hb, hu, hs⟩ := h.free op hop
        refine ⟨_, mem_modify.mpr ⟨r, hr, rfl⟩, ?_⟩
        rw [if_pos (decide_eq_true hop)]
        exact ⟨rfl, heldBy_iff.mpr ⟨hu, rfl, hs⟩, hl r hr hb⟩

theorem holding_releaseReservation {n : ℕ} (h : (s.releaseReservation u R).1 = .ok n) :
    holding u R (s.releaseReservation u R).2 = ∅ := by
  unfold releaseReservation at h ⊢
  rcases hv : validateReservation R with _ | e <;> simp only [hv] at h ⊢
  · have hR := validateReservation_eq_none.mp hv
    refine Set.eq_empty_iff_forall_notMem.mpr ?_
    rintro op ⟨x, hx, -, hh, hp⟩
    obtain ⟨r, hr, rfl⟩ := mem_modify.mp hx
    split at hh
    · exact hR (heldBy_iff.mp hh).2.1.symm
    · rename_i hno
      rw [if_neg hno] at hp
      exact hno (by simp [hh, hp])
  · cases h

theorem holding_releaseOutpoints (h : (s.releaseOutpoints R ops).1 = .ok ()) :
    holding u R (s.releaseOutpoints R ops).2 = holding u R s \ {op | op ∈ ops} := by
  unfold releaseOutpoints at h ⊢
  rcases hv : validateReservation R with _ | e <;> simp only [hv] at h ⊢
  · have hR := validateReservation_eq_none.mp hv
    ext op
    constructor
    · rintro ⟨x, hx, rfl, hh, hp⟩
      obtain ⟨r, hr, rfl⟩ := mem_modify.mp hx
      split at hh
      · exact absurd (heldBy_iff.mp hh).2.1.symm hR
      · rename_i hno
        rw [if_neg hno] at hp ⊢
        refine ⟨⟨r, hr, rfl, hh, hp⟩, fun hop => hno ?_⟩
        obtain ⟨-, hb, hs⟩ := heldBy_iff.mp hh
        simp only [Set.mem_ofPred_eq] at hop
        simp [hop, hb, hs]
    · rintro ⟨⟨r, hr, rfl, hh, hp⟩, hop⟩
      simp only [Set.mem_ofPred_eq] at hop
      exact ⟨r, mem_modify.mpr ⟨r, hr, by simp [hop]⟩, rfl, hh, hp⟩
  · cases h

end Inventory

namespace Storage

open Inventory UtxoStore

variable {α : Type} {u : UserID} {R : Token}

/-- A statement is refused and nothing has happened, or it is answered. -/
theorem answer_cases (x : Time → Inventory → Except UtxoErr α × Inventory) (s : Session Db) :
    ((answer x s).1 = .error .unavailable ∧ (answer x s).2.db.utxo = s.db.utxo)
    ∨ ∃ t, (answer x s).1 = (x t s.db.utxo).1 ∧ (answer x s).2.db.utxo = (x t s.db.utxo).2 := by
  unfold answer
  rcases hs : utxoStmt (fun now i => ((Except.ok (x now i).1 : Except Err (Except UtxoErr α)),
      (x now i).2)) s
    with ⟨e | a, s'⟩
  · left
    unfold utxoStmt at hs
    rcases Uow.stmt_run hs with ⟨-, hw⟩ | ⟨s1, -, ha, -⟩
    · exact ⟨rfl, congrArg Db.utxo hw.db⟩
    · cases ha
  · right
    obtain ⟨t, ha, hdb⟩ := utxoStmt_db (by simp) hs
    cases ha
    exact ⟨t, rfl, by rw [hdb]⟩

theorem optimistic_or (x : Time → Inventory → Except UtxoErr α × Inventory) (s : Session Db) :
    (∃ e, (optimistic x s).1 = .error e ∧ (optimistic x s).2.db.utxo = s.db.utxo)
    ∨ ∃ t, (optimistic x s).1 = (x t s.db.utxo).1 ∧ (optimistic x s).2.db.utxo
      = (x t s.db.utxo).2 := by
  unfold optimistic
  rcases s.busy with _ | ⟨_ | _, busy⟩
  · exact (answer_cases x s).imp (fun h => ⟨_, h⟩) id
  · exact (answer_cases x { s with busy := busy }).imp (fun h => ⟨_, h⟩) id
  · exact Or.inl ⟨_, rfl, rfl⟩

def look (sc : Scope) (n : ℕ) (_ : Time) (i : Inventory) : Except UtxoErr Bool × Inventory :=
  (.ok (i.rows.any fun r => claimable r sc && decide (n ≤ r.satoshis)), i)

theorem claimableExists_snd (sc : Scope) (n : ℕ) (s : Session Db) :
    (claimableExists sc n s).2 = (optimistic (look sc n) s).2 := by
  unfold claimableExists optimistic
  rcases s.busy with _ | ⟨_ | _, busy⟩ <;> rfl

theorem utxo_claimableExists (prober : Bool) (sc : Scope) (n : ℕ) (s : Session Db) :
    (call prober (.claimableExists sc n) s).2.db.utxo = s.db.utxo := by
  cases prober
  · rfl
  · change (claimableExists sc n s).2.db.utxo = _
    rw [claimableExists_snd]
    rcases optimistic_or (look sc n) s with ⟨_, -, hu⟩ | ⟨t, -, hu⟩ <;> exact hu

theorem loose_call (prober : Bool) (c : StoreCall) {s : Session Db} (h : Loose s.db.utxo) :
    Loose (call prober c s).2.db.utxo := by
  have hopt : ∀ {α : Type} (x : Time → Inventory → Except UtxoErr α × Inventory),
      (∀ t i, Loose i → Loose (x t i).2) → Loose (optimistic x s).2.db.utxo := fun x hx => by
    rcases optimistic_or x s with ⟨-, -, hu⟩ | ⟨t, -, hu⟩ <;> rw [hu]
    · exact h
    · exact hx t _ h
  cases c with
  | claimSmallestSufficient sc r n =>
    exact hopt _ fun t i hi => hi.apply t (.claimSmallestSufficient sc r n)
  | claimLargestInsufficient sc r n limit =>
    exact hopt _ fun t i hi => hi.apply t (.claimLargestInsufficient sc r n limit)
  | claimExact sc r n count => exact hopt _ fun t i hi => hi.apply t (.claimExact sc r n count)
  | releaseOutpoints r ops => exact hopt _ fun t i hi => hi.apply t (.releaseOutpoints r ops)
  | releaseReservation v r =>
    change Loose (answer (fun _ i => i.releaseReservation v r) s).2.db.utxo
    rcases answer_cases (fun _ i => i.releaseReservation v r) s with ⟨-, hu⟩ | ⟨t, -, hu⟩
        <;> rw [hu]
    · exact h
    · exact h.apply t (.releaseReservation v r)
  | claimableExists sc n =>
    have hread : (call prober (.claimableExists sc n) s).2.db.utxo = s.db.utxo :=
      utxo_claimableExists prober sc n s
    rwa [hread]

/-- The inventory of a session, in which no free coin is pinned. -/
abbrev LooseSession := {s : Session Db // Loose s.db.utxo}

def looseCall (prober : Bool) (c : StoreCall) (s : LooseSession) : c.Answer × LooseSession :=
  ((call prober c s.1).1, ⟨(call prober c s.1).2, loose_call prober c s.2⟩)

theorem optimistic_ok {x : Time → Inventory → Except UtxoErr α × Inventory} {s : Session Db} {a : α}
    (ha : (optimistic x s).1 = .ok a) : ∃ t, (x t s.db.utxo).1 = .ok a
      ∧ (optimistic x s).2.db.utxo = (x t s.db.utxo).2 := by
  rcases optimistic_or x s with ⟨e, he, -⟩ | ⟨t, he, hu⟩
  · rw [he] at ha
    cases ha
  · exact ⟨t, he.symm.trans ha, hu⟩

theorem claimSmallestSufficient_took (prober : Bool) {sc : Scope} {n : ℕ} {s : Session Db}
    {o : Option Utxo} (h : (call prober (.claimSmallestSufficient sc R n) s).1 = Except.ok o) :
    (o.toList = [] ∧ (call prober (.claimSmallestSufficient sc R n) s).2.db.utxo = s.db.utxo)
    ∨ Claimed sc.userID R s.db.utxo o.toList
      (call prober (.claimSmallestSufficient sc R n) s).2.db.utxo := by
  obtain ⟨t, ho, hu⟩ := optimistic_ok h
  have hu : (call prober (.claimSmallestSufficient sc R n) s).2.db.utxo = _ := hu
  rw [hu]
  rcases claimSmallestSufficient_cases s.db.utxo t sc R n with ⟨e, hc⟩ | hc | ⟨x, i, hc, hx⟩ <;>
    rw [hc] at ho ⊢ <;> cases ho
  · exact Or.inl ⟨rfl, rfl⟩
  · exact Or.inr hx

theorem claimLargestInsufficient_took (prober : Bool) {sc : Scope} {n : ℕ} {limit : ℤ}
    {s : Session Db}
    {us : List Utxo} (h : (call prober (.claimLargestInsufficient sc R n limit) s).1
      = Except.ok us) :
    Claimed sc.userID R s.db.utxo us
      (call prober (.claimLargestInsufficient sc R n limit) s).2.db.utxo := by
  obtain ⟨t, hus, hu⟩ := optimistic_ok h
  have hu : (call prober (.claimLargestInsufficient sc R n limit) s).2.db.utxo = _ := hu
  rw [hu]
  rcases claimLargestInsufficient_cases s.db.utxo t sc R n limit with ⟨e, hc⟩ | ⟨us', i, hc, hx⟩ <;>
    rw [hc] at hus ⊢ <;> cases hus
  exact hx

theorem claimExact_took (prober : Bool) {sc : Scope} {n : ℕ} {count : ℤ} {s : Session Db}
    {us : List Utxo} (h : (call prober (.claimExact sc R n count) s).1 = Except.ok us) :
    Claimed sc.userID R s.db.utxo us (call prober (.claimExact sc R n count) s).2.db.utxo := by
  obtain ⟨t, hus, hu⟩ := optimistic_ok h
  have hu : (call prober (.claimExact sc R n count) s).2.db.utxo = _ := hu
  rw [hu]
  rcases claimExact_cases s.db.utxo t sc R n count with ⟨e, hc⟩ | ⟨us', i, hc, hx⟩ <;>
    rw [hc] at hus ⊢ <;> cases hus
  exact hx

theorem looseCall_smallest (prober : Bool) (sc : Scope) (n : ℕ) (s : LooseSession) (o : Option Utxo)
    (hu : sc.userID = u) (h : (looseCall prober (.claimSmallestSufficient sc R n) s).1
      = Except.ok o) :
    Took (holding u R s.1.db.utxo)
      (holding u R (looseCall prober (.claimSmallestSufficient sc R n) s).2.1.db.utxo)
        o.toList := by
  subst hu
  rcases claimSmallestSufficient_took prober h with ⟨ho, hs⟩ | hc
  · have hs : (looseCall prober (.claimSmallestSufficient sc R n) s).2.1.db.utxo = s.1.db.utxo := hs
    rw [ho, hs]
    exact Took.nil _
  · exact hc.took s.2

theorem looseCall_largest (prober : Bool) (sc : Scope) (n : ℕ) (limit : ℤ) (s : LooseSession)
    (us : List Utxo) (hu : sc.userID = u)
    (h : (looseCall prober (.claimLargestInsufficient sc R n limit) s).1 = Except.ok us) :
    Took (holding u R s.1.db.utxo)
      (holding u R (looseCall prober (.claimLargestInsufficient sc R n limit) s).2.1.db.utxo)
        us := by
  subst hu
  exact (claimLargestInsufficient_took prober h).took s.2

theorem looseCall_exact (prober : Bool) (sc : Scope) (n : ℕ) (count : ℤ) (s : LooseSession)
    (us : List Utxo) (hu : sc.userID = u)
    (h : (looseCall prober (.claimExact sc R n count) s).1 = Except.ok us) :
    Took (holding u R s.1.db.utxo)
      (holding u R (looseCall prober (.claimExact sc R n count) s).2.1.db.utxo) us := by
  subst hu
  exact (claimExact_took prober h).took s.2

theorem looseCall_outpoints (prober : Bool) (ops : List Outpoint) (s : LooseSession)
    (h : (looseCall prober (.releaseOutpoints R ops) s).1 = Except.ok ()) :
    holding u R (looseCall prober (.releaseOutpoints R ops) s).2.1.db.utxo
      = holding u R s.1.db.utxo \ {op | op ∈ ops} := by
  change (optimistic (fun _ i => i.releaseOutpoints R ops) s.1).1 = _ at h
  change holding u R (optimistic (fun _ i => i.releaseOutpoints R ops) s.1).2.db.utxo = _
  obtain ⟨t, hok, hu⟩ := optimistic_ok h
  rw [hu]
  exact holding_releaseOutpoints hok

theorem looseCall_release (prober : Bool) (s : LooseSession) (n : ℕ)
    (h : (looseCall prober (.releaseReservation u R) s).1 = Except.ok n) :
    holding u R (looseCall prober (.releaseReservation u R) s).2.1.db.utxo = ∅ := by
  change (answer (fun _ i => i.releaseReservation u R) s.1).1 = _ at h
  change holding u R (answer (fun _ i => i.releaseReservation u R) s.1).2.db.utxo = _
  rcases answer_cases (fun _ i => i.releaseReservation u R) s.1 with ⟨he, -⟩ | ⟨t, he, hu⟩
  · rw [he] at h
    cases h
  · rw [hu]
    exact holding_releaseReservation (he.symm.trans h)

/-- A release that is refused, by the store or on the way, changes nothing. -/
theorem answer_refused {s : Session Db} {v : UserID} {e : UtxoErr}
    (h : (answer (fun _ i => i.releaseReservation v R) s).1 = .error e) :
    (answer (fun _ i => i.releaseReservation v R) s).2.db.utxo = s.db.utxo := by
  rcases answer_cases (fun _ i => i.releaseReservation v R) s with ⟨-, hu⟩ | ⟨t, he, hu⟩
  · exact hu
  · rw [hu]
    have h := he.symm.trans h
    unfold Inventory.releaseReservation at h ⊢
    split at h
    · rfl
    · cases h

theorem looseCall_refused (prober : Bool) (s : LooseSession) (e : UtxoErr)
    (h : (looseCall prober (.releaseReservation u R) s).1 = Except.error e) :
    holding u R (looseCall prober (.releaseReservation u R) s).2.1.db.utxo
      = holding u R s.1.db.utxo :=
  congrArg (holding u R) (answer_refused h)

/-- The inventory behind a session is honest. -/
def sessionStore (prober : Bool) (u : UserID) (R : Token) : HonestStore u R LooseSession where
  call := looseCall prober
  held s := holding u R s.1.db.utxo
  smallest_ok := looseCall_smallest prober
  largest_ok := looseCall_largest prober
  exact_ok := looseCall_exact prober
  outpoints_ok := looseCall_outpoints prober
  release_ok := looseCall_release prober
  release_refused := looseCall_refused prober

/-- No statement fails. -/
def Calm (s : Session Db) : Prop := ∀ b ∈ s.beats, b.fault = false

/-- The time of a statement to come, if none fails. -/
def timeOf (s : Session Db) (k : ℕ) : Time := s.now + ((s.beats.take (k + 1)).map (·.advance)).sum

theorem answer_calm {s : Session Db} (h : Calm s)
    (x : Time → Inventory → Except UtxoErr α × Inventory) :
    answer x s = ((x (timeOf s 0) s.db.utxo).1,
      ⟨{ s.db with utxo := (x (timeOf s 0) s.db.utxo).2 }, timeOf s 0, s.beats.tail, s.busy⟩) := by
  obtain ⟨d, t, beats, busy⟩ := s
  unfold answer utxoStmt Uow.stmt
  rw [Uow.bind_apply]
  rcases beats with _ | ⟨b, bs⟩
  · simp only [timeOf, List.take_nil, List.map_nil, List.sum_nil, Nat.cast_zero, add_zero]
    rfl
  · have hb : b.fault = false := h b List.mem_cons_self
    simp only [Uow.beat, hb, Bool.false_eq_true, if_false, timeOf, List.take_succ_cons,
        List.take_zero, List.map_cons,
      List.map_nil, List.sum_cons, List.sum_nil, add_zero]
    rfl

theorem optimistic_quiet {s : Session Db} (h : Calm s) (hq : true ∉ s.busy)
    (x : Time → Inventory → Except UtxoErr α × Inventory) :
    optimistic x s = ((x (timeOf s 0) s.db.utxo).1,
      ⟨{ s.db with utxo := (x (timeOf s 0) s.db.utxo).2 }, timeOf s 0, s.beats.tail,
        s.busy.tail⟩) := by
  obtain ⟨d, t, beats, busy⟩ := s
  rcases busy with _ | ⟨_ | _, busy⟩
  · exact answer_calm h x
  · exact answer_calm (s := ⟨d, t, beats, busy⟩) h x
  · exact absurd List.mem_cons_self hq

theorem claimableExists_quiet {s : Session Db} (h : Calm s) (hq : true ∉ s.busy)
    (sc : Scope) (n : ℕ) :
    claimableExists sc n s = (.ok (s.db.utxo.rows.any fun r =>
      claimable r sc && decide (n ≤ r.satoshis)),
      ⟨s.db, timeOf s 0, s.beats.tail, s.busy.tail⟩) := by
  have hopt : claimableExists sc n s = optimistic (look sc n) s := by
    unfold claimableExists optimistic
    rcases hb : s.busy with _ | ⟨_ | _, busy⟩
    · rfl
    · rfl
    · exact absurd (hb ▸ List.mem_cons_self) hq
  exact hopt.trans (optimistic_quiet h hq (look sc n))

/-- Nobody gets in the way of the session: it goes on as the inventory does by itself. -/
structure Alone (clock : ℕ → Time) (s : Session Db) (st : Inventory × ℕ) : Prop where
  utxo : s.db.utxo = st.1
  calm : Calm s
  quiet : true ∉ s.busy
  clock : ∀ k, clock (st.2 + k) = timeOf s k

variable {clock : ℕ → Time} {prober : Bool} {args : FundArgs}

theorem timeOf_tail (s : Session Db) (d : Db) (busy : List Bool) (k : ℕ) :
    timeOf ⟨d, timeOf s 0, s.beats.tail, busy⟩ k = timeOf s (k + 1) := by
  unfold timeOf
  rcases s.beats with _ | ⟨b, bs⟩ <;> simp [add_assoc]

theorem Alone.step {s : Session Db} {st : Inventory × ℕ} (h : Alone clock s st) (i : Inventory)
    {busy : List Bool} (hq : true ∉ busy) :
    Alone clock ⟨{ s.db with utxo := i }, timeOf s 0, s.beats.tail, busy⟩ (i, st.2 + 1) where
  utxo := rfl
  calm b hb := h.calm b (List.mem_of_mem_tail hb)
  quiet := hq
  clock k := by rw [timeOf_tail, ← h.clock (k + 1), Nat.add_assoc, Nat.add_comm 1]

theorem Alone.optimistic {s : Session Db} {i : Inventory} {k : ℕ} (h : Alone clock s (i, k))
    (x : Time → Inventory → Except UtxoErr α × Inventory) :
    (UtxoStore.optimistic x s).1 = (x (clock k) i).1
      ∧ Alone clock (UtxoStore.optimistic x s).2 ((x (clock k) i).2, k + 1) := by
  have hk : clock k = timeOf s 0 := h.clock 0
  rw [optimistic_quiet h.calm h.quiet, hk, show i = s.db.utxo from h.utxo.symm]
  exact ⟨rfl, h.step _ fun hb => h.quiet (List.mem_of_mem_tail hb)⟩

theorem Alone.call (c : StoreCall) (hc : c.isProbe = false) {s : Session Db} {st : Inventory × ℕ}
    (h : Alone clock s st) : (UtxoStore.call prober c s).1 = (Funder.exact clock c st).1
      ∧ Alone clock (UtxoStore.call prober c s).2 (Funder.exact clock c st).2 := by
  obtain ⟨i, k⟩ := st
  cases c with
  | claimSmallestSufficient sc R n =>
    exact h.optimistic fun now i => i.claimSmallestSufficient now sc R n
  | claimLargestInsufficient sc R n limit =>
    exact h.optimistic fun now i => i.claimLargestInsufficient now sc R n limit
  | claimExact sc R n count => exact h.optimistic fun now i => i.claimExact now sc R n count
  | releaseOutpoints R ops => exact h.optimistic fun _ i => i.releaseOutpoints R ops
  | releaseReservation u R =>
    change (answer (fun _ i => i.releaseReservation u R) s).1 = _
      ∧ Alone clock (answer (fun _ i => i.releaseReservation u R) s).2 _
    rw [answer_calm h.calm, show s.db.utxo = i from h.utxo]
    exact ⟨rfl, h.step _ h.quiet⟩
  | claimableExists => cases hc

variable (prober) in
theorem Alone.selects {s : LooseSession} {st : Inventory × ℕ} (h : Alone clock s.1 st) {x : FundM α}
    (hx : Funder.Selects args x) :
    (x.run.run (looseCall prober) s).1 = (x.run.run (Funder.exact clock) st).1
      ∧ Alone clock (x.run.run (looseCall prober) s).2.1 (x.run.run (Funder.exact clock) st).2 :=
  hx.only.run_related (R := fun (s : LooseSession) st => Alone clock s.1 st) (fun c hc _ _ h =>
      h.call c hc.2) h

/-- A probe finds no coin where there is none. -/
theorem probe_bare {tiers : List Tier} {s : LooseSession} (hcalm : Calm s.1) (hq : true ∉ s.1.busy)
    (hbare : ∀ r ∈ Funder.coins args s.1.db.utxo, r.tier ∉ tiers) :
    ((Funder.probe args tiers).run.run (looseCall prober) s).1 = .ok none := by
  cases prober with
  | false => cases tiers <;> rfl
  | true =>
    induction tiers generalizing s with
    | nil => rfl
    | cons tier tiers ih =>
      have hnone : s.1.db.utxo.rows.any (fun r =>
          claimable r (Funder.scope args tier) && decide (0 ≤ r.satoshis))
          = false := by
        refine Bool.eq_false_iff.mpr fun h => ?_
        obtain ⟨r, hr, hc⟩ := Table.any_eq_true.mp h
        rw [Bool.and_eq_true, claimable_eq, Bool.and_eq_true] at hc
        have hin : r.loose ∈ Funder.coins args s.1.db.utxo := by
          unfold Funder.coins
          rw [pool_eq]
          exact List.mem_map_of_mem (Table.mem_select.mpr ⟨hr, hc.1.1⟩)
        exact hbare _ hin (List.mem_cons.mpr (.inl (of_decide_eq_true hc.1.2)))
      have hlook := claimableExists_quiet hcalm hq (Funder.scope args tier) 0
      rw [hnone] at hlook
      have hans : (looseCall true (.claimableExists (Funder.scope args tier) 0) s).1
          = some (.ok false) :=
        congrArg some (congrArg Prod.fst hlook)
      have hst : (looseCall true (.claimableExists (Funder.scope args tier) 0) s).2.1
          = ⟨s.1.db, timeOf s.1 0, s.1.beats.tail, s.1.busy.tail⟩ := congrArg Prod.snd hlook
      rw [Funder.probe, Prog.run_except_bind, Funder.ask, Prog.run_lift]
      dsimp only [Prog.ask, Prog.run]
      rw [hans]
      refine ih ?_ ?_ ?_ <;> rw [hst]
      · exact fun b hb => hcalm b (List.mem_of_mem_tail hb)
      · exact fun hb => hq (List.mem_of_mem_tail hb)
      · exact fun r hr ht => hbare r hr (List.mem_cons_of_mem _ ht)

/-- Rounds end with a collector that is funded, or that needs nothing. -/
theorem run_boundedTieredClaim_ok {σ : Type} {h : (c : StoreCall) → σ → c.Answer × σ}
    {c' : UtxoCollector} {s' : σ} :
    ∀ (n : ℕ) (c : UtxoCollector) (s : σ), (Funder.boundedTieredClaim args n c).run.run h s
      = (.ok c', s') →
      c'.isFunded = .ok true ∨ c'.isFunded = .ok false ∧ ∃ need ≤ 0, c'.remaining = .ok need
  | 0, _, _, hrun => by cases hrun
  | n + 1, c, s, hrun => by
    rw [Funder.boundedTieredClaim, Funder.run_liftCollector_bind] at hrun
    rcases hf : c.isFunded with e | _ | _ <;> rw [hf] at hrun
    · cases hrun
    · simp only [Bool.false_eq_true, if_false] at hrun
      rw [Funder.run_liftCollector_bind] at hrun
      rcases hr : c.remaining with e | need <;> rw [hr] at hrun
      · cases hrun
      · by_cases hpos : need ≤ 0
        · simp only [if_pos hpos] at hrun
          cases hrun
          exact .inr ⟨hf, need, hpos, hr⟩
        · simp only [if_neg hpos] at hrun
          rw [Prog.run_except_bind] at hrun
          rcases hround : (Funder.round args need.toNat args.tiers c).run.run h s
              with ⟨e | ⟨_ | _, c1⟩, s1⟩ <;>
            rw [hround] at hrun
          · cases hrun
          · cases hrun
          · exact run_boundedTieredClaim_ok n c1 s1 hrun
    · cases hrun
      exact .inl hf

variable {X : Set Outpoint} {c : UtxoCollector} {s : LooseSession} {st : Inventory × ℕ}
  {e : FundErr}

theorem tieredClaim_alone {fees : FeeCalc} {rounds : ℕ} (hv : args.validate = none)
    (hu : Alone clock s.1 st) (hc : UtxoCollector.Collected fees args c)
    (h : ((Funder.tieredClaim rounds args c).run.run (looseCall prober) s).1 = .error e) :
    e.isContention = false := by
  obtain ⟨hans, hund⟩ := hu.selects prober (Funder.selects_boundedTieredClaim rounds c)
  rw [Funder.tieredClaim, Funder.orHiddenInventory, Prog.run_except_bind, Prog.run_lift,
      Prog.run_except_bind] at h
  rcases hrun : (Funder.boundedTieredClaim args rounds c).run.run (looseCall prober) s
      with ⟨e1 | c1, s1⟩ <;>
    rw [hrun] at h hans hund
  · have hexact : (Funder.boundedTieredClaim args rounds c).run.run (Funder.exact clock) st
      = (.error e1, _) :=
      Prod.ext hans.symm rfl
    obtain ⟨hno, hbare⟩ := Funder.run_boundedTieredClaim_error clock hv rounds c st.1 st.2 hexact
    dsimp only at h
    cases e1 with
    | notEnoughFunds =>
      have hprobe : ((Funder.probe args args.tiers).run.run (looseCall prober) s1).1 = .ok none :=
        probe_bare hund.calm hund.quiet fun r hr => hbare rfl r (hund.utxo ▸ hr)
      rw [Prog.run_except_bind] at h
      rcases hp : (Funder.probe args args.tiers).run.run (looseCall prober) s1 with ⟨r, s2⟩
      rw [hp] at hprobe h
      cases hprobe
      cases h
      rfl
    | _ =>
      cases h
      exact hno
  · have hc1 := ((Funder.keeps_boundedTieredClaim Funder.counts_any rounds c).ok
      ⟨trivial, hc⟩ hrun).2
    have hsound := UtxoCollector.sound_collect (Funder.maxChange_pos hv) hc1
    have hf : c1.isFunded = .ok true := by
      rcases run_boundedTieredClaim_ok rounds c s hrun with hf | ⟨hf, need, hle, hr⟩
      · exact hf
      · exact absurd (UtxoCollector.remaining_pos hsound hf hr) (by omega)
    dsimp only [Funder.liftCollector, ExceptT.run_mk, Prog.run] at h
    rcases hres : c1.result with e2 | r <;> rw [hres] at h
    · have harith := c1.arith_result hf e2 hres
      rcases harith with rfl | rfl <;> cases h <;> rfl
    · cases h

/-- A pass that nobody disturbs does not fail for contention. -/
theorem fundOnce_alone {fees : FeeCalc} {rounds : ℕ} (hv : args.validate = none)
    (hu : Alone clock s.1 st)
    (h : ((Funder.fundOnce fees rounds args).run.run (looseCall prober) s).1 = .error e) :
    e.isContention = false := by
  have harith : ∀ {e' : FundErr}, e' = .panic ∨ e' = .satoshiRange → e' = e →
      e.isContention = false := by
    rintro _ (rfl | rfl) rfl <;> rfl
  rw [Funder.fundOnce, Funder.run_liftCollector_bind] at h
  rcases hstart : UtxoCollector.newFor fees args with e1 | c0 <;> have hnew := hstart
      <;> unfold UtxoCollector.newFor at hnew <;>
    rw [hnew] at h
  · exact harith (Funder.arith_newFor fees args e1 hstart) (Except.error.inj h)
  dsimp only at h
  have hc := (UtxoCollector.collected_newFor hstart).1
  split_ifs at h
  · obtain ⟨hans, hund⟩ := hu.selects prober (Funder.selects_claimExactFastPath fees c0)
    rw [Prog.run_except_bind] at h
    rcases hrun : (Funder.claimExactFastPath fees args c0).run.run (looseCall prober) s
        with ⟨e1 | c1, s1⟩ <;>
      rw [hrun] at h hans hund
    · rcases Funder.run_claimExactFastPath clock hv hc st.1 st.2 with
        ⟨e2, _, hexact, hfatal⟩ | ⟨c2, _, _, _, hexact, -⟩ <;> rw [hexact] at hans <;> cases hans
      cases h
      exact hfatal.2
    · dsimp only at h
      rw [Funder.run_liftCollector_bind] at h
      rcases hf : c1.isFunded with e2 | _ | _ <;> rw [hf] at h
      · exact harith (c1.arith_isFunded e2 hf) (Except.error.inj h)
      · exact tieredClaim_alone hv hund ((Funder.keeps_claimExactFastPath Funder.counts_any hc).ok
          trivial hrun).2 h
      · exact harith (c1.arith_result hf e h) rfl
  · exact tieredClaim_alone hv hu hc h

theorem attempts_ok {σ : Type} {h : (c : StoreCall) → σ → c.Answer × σ} {fees : FeeCalc}
    {rounds n : ℕ} {r : FundResult} {s s' : σ}
    (hrun : (Funder.attempts fees rounds args (n + 1)).run.run h s = (.ok r, s')) :
    (Funder.fundOnce fees rounds args).run.run h s = (.ok r, s')
      ∨ ∃ e s1, (Funder.fundOnce fees rounds args).run.run h s = (.error e, s1)
        ∧ e.isContention = true
        ∧ (Funder.attempts fees rounds args n).run.run h
          (h (.releaseReservation args.userID args.reservation) s1).2 = (.ok r, s') := by
  rw [Funder.attempts, Prog.run_except_bind, Prog.run_lift] at hrun
  rcases hpass : (Funder.fundOnce fees rounds args).run.run h s with ⟨e | r', s1⟩
      <;> rw [hpass] at hrun
  · dsimp only at hrun
    split_ifs at hrun with hret hcont
    · exact .inr ⟨e, s1, rfl, hcont, hrun⟩
    · cases hrun
    · cases hrun
  · exact .inl hrun

theorem calm_optimistic {s : Session Db} (h : Calm s)
    (x : Time → Inventory → Except UtxoErr α × Inventory) :
    Calm (optimistic x s).2
      ∧ ((optimistic x s).1.isOk ≠ false → (true ∈ (optimistic x s).2.busy ↔ true ∈ s.busy)) := by
  obtain ⟨d, t, beats, busy⟩ := s
  rcases busy with _ | ⟨_ | _, busy⟩
  · rw [show optimistic x ⟨d, t, beats, []⟩ = answer x ⟨d, t, beats, []⟩ from rfl, answer_calm h]
    exact ⟨fun b hb => h b (List.mem_of_mem_tail hb), fun _ => Iff.rfl⟩
  · rw [show optimistic x ⟨d, t, beats, false :: busy⟩ = answer x ⟨d, t, beats, busy⟩ from rfl,
      answer_calm (s := ⟨d, t, beats, busy⟩) h]
    exact ⟨fun b hb => h b (List.mem_of_mem_tail hb), fun _ => by simp⟩
  · exact ⟨h, fun hok => absurd rfl hok⟩

theorem calm_call (c : StoreCall) {s : Session Db} (h : Calm s) : Calm (call prober c s).2 := by
  cases c with
  | releaseReservation u R =>
    change Calm (answer (fun _ i => i.releaseReservation u R) s).2
    rw [answer_calm h]
    exact fun b hb => h b (List.mem_of_mem_tail hb)
  | claimableExists sc n =>
    cases prober with
    | false => exact h
    | true =>
      change Calm (claimableExists sc n s).2
      rw [claimableExists_snd]
      exact (calm_optimistic h _).1
  | _ => exact (calm_optimistic h _).1

theorem calm_run {s s' : LooseSession} {x : FundM α} {a : Except FundErr α}
    (hx : Funder.InPass args x) (h : Calm s.1)
    (hrun : x.run.run (looseCall prober) s = (a, s')) : Calm s'.1 := by
  have hc := hx.invariant (h := looseCall prober) (I := fun s : LooseSession =>
      Calm s.1) (fun c _ _ h => calm_call c h) h
  rwa [hrun] at hc

theorem call_busy {B : Prop} (c : StoreCall) (hc : c.isRelease = false) {s : Session Db}
    (h : Calm s ∧ (true ∈ s.busy ↔ B)) (hans : ¬c.Refused (call prober c s).1) :
    Calm (call prober c s).2 ∧ (true ∈ (call prober c s).2.busy ↔ B) := by
  refine ⟨calm_call c h.1, ?_⟩
  cases c with
  | releaseReservation => cases hc
  | claimableExists => exact absurd trivial hans
  | _ => exact ((calm_optimistic h.1 _).2 hans).trans h.2

theorem release_calm {s : LooseSession} (h : Calm s.1) (hR : args.reservation ≠ "") :
    (sessionStore prober args.userID args.reservation).held
      (looseCall prober (.releaseReservation args.userID args.reservation) s).2 = ∅ := by
  obtain ⟨n, hok⟩ : ∃ n, (answer (fun _ i => i.releaseReservation args.userID args.reservation)
      s.1).1 = .ok n := by
    rw [answer_calm h, Inventory.releaseReservation, validateReservation_eq_none.mpr hR]
    exact ⟨_, rfl⟩
  exact (sessionStore prober args.userID args.reservation).release_ok s n hok

/-- From a token that holds nothing, `Fund` ends with the coins of its result. -/
theorem attempts_held {fees : FeeCalc} {rounds : ℕ} (hv : args.validate = none) {r : FundResult} :
    ∀ {n : ℕ} {s s' : LooseSession}, Calm s.1 →
      (sessionStore prober args.userID args.reservation).held s = ∅ →
      (Funder.attempts fees rounds args n).run.run (looseCall prober) s = (.ok r, s') →
      (sessionStore prober args.userID args.reservation).held s'
        = {op | op ∈ r.allocatedUTXOs.map (·.outpoint)}
  | 0, _, _, _, _, hrun => by cases hrun
  | n + 1, s, s', hcalm, hs, hrun => by
    rcases attempts_ok hrun with hpass | ⟨e, s1, hpass, -, hrest⟩
    · have hheld := ((HonestStore.keeps_fundOnce (Funder.maxChange_pos hv) fees rounds).ok hs
        hpass).1.held_eq
      exact hheld.trans (Set.empty_union _)
    · have hcalm1 := calm_run (Funder.inPass_fundOnce fees rounds) hcalm hpass
      exact attempts_held hv (calm_call _ hcalm1)
          (release_calm hcalm1 (Funder.reservation_ne_empty hv)) hrest

theorem grip_call {c : StoreCall} {s : Session Db} (hR : R ≠ "") (hc : c.Under u R)
    (hg : Grip u R s.db.utxo) :
    Grip u R (UtxoStore.call prober c s).2.db.utxo := by
  have hopt : ∀ {α : Type} (x : Time → Inventory → Except UtxoErr α × Inventory),
      (∀ t i, Grip u R i → Grip u R (x t i).2) → Grip u R (optimistic x s).2.db.utxo :=
        fun x hx => by
    rcases optimistic_or x s with ⟨-, -, hu⟩ | ⟨t, -, hu⟩ <;> rw [hu]
    · exact hg
    · exact hx t _ hg
  cases c with
  | claimSmallestSufficient sc r n =>
    obtain ⟨rfl, rfl⟩ := hc
    refine hopt _ fun t i hi => ?_
    rcases claimSmallestSufficient_cases i t sc r n with ⟨e, he⟩ | he | ⟨x, i', he, hx⟩ <;> rw [he]
    exacts [hi, hi, hx.grip hi]
  | claimLargestInsufficient sc r n limit =>
    obtain ⟨rfl, rfl⟩ := hc
    refine hopt _ fun t i hi => ?_
    rcases claimLargestInsufficient_cases i t sc r n limit with ⟨e, he⟩ | ⟨us, i', he, hx⟩
        <;> rw [he]
    exacts [hi, hx.grip hi]
  | claimExact sc r n count =>
    obtain ⟨rfl, rfl⟩ := hc
    refine hopt _ fun t i hi => ?_
    rcases claimExact_cases i t sc r n count with ⟨e, he⟩ | ⟨us, i', he, hx⟩ <;> rw [he]
    exacts [hi, hx.grip hi]
  | releaseOutpoints r ops =>
    obtain rfl : r = R := hc
    exact hopt _ fun _ i hi => hi.releaseOutpoints hR ops
  | releaseReservation v r =>
    obtain ⟨rfl, rfl⟩ := hc
    change Grip v r (answer (fun _ i => i.releaseReservation v r) s).2.db.utxo
    rcases answer_cases (fun _ i => i.releaseReservation v r) s with ⟨-, hu⟩ | ⟨t, -, hu⟩
        <;> rw [hu]
    exacts [hg, hg.releaseReservation hR]
  | claimableExists sc n =>
    have hread : (UtxoStore.call prober (.claimableExists sc n) s).2.db.utxo = s.db.utxo :=
      utxo_claimableExists prober sc n s
    rwa [hread]

/-- What a successful call of `Fund` holds, over statements that do not fail. -/
theorem fund_held {fees : FeeCalc} {rounds : ℕ} {s s' : Session Db} {r : FundResult}
    (hg : Grip args.userID args.reservation s.db.utxo) (hcalm : Calm s)
    (hrun : (Funder.fund fees rounds args).run.run (UtxoStore.call prober) s = (.ok r, s')) :
    (held args.reservation s'.db.utxo = held args.reservation s.db.utxo
      ∪ {op | op ∈ r.allocatedUTXOs.map (·.outpoint)}
        ∧ (∀ op ∈ r.allocatedUTXOs.map (·.outpoint), op ∉ held args.reservation s.db.utxo)
        ∧ (true ∈ s'.busy ↔ true ∈ s.busy))
      ∨ (held args.reservation s'.db.utxo = {op | op ∈ r.allocatedUTXOs.map (·.outpoint)}
        ∧ true ∈ s.busy) := by
  have hv : args.validate = none := by
    unfold Funder.fund at hrun
    rcases hv : args.validate with _ | e
    · rfl
    · rw [hv] at hrun
      cases hrun
  have hfund : Funder.fund fees rounds args = Funder.attempts fees rounds args (2 + 1) := by
    unfold Funder.fund
    rw [hv]
    rfl
  have hown : Funder.Own args (Funder.fund fees rounds args) := Funder.own_fund fees rounds
  have hg' := hown.invariant (h := UtxoStore.call prober)
    (I := fun s : Session Db => Grip args.userID args.reservation s.db.utxo)
    (fun c hc _ h => grip_call (Funder.reservation_ne_empty hv) hc h) hg
  rw [hrun] at hg'
  -- the same run on sessions in which no free coin is pinned
  have hloose : Loose s.db.utxo := hg.loose
  have hghost : (Funder.fund fees rounds args).run.run (UtxoStore.call prober) s
      = (((Funder.fund fees rounds args).run.run (looseCall prober) ⟨s, hloose⟩).1,
        ((Funder.fund fees rounds args).run.run (looseCall prober) ⟨s, hloose⟩).2.1) :=
    Prog.run_ghost (f := Subtype.val) (fun _ _ => rfl) _ ⟨s, hloose⟩
  rcases hl : (Funder.fund fees rounds args).run.run (looseCall prober) ⟨s, hloose⟩
      with ⟨res, s1, hl1⟩
  rw [hl] at hghost
  obtain ⟨rfl, rfl⟩ := Prod.mk.inj (hghost.symm.trans hrun)
  rw [hg.held_eq, hg'.held_eq]
  rw [hfund] at hl
  rcases attempts_ok hl with hpass | ⟨e, s2, hpass, hcont, hrest⟩
  · obtain ⟨hholds, -⟩ :=
      (HonestStore.keeps_fundOnce (K := sessionStore prober args.userID args.reservation)
      (Funder.maxChange_pos hv) fees rounds).ok rfl hpass
    have hpasses : Funder.Passes args (Funder.fundOnce fees rounds args) :=
      Funder.passes_fundOnce fees rounds
    have hbusy := hpasses.run_ok (h := looseCall prober)
      (I := fun t : LooseSession => Calm t.1 ∧ (true ∈ t.1.busy ↔ true ∈ s.busy))
      (fun c hc _ hans h => call_busy c hc.2 h hans) (congrArg Prod.fst hpass) ⟨hcalm, Iff.rfl⟩
    rw [hpass] at hbusy
    exact .inl ⟨hholds.held_eq, hholds.apart, hbusy.2⟩
  · have hbusy : true ∈ s.busy := by
      by_contra hq
      have hu : Alone (timeOf s) s (s.db.utxo, 0) := ⟨rfl, hcalm, hq, fun k => by rw [Nat.zero_add]⟩
      cases hcont.symm.trans (fundOnce_alone (s := ⟨s, hloose⟩) hv hu (congrArg Prod.fst hpass))
    have hcalm2 := calm_run (s := ⟨s, hloose⟩) (Funder.inPass_fundOnce fees rounds) hcalm hpass
    exact .inr ⟨attempts_held hv (calm_call _ hcalm2)
        (release_calm hcalm2 (Funder.reservation_ne_empty hv)) hrest, hbusy⟩

end Storage

end ArcadeToolbox
