import ArcadeToolbox.Storage.FundHolds
import Mathlib.Algebra.BigOperators.Ring.Finset

/-!
# The value of a signing template

The coins that the funder allocates pay the target, the fee and the change. So what the inputs of
the template exceed its outputs by is the fee, and with it a change too small for an output.

The funder takes free coins only. The provided inputs are held when it starts, or are no coins of
the user, so no outpoint is spent twice. A release of the token in between would free them again.
-/

namespace ArcadeToolbox

open Txn

namespace Inventory

variable {s s' : Inventory} {u v : UserID} {R : Token} {G : Set Outpoint}

/-- The user has no free coin at these outpoints. -/
def Barred (u : UserID) (G : Set Outpoint) (s : Inventory) : Prop :=
  ∀ r ∈ s.rows, r.outpoint ∈ G → r.userID = u → r.reservedBy ≠ ""

theorem Barred.claimed {us : List Utxo} (h : Barred u G s) (hc : Claimed v R s us s') :
    Barred u (G ∪ {op | op ∈ us.map (·.outpoint)}) s' := by
  obtain ⟨now, rfl⟩ := hc.state
  intro x hx hop hu
  obtain ⟨r, hr, rfl⟩ := mem_modify.mp hx
  by_cases hm : r.outpoint ∈ us.map (·.outpoint)
  · simpa only [hm, decide_true, if_true] using hc.token
  · simp only [hm, decide_false, Bool.false_eq_true, if_false] at hop hu ⊢
    exact h r hr (hop.resolve_right hm) hu

/-- Claims take free coins. -/
theorem Barred.took {us : List Utxo} (h : Barred u G s) (hc : Claimed u R s us s') :
    Took G (G ∪ {op | op ∈ us.map (·.outpoint)}) us := by
  refine ⟨hc.nodup, fun op hop hG => ?_, rfl⟩
  obtain ⟨r, hr, hk, hb, hu, -⟩ := hc.free op hop
  exact h r hr (hk ▸ hG) hu hb

theorem Barred.releaseOutpoints (h : Barred u G s) (ops : List Outpoint) :
    Barred u (G \ {op | op ∈ ops}) (s.releaseOutpoints R ops).2 := by
  unfold Inventory.releaseOutpoints
  split
  · exact fun r hr hop => h r hr hop.1
  · intro x hx hop hu
    obtain ⟨r, hr, rfl⟩ := mem_modify.mp hx
    split at hop
    · rename_i hsel
      simp only [Bool.and_eq_true, decide_eq_true_eq] at hsel
      exact absurd hsel.1.1 hop.2
    · rename_i hsel
      rw [if_neg hsel] at hu ⊢
      exact h r hr hop.1 hu

theorem barred_reserveOutpoints {now : Time} {ops : List Outpoint}
    (hG : ∀ r ∈ s.rows, r.outpoint ∈ G → r.userID = u → r.outpoint ∈ ops)
    (hok : (s.reserveOutpoints now u R ops).1 = []) :
    Barred u G (s.reserveOutpoints now u R ops).2 := by
  unfold reserveOutpoints at hok ⊢
  rcases hv : validateReserveOutpoints R ops with _ | e <;> simp only [hv] at hok ⊢
  · have hR : R ≠ "" := by
      rintro rfl
      simp [validateReserveOutpoints, validateReservation] at hv
    rcases hn : ops.eraseDups.filterMap (s.reserveRefusal u R) with _ | ⟨e, es⟩
        <;> simp only [hn] at hok ⊢
    · intro x hx hop hu
      obtain ⟨r, hr, rfl⟩ := mem_modify.mp hx
      split at hop <;> rename_i hsel
      · rw [if_pos hsel]
        exact hR
      · rw [if_neg hsel] at hu ⊢
        have hmem := hG r hr hop hu
        simp only [hmem, decide_true, Bool.true_and, decide_eq_true_eq, not_not] at hsel
        rwa [hsel]
    · cases hok
  · cases hok

end Inventory

/-- The outpoints barred after a call that bars `g a` if it answers `a`. -/
def barredBy {α : Type} (G : Set Outpoint) (g : α → Set Outpoint) : Except UtxoErr α → Set Outpoint
  | .ok a => g a
  | .error _ => G

/-- The outpoints barred after a call: claimed coins are, released ones no longer. -/
def StoreCall.bars (G : Set Outpoint) : (c : StoreCall) → c.Answer → Set Outpoint
  | .claimSmallestSufficient .. => barredBy G fun o => G ∪ {op | op ∈ o.toList.map (·.outpoint)}
  | .claimLargestInsufficient .. | .claimExact .. =>
    barredBy G fun us => G ∪ {op | op ∈ us.map (·.outpoint)}
  | .releaseOutpoints _ ops => barredBy G fun _ => G \ {op | op ∈ ops}
  | .releaseReservation .. => barredBy G fun _ => ∅
  | .claimableExists .. => fun _ => G

/-- What the inputs of a template exceed its outputs by. -/
def CreateActionResult.surplus (r : CreateActionResult) : ℤ :=
  ((r.inputs.map (·.sourceSatoshis)).sum : ℕ) - ((r.outputs.map (·.satoshis)).sum : ℕ)

namespace Storage

open Inventory UtxoStore

variable {α : Type} {u : UserID} {R : Token} {G : Set Outpoint}

theorem barred_optimistic {x : Time → Inventory → Except UtxoErr α × Inventory}
    {g : α → Set Outpoint} {s : Session Db} (h : Barred u G s.db.utxo)
    (hx : ∀ t, Barred u (barredBy G g (x t s.db.utxo).1) (x t s.db.utxo).2) :
    Barred u (barredBy G g (optimistic x s).1) (optimistic x s).2.db.utxo := by
  rcases optimistic_or x s with ⟨e, he, hu⟩ | ⟨t, he, hu⟩ <;> rw [he, hu]
  · exact h
  · exact hx t

theorem barred_call (prober : Bool) (c : StoreCall) {s : Session Db} (h : Barred u G s.db.utxo) :
    Barred u (c.bars G (call prober c s).1) (call prober c s).2.db.utxo := by
  cases c with
  | claimSmallestSufficient sc R n =>
    refine barred_optimistic h fun t => ?_
    rcases claimSmallestSufficient_cases s.db.utxo t sc R n with ⟨e, hc⟩ | hc | ⟨x, i, hc, hx⟩
        <;> rw [hc]
    · exact h
    · exact fun r hr hop => h r hr (hop.resolve_right (by simp))
    · exact h.claimed hx
  | claimLargestInsufficient sc R n limit =>
    refine barred_optimistic h fun t => ?_
    rcases claimLargestInsufficient_cases s.db.utxo t sc R n limit with ⟨e, hc⟩ | ⟨us, i, hc, hx⟩
        <;> rw [hc]
    · exact h
    · exact h.claimed hx
  | claimExact sc R n count =>
    refine barred_optimistic h fun t => ?_
    rcases claimExact_cases s.db.utxo t sc R n count with ⟨e, hc⟩ | ⟨us, i, hc, hx⟩ <;> rw [hc]
    · exact h
    · exact h.claimed hx
  | releaseOutpoints R ops =>
    refine barred_optimistic h fun t => ?_
    have hrel := h.releaseOutpoints (R := R) ops
    unfold Inventory.releaseOutpoints at hrel ⊢
    split
    · exact h
    · rename_i hv
      rw [hv] at hrel
      exact hrel
  | releaseReservation v R =>
    change Barred u (barredBy G _ (answer (fun _ i => i.releaseReservation v R) s).1)
      (answer (fun _ i => i.releaseReservation v R) s).2.db.utxo
    rcases hr : (answer (fun _ i => i.releaseReservation v R) s).1 with e | n
    · rw [answer_refused hr]
      exact h
    · exact fun r _ hop => absurd hop (Set.notMem_empty _)
  | claimableExists sc n =>
    have hread : (call prober (.claimableExists sc n) s).2.db.utxo = s.db.utxo :=
      utxo_claimableExists prober sc n s
    rw [hread]
    exact h

/-- A session with outpoints at which the user has no free coin. -/
abbrev BarredSession (u : UserID) := {x : Session Db × Set Outpoint // Barred u x.2 x.1.db.utxo}

def barredCall (prober : Bool) (c : StoreCall) (x : BarredSession u) : c.Answer × BarredSession u :=
  ((call prober c x.1.1).1, ⟨((call prober c x.1.1).2, c.bars x.1.2 (call prober c x.1.1).1),
    barred_call prober c x.2⟩)

/-- The outpoints barred after a claim that was answered. -/
theorem barredCall_ok {c : StoreCall} {prober : Bool} {x : BarredSession u} {a : c.Answer}
    (h : (barredCall prober c x).1 = a) : (barredCall prober c x).2.1.2 = c.bars x.1.2 a := by
  subst h
  rfl

theorem barredCall_smallest (prober : Bool) (sc : Scope) (n : ℕ) (x : BarredSession u)
    (o : Option Utxo)
    (hu : sc.userID = u) (h : (barredCall prober (.claimSmallestSufficient sc R n) x).1
      = Except.ok o) :
    Took x.1.2 (barredCall prober (.claimSmallestSufficient sc R n) x).2.1.2 o.toList := by
  subst hu
  rw [barredCall_ok h]
  rcases claimSmallestSufficient_took prober h with ⟨ho, -⟩ | hc
  · have hnil : StoreCall.bars x.1.2 (.claimSmallestSufficient sc R n) (Except.ok o) = x.1.2 := by
      simp [StoreCall.bars, barredBy, ho]
    rw [hnil, ho]
    exact Took.nil _
  · exact x.2.took hc

theorem barredCall_largest (prober : Bool) (sc : Scope) (n : ℕ) (limit : ℤ) (x : BarredSession u)
    (us : List Utxo) (hu : sc.userID = u)
    (h : (barredCall prober (.claimLargestInsufficient sc R n limit) x).1 = Except.ok us) :
    Took x.1.2 (barredCall prober (.claimLargestInsufficient sc R n limit) x).2.1.2 us := by
  subst hu
  rw [barredCall_ok h]
  exact x.2.took (claimLargestInsufficient_took prober h)

theorem barredCall_exact (prober : Bool) (sc : Scope) (n : ℕ) (count : ℤ) (x : BarredSession u)
    (us : List Utxo) (hu : sc.userID = u)
    (h : (barredCall prober (.claimExact sc R n count) x).1 = Except.ok us) :
    Took x.1.2 (barredCall prober (.claimExact sc R n count) x).2.1.2 us := by
  subst hu
  rw [barredCall_ok h]
  exact x.2.took (claimExact_took prober h)

/-- The barred outpoints are held, as far as the funder can tell. -/
def barredStore (prober : Bool) (u : UserID) (R : Token) : HonestStore u R (BarredSession u) where
  call := barredCall prober
  held x := x.1.2
  smallest_ok := barredCall_smallest prober
  largest_ok := barredCall_largest prober
  exact_ok := barredCall_exact prober
  outpoints_ok _ _ h := barredCall_ok h
  release_ok _ _ h := barredCall_ok h
  release_refused _ _ h := barredCall_ok h

/-- A funder that succeeds without releasing its token allocates coins that are barred neither
before nor by each other. -/
theorem fund_apart {fees : FeeCalc} {rounds : ℕ} {fa : FundArgs} {prober : Bool} {s s' : Session Db}
    {r : FundResult} (hG : Barred fa.userID G s.db.utxo)
    (h : (Funder.fund fees rounds fa).run.run (call prober) s = (.ok r, s'))
    (hretry : ∀ cs ∈ (Funder.fund fees rounds fa).run.calls (call prober) s,
      cs.1.isRelease = false) :
    (r.allocatedUTXOs.map (·.outpoint)).Nodup ∧ (∀ op ∈ r.allocatedUTXOs.map (·.outpoint), op ∉ G)
      ∧ r.For fa := by
  let K := barredStore prober fa.userID fa.reservation
  let x : BarredSession fa.userID := ⟨(s, G), hG⟩
  let prog := (Funder.fund fees rounds fa).run
  have hghost : ∀ c (y : BarredSession fa.userID), call prober c y.1.1 = ((K.call c y).1,
      (K.call c y).2.1.1) :=
    fun _ _ => rfl
  have hrun : (prog.run K.call x).1 = .ok r := by
    have := Prog.run_ghost (f := fun y : BarredSession fa.userID => y.1.1) hghost prog x
    exact (congrArg Prod.fst (this.symm.trans h))
  have hcalls : ∀ cs ∈ prog.calls K.call x, cs.1.isRelease = false := fun cs hcs => by
    refine hretry (cs.1, cs.2.1.1) ?_
    have := Prog.calls_ghost (f := fun y : BarredSession fa.userID => y.1.1) hghost prog x
    have hmem := List.mem_map_of_mem (f := fun ct : StoreCall × BarredSession fa.userID =>
        (ct.1, ct.2.1.1)) hcs
    exact this ▸ hmem
  have hvalid : fa.validate = none := by
    rcases hv : fa.validate with _ | e
    · rfl
    · unfold Funder.fund at h
      rw [hv] at h
      cases h
  obtain ⟨hholds, hfor⟩ := (HonestStore.fund_left (K := K) hvalid fees rounds x).1 r hrun
  rw [HonestStore.left_eq_self hcalls] at hholds
  exact ⟨hholds.nodup, hholds.apart, hfor⟩

variable {p : Provider} {env : Env} {userID : UserID} {args : CreateActionArgs} {s s' : Session Db}
  {provided : List ResolvedInput} {fa : FundArgs} {fundRes : FundResult} {r : CreateActionResult}

theorem fundArgs_targetSat {reference : Token} {count : ℕ}
    (h : fundArgs p userID reference args provided count = .ok fa) :
    fa.targetSat = fundingTarget p args provided := by
  unfold fundArgs at h
  rcases ht : satoshiFrom (fundingTarget p args provided) with e | t <;> rw [ht] at h
  · cases h
  · obtain ⟨t', ht', h⟩ := Except.bind_eq_ok h
    obtain ⟨src, -, h⟩ := Except.bind_eq_ok h
    cases h
    cases ht'
    exact satoshiFrom_eq_ok ht

theorem sum_distributeChange {total : ℤ} {count : ℕ} (hc : count ≠ 0) (ht : 0 < total) :
    ((distributeChange total count).sum : ℤ) = total := by
  have hmul := Nat.div_add_mod total.toNat count
  obtain ⟨n, rfl⟩ := Nat.exists_eq_succ_of_ne_zero hc
  rw [distributeChange, if_neg (by omega), List.sum_append, List.sum_replicate_nat,
    List.sum_singleton, Nat.succ_sub_one, ← add_assoc, ← Nat.succ_mul, hmul]
  exact Int.toNat_of_nonneg ht.le

theorem distributeChange_zero (total : ℤ) : distributeChange total 0 = [] := if_pos (Or.inl rfl)

theorem filterMap_getElem_range {α : Type} (l : List α) :
    (List.range l.length).filterMap (l[·]?) = l := by
  induction l with
  | nil => rfl
  | cons a l ih =>
    rw [List.length_cons, List.range_succ_eq_map, List.filterMap_cons, List.filterMap_map]
    exact congrArg (a :: ·) ih

theorem reorder_perm {α : Type} (order : List ℕ) (l : List α) : (reorder order l).Perm l := by
  unfold reorder
  split
  · rename_i h
    have hperm := (List.isPerm_iff.mp h).filterMap (l[·]?)
    rwa [filterMap_getElem_range] at hperm
  · exact List.Perm.refl _

theorem sum_buildOutputPlans (p : Provider) (args : CreateActionArgs)
    (provided : List ResolvedInput) (fundRes : FundResult) :
    (((buildOutputPlans p args fundRes).map (·.satoshis)).sum : ℕ)
      = fundingTarget p args provided + ((provided.map (·.satoshis)).sum : ℕ)
        + (distributeChange fundRes.changeAmount fundRes.changeOutputsCount).sum := by
  have hcommission : (p.funding.commission.toList.map fun c => c.1).sum
      = p.funding.commission.elim 0 (·.1) := by cases p.funding.commission <;> simp
  have hfuel : (List.map OutputPlan.satoshis (args.fuelShape.elim [] fun s => List.replicate s.count
      { satoshis := s.satoshis, lockingScript := none, basket := some s.basket, change := true,
        providedBy := .storage })).sum = args.fuelShape.elim 0 fun s => s.count * s.satoshis := by
    cases args.fuelShape <;> simp
  have houtputs : (args.outputs.map fun o => (o.satoshis : ℤ)).sum
      = ((args.outputs.map (·.satoshis)).sum : ℕ) := by
    rw [Nat.cast_list_sum, List.map_map]
    rfl
  unfold buildOutputPlans fundingTarget
  simp only [houtputs, List.map_append, List.sum_append, List.map_map, Function.comp_def,
      List.map_id', hfuel,
    hcommission, Nat.cast_add]
  omega

theorem sum_resultInputs (allocated : List Utxo) :
    ((resultInputs provided allocated).map (·.sourceSatoshis)).sum
      = (provided.map (·.satoshis)).sum + (allocated.map (·.satoshis)).sum := by
  simp [resultInputs, Function.comp_def]

theorem persistCreateAction_template {reference : Token}
    (h : persistCreateAction p env userID reference args provided fundRes s = (.ok r, s')) :
    r.inputs = resultInputs provided fundRes.allocatedUTXOs
      ∧ r.outputs.Perm (buildOutputPlans p args fundRes) := by
  unfold persistCreateAction at h
  obtain ⟨total, s1, -, h⟩ := Uow.bind_ok h
  obtain ⟨-, s2, -, h⟩ := Uow.bind_ok h
  obtain ⟨id, s3, -, h⟩ := Uow.bind_ok h
  obtain ⟨-, s4, -, h⟩ := Uow.bind_ok h
  obtain ⟨-, s5, -, h⟩ := Uow.bind_ok h
  cases h
  refine ⟨rfl, ?_⟩
  dsimp only
  split
  · exact reorder_perm _ _
  · exact List.Perm.refl _

theorem surplus_of_funded {reference : Token} (hfor : fundRes.For fa)
    (htarget : fa.targetSat = fundingTarget p args provided)
    (h : persistCreateAction p env userID reference args provided fundRes s = (.ok r, s')) :
    (fundRes.changeOutputsCount ≠ 0 → r.surplus = fundRes.fee)
      ∧ (fundRes.changeOutputsCount = 0 →
        fundRes.fee ≤ r.surplus ∧ r.surplus ≤ fundRes.fee + fundRes.dustFloor - 1) := by
  obtain ⟨hin, hout⟩ := persistCreateAction_template h
  have hplans := sum_buildOutputPlans p args provided fundRes
  have hsum : (r.outputs.map (·.satoshis)).sum
      = ((buildOutputPlans p args fundRes).map (·.satoshis)).sum :=
    (hout.map _).sum_eq
  have hbalance := hfor.balance
  have hsurplus : r.surplus = fundRes.fee + fundRes.changeAmount
      - ((distributeChange fundRes.changeAmount fundRes.changeOutputsCount).sum : ℕ) := by
    unfold CreateActionResult.surplus
    rw [hin, sum_resultInputs, hsum, hplans]
    omega
  constructor
  · intro hc
    have hge : (fundRes.dustFloor : ℤ) ≤ fundRes.changeAmount := not_lt.mp (hc ∘ hfor.count.mpr)
    have hdust := hfor.dust
    have hpos : 0 < fundRes.changeAmount := by omega
    have hchange := sum_distributeChange hc hpos
    omega
  · intro hc
    have hlt := hfor.count.mp hc
    have hnonneg := hfor.nonneg
    rw [hc, distributeChange_zero] at hsurplus
    simp only [List.sum_nil, Nat.cast_zero, sub_zero] at hsurplus
    omega

/-- The funder returns this result in the call. -/
def FundsWith (p : Provider) (env : Env) (userID : UserID) (args : CreateActionArgs)
    (s : Session Db)
    (fundRes : FundResult) : Prop :=
  ∃ provided fa s₁ s₂, beforeFunding p env userID args s = (.ok (provided, fa), s₁)
    ∧ (fundProg p fa).run (call p.funding.prober) s₁ = (.ok fundRes, s₂)

/-- The funder releases the token in the call, as it does before it tries again. -/
def Retries (p : Provider) (env : Env) (userID : UserID) (args : CreateActionArgs)
    (s : Session Db) : Prop :=
  ∃ provided fa s₁, beforeFunding p env userID args s = (.ok (provided, fa), s₁)
    ∧ ∃ cs ∈ (fundProg p fa).calls (call p.funding.prober) s₁, cs.1.isRelease = true

/-- The provided inputs are barred when the funder starts: the user's own ones are reserved, and the
others are no coins of the user. -/
theorem beforeFunding_bars
    (hrows : ∀ c ∈ s.db.utxo.rows, c.userID = userID →
      (s.db.metadata.outputOf userID c.outpoint).isSome = true)
    (h : beforeFunding p env userID args s = (.ok (provided, fa), s')) :
    Barred userID {op | op ∈ args.inputs.map (·.outpoint)} s'.db.utxo := by
  obtain ⟨hprov, -, s1, hwaits, hres⟩ := beforeFunding_ok h
  have howned : walletOwnedOutpoints provided = (args.inputs.map (·.outpoint)).filter fun op =>
      (s.db.metadata.outputOf userID op).isSome := walletOwnedOutpoints_resolved hprov
  have hmem : ∀ {c}, c ∈ s1.db.utxo.rows → c.outpoint ∈ args.inputs.map (·.outpoint) →
      c.userID = userID →
      c.outpoint ∈ walletOwnedOutpoints provided := fun {c} hc hop hu => by
    rw [hwaits.db] at hc
    rw [howned]
    exact List.mem_filter.mpr ⟨hop, hrows c hc hu⟩
  unfold reserveProvidedInputs at hres
  split at hres
  · rename_i hnil
    cases hres
    intro c hc hop hu
    have := hmem hc hop hu
    rw [hnil] at this
    cases this
  · obtain ⟨s2, hw, hok, rfl⟩ := utxoStmt_ok hres
    refine barred_reserveOutpoints (fun c hc => hmem (hw.db ▸ hc)) ?_
    by_contra hne
    simp only [UtxoStore.joinBatch, hne, if_false] at hok
    cases hok

/-- A call that succeeds without a retry, from distinct inputs and with an output row for each coin
of the user, returns a template that conserves value and spends no outpoint twice. -/
theorem createAction_conserves_value (h : createAction p env userID args s = (.ok r, s'))
    (hdistinct : (args.inputs.map (·.outpoint)).Nodup)
    (hrows : ∀ c ∈ s.db.utxo.rows, c.userID = userID →
      (s.db.metadata.outputOf userID c.outpoint).isSome = true)
    (hretry : ¬ Retries p env userID args s) :
    ∃ fundRes, FundsWith p env userID args s fundRes
      ∧ (fundRes.changeOutputsCount ≠ 0 → r.surplus = fundRes.fee)
      ∧ (fundRes.changeOutputsCount = 0 →
        fundRes.fee ≤ r.surplus ∧ r.surplus ≤ fundRes.fee + fundRes.dustFloor - 1)
      ∧ (r.inputs.map (·.outpoint)).Nodup := by
  obtain ⟨provided, fa, s₁, fundRes, s₂, hbefore, hfund, hpersist⟩ := createAction_parts h
  obtain ⟨hprov, ⟨count, hfa⟩, -⟩ := beforeFunding_ok hbefore
  have hbars := beforeFunding_bars hrows hbefore
  rw [← (fundArgs_ok hfa).1] at hbars
  obtain ⟨hnodup, hapart, hfor⟩ := fund_apart hbars hfund fun cs hcs =>
    eq_false_of_ne_true fun hrel => hretry ⟨provided, fa, s₁, hbefore, cs, hcs, hrel⟩
  obtain ⟨hchange, hnone⟩ := surplus_of_funded hfor (fundArgs_targetSat hfa) hpersist
  refine ⟨fundRes, ⟨provided, fa, s₁, s₂, hbefore, hfund⟩, hchange, hnone, ?_⟩
  have hinputs : (resultInputs provided fundRes.allocatedUTXOs).map (·.outpoint)
      = args.inputs.map (·.outpoint) ++ fundRes.allocatedUTXOs.map (·.outpoint) := by
    unfold resultInputs
    rw [← map_input_resolved hprov]
    simp [Function.comp_def]
  rw [(persistCreateAction_template hpersist).1, hinputs]
  refine List.nodup_append'.mpr ⟨hdistinct, hnodup, ?_⟩
  exact fun op hop hop' => hapart op hop' hop

/-- The two coins of `plainDb`, each recorded as an output of the user. -/
def recordedSession : Session Db :=
  ⟨{ plainDb with metadata := { plainDb.metadata with
      outputs := ⟨[⟨1, 1, 1, 0, 600, none, some "change", none, true, .storage⟩,
        ⟨2, 1, 1, 1, 50000, none, some "change", none, true, .storage⟩], by decide⟩
      nextOutputID := 3 } }, 0, [], []⟩

theorem createAction_conserves_value_recorded :
    ∃ r s' fundRes, createAction (plainProvider .b) plainEnv 1 plainArgs recordedSession
      = (.ok r, s')
      ∧ FundsWith (plainProvider .b) plainEnv 1 plainArgs recordedSession fundRes
      ∧ (fundRes.changeOutputsCount ≠ 0 → r.surplus = fundRes.fee) := by
  have hrun : ∃ r s', createAction (plainProvider .b) plainEnv 1 plainArgs recordedSession
      = (.ok r, s')
      ∧ true = true := Uow.exists_of_check (q := fun _ _ => true) (by decide +kernel)
  have hcalls : (beforeFunding (plainProvider .b) plainEnv 1 plainArgs
      recordedSession).1.toOption.all (fun x =>
      ((fundProg (plainProvider .b) x.2).calls (call false)
        (beforeFunding (plainProvider .b) plainEnv 1 plainArgs recordedSession).2).all fun cs =>
          !cs.1.isRelease) = true := by
    decide +kernel
  have hrows : ∀ c ∈ recordedSession.db.utxo.rows.rows, c.userID = 1 →
      (recordedSession.db.metadata.outputOf 1 c.outpoint).isSome = true := by decide +kernel
  have hretry : ¬ Retries (plainProvider .b) plainEnv 1 plainArgs recordedSession := by
    rintro ⟨provided, fa, s₁, hbefore, cs, hcs, hrel⟩
    rw [hbefore] at hcalls
    have hno := List.all_eq_true.mp hcalls cs hcs
    rw [hrel] at hno
    cases hno
  obtain ⟨r, s', h, -⟩ := hrun
  obtain ⟨fundRes, hfunds, hchange, -⟩ := createAction_conserves_value h (by decide) hrows hretry
  exact ⟨r, s', fundRes, h, hfunds, hchange⟩

end Storage

end ArcadeToolbox
