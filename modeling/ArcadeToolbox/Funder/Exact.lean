import ArcadeToolbox.Funder.Holdings
import ArcadeToolbox.Utxostore.Holds

/-!
# The funder on the reference store

The reference store serves one call after another, so a claim gets the coin it asks for whenever
there is one. It has no probe.

What the claims of one user and basket can get is the pool: the coins that are free, as they are
when nobody holds them. A claim takes coins out of the pool and a release puts them back where they
were.
-/

namespace ArcadeToolbox

open Txn

/-- The coin as it is when nobody holds it. -/
def Utxo.loose (u : Utxo) : Utxo := { u with reservedBy := "", reservedAt := 0, pinned := false }

def Row.loose (r : Row) : Row := { r with toUtxo := r.toUtxo.loose }

namespace Inventory

variable {s : Inventory} {u : UserID} {b : String} {R : Token} {now : Time}
  {ops taken rest : List Outpoint} {sc : Scope}

/-- A coin of the basket that a claim can get. -/
def free (u : UserID) (b : String) (r : Row) : Bool :=
  r.userID = u && r.basket = b && r.reservedBy = "" && r.spentBy = none && !r.frozen

theorem claimable_eq (r : Row) (sc : Scope) :
    claimable r sc = (free sc.userID sc.basket r && decide (r.tier = sc.tier)) := by
  rw [Bool.eq_iff_iff]
  simp only [claimable, free, Bool.and_eq_true]
  tauto

/-- What a row is for the pool. -/
def view (u : UserID) (b : String) (r : Row) : Option Row :=
  if free u b r then some r.loose else none

def pool (u : UserID) (b : String) (s : Inventory) : List Row := s.rows.rows.filterMap (view u b)

theorem pool_eq (s : Inventory) : pool u b s = (s.rows.select (free u b)).map Row.loose := by
  unfold pool Table.select
  induction s.rows.rows with
  | nil => rfl
  | cons r rs ih =>
    rw [List.filterMap_cons, List.filter_cons, view]
    cases free u b r <;> simp [ih]

/-- The rows a claim chooses from are rows of the pool. -/
theorem map_loose_select {q : Row → Bool} (hq : ∀ r, q r.loose = q r) :
    (s.rows.select fun r => claimable r sc && q r).map Row.loose
      = (pool sc.userID sc.basket s).filter fun r => decide (r.tier = sc.tier) && q r := by
  have htier : ∀ r : Row, r.loose.tier = r.tier := fun _ => rfl
  rw [pool_eq, List.filter_map]
  unfold Table.select
  rw [List.filter_filter]
  congr 1
  refine List.filter_congr fun r _ => ?_
  rw [claimable_eq, Function.comp_apply, hq, htier, Bool.and_assoc, Bool.and_comm]

theorem rows_modify {p : Row → Bool} {f : Row → Row} {hf : ∀ r, (f r).outpoint = r.outpoint} :
    (s.modify p f hf).rows.rows = s.rows.rows.map fun r => if p r then f r else r := rfl

theorem pool_modify {p : Row → Bool} {f : Row → Row} {hf : ∀ r, (f r).outpoint = r.outpoint} :
    pool u b (s.modify p f hf) = s.rows.rows.filterMap fun r => view u b
      (if p r then f r else r) := by
  unfold pool
  rw [rows_modify, List.filterMap_map]
  rfl

theorem filter_pool {q : Row → Bool} (hq : ∀ r, q r.loose = q r) :
    (pool u b s).filter q = s.rows.rows.filterMap fun r => if q r then view u b r else none := by
  unfold pool
  rw [List.filter_filterMap]
  refine List.filterMap_congr fun r _ => ?_
  unfold view
  cases hfree : free u b r <;> cases hr : q r <;> simp [Option.filter, hq, hr]

theorem view_held {r : Row} (h : r.reservedBy ≠ "") : view u b r = none := by simp [view, free, h]

theorem pool_reserve (hR : R ≠ "") :
    pool u b (s.reserve now R ops) = (pool u b s).filter fun r => r.outpoint ∉ ops := by
  unfold reserve
  rw [pool_modify, filter_pool (fun _ => rfl)]
  refine List.filterMap_congr fun r _ => ?_
  by_cases hop : r.outpoint ∈ ops
  · simp only [hop, decide_true, if_true, not_true_eq_false, decide_false,
      Bool.false_eq_true, if_false]
    exact view_held hR
  · simp [hop]

theorem outpoint_loose (r : Row) :
    { r with reservedBy := "", reservedAt := 0, pinned := false }.outpoint = r.outpoint := rfl

/-- The inventory with coins of the token given back. -/
def givenBack (R : Token) (ops : List Outpoint) (s : Inventory) : Inventory :=
  s.modify (fun r => r.outpoint ∈ ops && r.reservedBy = R && r.spentBy = none)
    (fun r => { r with reservedBy := "", reservedAt := 0, pinned := false }) outpoint_loose

theorem releaseOutpoints_eq (hR : R ≠ "") :
    s.releaseOutpoints R ops = (.ok (), s.givenBack R ops) := by
  simp [releaseOutpoints, validateReservation, hR, givenBack]

theorem pool_givenBack_nil : pool u b (s.givenBack R []) = pool u b s := by
  unfold givenBack
  rw [pool_modify]
  simp [pool]

variable (now taken) in
/-- Free coins that were claimed are back in the pool when they are given back. -/
theorem pool_givenBack_reserve (hR : R ≠ "")
    (hfree : ∀ r ∈ s.rows, r.outpoint ∈ ops → r.reservedBy = "" ∧ r.spentBy = none) :
    pool u b ((s.reserve now R ops).givenBack R (taken ++ ops)) = pool u b
      (s.givenBack R taken) := by
  unfold givenBack
  rw [pool_modify, pool_modify, reserve, rows_modify, List.filterMap_map]
  refine List.filterMap_congr fun r hr => ?_
  rw [Function.comp_apply]
  by_cases hop : r.outpoint ∈ ops
  · obtain ⟨hby, hsp⟩ := hfree r hr hop
    have hne : ("" : Token) ≠ R := fun h => hR h.symm
    simp [hop, hby, hsp, hne, view, free, Row.loose, Utxo.loose]
  · simp [hop]

theorem pool_givenBack (hR : R ≠ "") (hheld : ∀ r ∈ s.rows, r.outpoint ∈ taken → r.reservedBy = R)
    (hdisj : ∀ op ∈ taken, op ∉ rest) :
    pool u b (s.givenBack R rest) = (pool u b (s.givenBack R (taken ++ rest))).filter fun r =>
      r.outpoint ∉ taken := by
  rw [filter_pool (fun _ => rfl)]
  unfold givenBack
  rw [pool_modify, rows_modify, List.filterMap_map]
  refine List.filterMap_congr fun r hr => ?_
  rw [Function.comp_apply]
  by_cases hop : r.outpoint ∈ taken
  · have hby := hheld r hr hop
    have hnot := hdisj _ hop
    have hnone : view u b r = none := view_held (hby ▸ hR)
    simp only [hnot, decide_false, Bool.false_and, Bool.false_eq_true, if_false, hnone]
    split_ifs <;> simp_all
  · simp only [List.mem_append, hop, false_or]
    split_ifs <;> simp_all

/-- These rows are there and free, and no two are the same. -/
structure AllFree (u : UserID) (b : String) (s : Inventory) (rs : List Row) : Prop where
  mem : ∀ r ∈ rs, r ∈ s.rows
  free : ∀ r ∈ rs, free u b r = true
  nodup : (rs.map (·.outpoint)).Nodup

theorem allFree_of_subperm {q : Row → Bool} {rs : List Row}
    (h : rs.Subperm (s.rows.select fun r => claimable r sc && q r)) :
    AllFree sc.userID sc.basket s rs := by
  have hsel : ∀ r ∈ rs, r ∈ s.rows ∧ Inventory.free sc.userID sc.basket r = true := by
    intro r hr
    obtain ⟨hmem, hcl⟩ := Table.mem_select.mp (h.subset hr)
    rw [claimable_eq, Bool.and_eq_true, Bool.and_eq_true] at hcl
    exact ⟨hmem, hcl.1.1⟩
  refine ⟨fun r hr => (hsel r hr).1, fun r hr => (hsel r hr).2, ?_⟩
  have hnodup : ((s.rows.select fun r => claimable r sc && q r).map (·.outpoint)).Nodup :=
    s.rows.nodup.sublist (List.filter_sublist.map _)
  obtain ⟨l, hperm, hsub⟩ := h
  exact (hperm.map _).nodup_iff.mp (hnodup.sublist (hsub.map _))

theorem allFree_nil : AllFree u b s [] :=
  ⟨fun _ h => absurd h List.not_mem_nil, fun _ h => absurd h List.not_mem_nil, List.nodup_nil⟩

variable (now) in
/-- The smallest coin of the pool that suffices is claimed. -/
theorem claimSmallestSufficient_eq (hv : validateClaim sc R = none) (minSats : ℕ) :
    ∃ o : Option Row, AllFree sc.userID sc.basket s o.toList ∧
      o.map Row.loose = least? Cheaper ((pool sc.userID sc.basket s).filter fun r =>
        decide (r.tier = sc.tier) && !decide (r.satoshis < minSats)) ∧
      s.claimSmallestSufficient now sc R minSats
        = (.ok (o.map (reserved now R)), s.reserve now R (o.toList.map (·.outpoint))) := by
  refine ⟨smallest (s.rows.select fun r => claimable r sc && !decide (r.satoshis < minSats)),
      ?_, ?_, ?_⟩
  · rw [smallest_eq]
    cases ho : least? Cheaper (s.rows.select fun r =>
        claimable r sc && !decide (r.satoshis < minSats)) with
    | none => exact allFree_nil
    | some r => exact allFree_of_subperm (List.singleton_subperm_iff.mpr (least?_mem Cheaper ho))
  · rw [smallest_eq, ← map_loose_select (q := fun r => !decide (r.satoshis < minSats))
      (fun _ => rfl)]
    have hloose : ∀ a b : Row, Cheaper a.loose b.loose ↔ Cheaper a b := fun _ _ => Iff.rfl
    exact (least?_map Cheaper hloose _).symm
  · unfold claimSmallestSufficient
    rw [hv]
    cases smallest (s.rows.select fun r => claimable r sc && !decide (r.satoshis < minSats)) with
    | none => simp [reserve_nil]
    | some r => rfl

variable (now) in
theorem claimLargestInsufficient_eq (hv : validateClaim sc R = none) (capSats : ℕ) {k : ℕ}
    (hk : 1 ≤ k) :
    ∃ rs : List Row, AllFree sc.userID sc.basket s rs ∧
      rs.map Row.loose = (((pool sc.userID sc.basket s).filter fun r =>
        decide (r.tier = sc.tier) && decide (r.satoshis < capSats)).insertionSort Dearer).take k ∧
      s.claimLargestInsufficient now sc R capSats k
        = (.ok (rs.map (reserved now R)), s.reserve now R (rs.map (·.outpoint))) := by
  refine ⟨((s.rows.select fun r => claimable r sc && decide (r.satoshis < capSats)).insertionSort
      Dearer).take k,
    ?_, ?_, ?_⟩
  · exact allFree_of_subperm ((List.take_sublist k _).subperm.trans
      (List.perm_insertionSort Dearer _).subperm)
  · have hloose : ∀ a b : Row, Dearer a b ↔ Dearer a.loose b.loose := fun _ _ => Iff.rfl
    rw [← map_loose_select (q := fun r => decide (r.satoshis < capSats)) (fun _ => rfl),
        List.map_take,
      List.map_insertionSort Dearer Dearer Row.loose _ fun a _ b _ => hloose a b]
  · have hpos : ¬ ((k : ℤ) ≤ 0) := by omega
    unfold claimLargestInsufficient
    rw [hv]
    simp only [hpos, if_false, claimFirst, Int.toNat_natCast]

variable (now) in
theorem claimExact_eq (hv : validateClaim sc R = none) (denomination count : ℕ) :
    ∃ rs : List Row, AllFree sc.userID sc.basket s rs ∧
      s.claimExact now sc R denomination count
        = (.ok (rs.map (reserved now R)), s.reserve now R (rs.map (·.outpoint))) := by
  unfold claimExact
  rw [hv]
  simp only
  by_cases hzero : (count : ℤ) ≤ 0
  · refine ⟨[], allFree_nil, ?_⟩
    rw [if_pos hzero, List.map_nil, List.map_nil, reserve_nil]
  · rw [if_neg hzero]
    exact ⟨_, allFree_of_subperm ((List.take_sublist _ _).subperm.trans
        (List.perm_insertionSort _ _).subperm), rfl⟩

end Inventory

namespace Funder

/-- The answer of a call, and the time after it. -/
def tick {α : Type} (x : α × Inventory) (k : ℕ) : α × (Inventory × ℕ) := (x.1, x.2, k + 1)

/-- The funder's calls on the reference store. Each call is made at the next time of the clock. -/
def exact (clock : ℕ → Time) : (c : StoreCall) → Inventory × ℕ → c.Answer × (Inventory × ℕ)
  | .claimSmallestSufficient sc reservation minSats, (s, k) =>
    tick (s.claimSmallestSufficient (clock k) sc reservation minSats) k
  | .claimLargestInsufficient sc reservation capSats limit, (s, k) =>
    tick (s.claimLargestInsufficient (clock k) sc reservation capSats limit) k
  | .claimExact sc reservation denomination count, (s, k) =>
    tick (s.claimExact (clock k) sc reservation denomination count) k
  | .releaseReservation userID reservation, (s, k) =>
    tick (s.releaseReservation userID reservation) k
  | .releaseOutpoints reservation ops, (s, k) => tick (s.releaseOutpoints reservation ops) k
  | .claimableExists _ _, s => (none, s)

/-- A purse of coins of these values. -/
def purse (values : List ℕ) : Inventory :=
  (Inventory.mint 0 (values.zipIdx.map fun v => ⟨⟨"coin", v.2⟩, 1, "default", v.1, 107,
      .mined⟩) .empty).2

/-- A payment with one output, for which the wallet wants one coin of change. -/
def payment (currentTxSize : ℕ) : FundArgs where
  userID := 1
  basket := "default"
  reservation := "action"
  targetSat := 1000
  currentTxSize := currentTxSize
  outputCount := 1
  tiers := [.mined]
  numberOfDesiredUTXOs := 1
  minimumDesiredUTXOValue := 1000
  maxChangeOutputsPerTx := 1
  requireChange := false
  existingBasketCount := 0
  denomination := 0

/-- A coin of the purse as the payment's action holds it. -/
def coin (i value : ℕ) : Utxo where
  outpoint := ⟨"coin", i⟩
  userID := 1
  basket := "default"
  satoshis := value
  inputSize := 107
  tier := .mined
  reservedBy := "action"
  reservedAt := 0
  spentBy := none
  frozen := false
  pinned := false
  createdAt := 0

end Funder

end ArcadeToolbox
