import ArcadeToolbox.Lib.StableSort
import ArcadeToolbox.Utxostore.Memstore
import Mathlib.Data.Set.Insert

/-!
# What a token holds

A claim takes coins nobody holds, a release gives back coins of one token. So the coins held under
a token change by exactly what is claimed and released under it. The two things that could upset
this are ruled out by `Grip`: every coin of the token belongs to the one user, unspent and not
pinned, and a free coin is not pinned.
-/

namespace ArcadeToolbox

open Txn

namespace Inventory

variable {s : Inventory} {R : Token} {u : UserID} {ops : List Outpoint} {now : Time} {sc : Scope}

theorem mem_modify {p : Row → Bool} {f : Row → Row} {hf : ∀ r, (f r).outpoint = r.outpoint}
    {x : Row} :
    x ∈ (s.modify p f hf).rows ↔ ∃ r ∈ s.rows, x = if p r then f r else r := by
  exact @Table.mem_update _ _ _ s.rows p f hf x

/-- The coins held under a token. -/
def held (R : Token) (s : Inventory) : Set Outpoint :=
  {op | ∃ r ∈ s.rows, r.outpoint = op ∧ r.reservedBy = R}

/-- What the reservation holds is the user's, unspent and unpinned. -/
structure Grip (u : UserID) (R : Token) (s : Inventory) : Prop where
  owned : ∀ r ∈ s.rows, r.reservedBy = R → r.userID = u ∧ r.spentBy = none ∧ r.pinned = false
  loose : ∀ r ∈ s.rows, r.reservedBy = "" → r.pinned = false

/-- Coins nobody holds, of one user, unspent. -/
def Free (u : UserID) (s : Inventory) (ops : List Outpoint) : Prop :=
  ∀ op ∈ ops, ∃ r ∈ s.rows, r.outpoint = op ∧ r.reservedBy = "" ∧ r.userID = u ∧ r.spentBy = none

theorem held_reserve (h : Free u s ops) :
    held R (s.reserve now R ops) = held R s ∪ {op | op ∈ ops} := by
  ext op
  constructor
  · rintro ⟨x, hx, rfl, hb⟩
    obtain ⟨r, hr, rfl⟩ := mem_modify.mp hx
    by_cases hm : r.outpoint ∈ ops
    · simp [hm]
    · simp only [hm, decide_false, Bool.false_eq_true, if_false] at hb ⊢
      exact Or.inl ⟨r, hr, rfl, hb⟩
  · rintro (⟨r, hr, rfl, hb⟩ | hop)
    · refine ⟨_, mem_modify.mpr ⟨r, hr, rfl⟩, ?_, ?_⟩ <;> split <;> simp [hb]
    · obtain ⟨r, hr, rfl, -⟩ := h op hop
      refine ⟨_, mem_modify.mpr ⟨r, hr, rfl⟩, ?_, ?_⟩ <;> simp_all

theorem Grip.reserve (hg : Grip u R s) (hR : R ≠ "") (h : Free u s ops) :
    Grip u R (s.reserve now R ops) := by
  constructor
  · intro x hx hb
    obtain ⟨r, hr, rfl⟩ := mem_modify.mp hx
    by_cases hm : r.outpoint ∈ ops
    · obtain ⟨r', hr', hk, hf, hu, hs⟩ := h _ hm
      rw [Table.eq_of_key hr' hr hk] at hf hu hs
      simp [hm, hu, hs, hg.loose r hr hf]
    · simp only [hm, decide_false, Bool.false_eq_true, if_false] at hb ⊢
      exact hg.owned r hr hb
  · intro x hx hb
    obtain ⟨r, hr, rfl⟩ := mem_modify.mp hx
    by_cases hm : r.outpoint ∈ ops
    · simp only [hm, decide_true, if_true] at hb
      exact absurd hb hR
    · simp only [hm, decide_false, Bool.false_eq_true, if_false] at hb ⊢
      exact hg.loose r hr hb

theorem reserve_nil : s.reserve now R [] = s := by simp [reserve, modify, Table.update]

theorem claimable_iff {r : Row} : claimable r sc = true ↔
    r.userID = sc.userID ∧ r.basket = sc.basket ∧ r.tier = sc.tier ∧ r.reservedBy = ""
      ∧ r.spentBy = none ∧ r.frozen = false := by
  simp [claimable, and_assoc]

theorem free_of_claimable (rs : List Row) (h : ∀ r ∈ rs, r ∈ s.rows ∧ claimable r sc = true) :
    Free sc.userID s (rs.map (·.outpoint)) := by
  intro op hop
  obtain ⟨r, hr, rfl⟩ := List.mem_map.mp hop
  obtain ⟨hm, hc⟩ := h r hr
  obtain ⟨hu, -, -, hb, hs, -⟩ := claimable_iff.mp hc
  exact ⟨r, hm, rfl, hb, hu, hs⟩

/-- The order of the claims for a coin that suffices: smallest first, and of equal coins the
oldest. -/
abbrev Cheaper (a b : Row) : Prop := a.satoshis < b.satoshis
    ∨ (a.satoshis = b.satoshis ∧ a.seq ≤ b.seq)

/-- The order of the claims for coins that do not: largest first, and of equal coins the newest. -/
abbrev Dearer (a b : Row) : Prop := a.satoshis > b.satoshis
    ∨ (a.satoshis = b.satoshis ∧ a.seq ≥ b.seq)

instance : IsTrans Row Cheaper := ⟨fun _ _ _ h h' => by omega⟩

instance : Std.Total Cheaper := ⟨fun _ _ => by omega⟩

instance : IsTrans Row Dearer := ⟨fun _ _ _ h h' => by omega⟩

instance : Std.Total Dearer := ⟨fun _ _ => by omega⟩

theorem smallest_eq (rs : List Row) : smallest rs = least? Cheaper rs := by
  have hsmaller : ∀ a b : Row, smaller a b = true ↔ ¬ Cheaper b a := by
    intro a b
    simp only [smaller, Bool.or_eq_true, Bool.and_eq_true, decide_eq_true_iff]
    omega
  cases rs with
  | nil => rfl
  | cons r rs => exact foldl_eq_least? Cheaper hsmaller rs r

theorem smallest_mem {l : List Row} {r : Row} (h : smallest l = some r) : r ∈ l :=
  least?_mem Cheaper (smallest_eq l ▸ h)

/-- A claim took these coins: free ones, each once. -/
structure Claimed (u : UserID) (R : Token) (s : Inventory) (us : List Utxo)
    (s' : Inventory) : Prop where
  token : R ≠ ""
  free : Free u s (us.map (·.outpoint))
  nodup : (us.map (·.outpoint)).Nodup
  state : ∃ now, s' = s.reserve now R (us.map (·.outpoint))

theorem validateClaim_eq_none (h : validateClaim sc R = none) : R ≠ "" := by
  rintro rfl
  simp [validateClaim, validateReservation] at h

theorem validateClaim_eq_some {e : UtxoErr} (h : validateClaim sc R = some e) :
    ∃ t, e = .invalid t := by
  unfold validateClaim validateReservation validateScope at h
  split_ifs at h <;> simp at h <;> exact ⟨_, h.symm⟩

theorem claimSmallestSufficient_cases (s : Inventory) (now : Time) (sc : Scope) (R : Token)
    (minSats : ℕ) :
    (∃ e, s.claimSmallestSufficient now sc R minSats = (.error (.invalid e), s))
    ∨ s.claimSmallestSufficient now sc R minSats = (.ok none, s)
    ∨ ∃ x s', s.claimSmallestSufficient now sc R minSats = (.ok (some x), s')
        ∧ Claimed sc.userID R s [x] s' := by
  unfold claimSmallestSufficient
  rcases hv : validateClaim sc R with _ | e
  · rcases hb : smallest (s.rows.select fun r => claimable r sc && !(r.satoshis < minSats))
      with _ | best
    · exact Or.inr (Or.inl rfl)
    · obtain ⟨hm, hc⟩ := Table.mem_select.mp (smallest_mem hb)
      rw [Bool.and_eq_true] at hc
      exact Or.inr (Or.inr ⟨reserved now R best, _, rfl, validateClaim_eq_none hv,
        free_of_claimable [best] (by simp [hm, hc.1]), by simp, now, rfl⟩)
  · obtain ⟨t, rfl⟩ := validateClaim_eq_some hv
    exact Or.inl ⟨t, rfl⟩

/-- The first of some claimable candidates, in any order. -/
theorem claimFirst_claimed {p : Row → Bool} {le : Row → Row → Prop} [DecidableRel le] (hR : R ≠ "")
    (hp : ∀ r, p r = true → claimable r sc = true) (limit : ℤ) :
    Claimed sc.userID R s (s.claimFirst now R limit ((s.rows.select p).insertionSort le)).1
      (s.claimFirst now R limit ((s.rows.select p).insertionSort le)).2 := by
  have hmap : ((s.claimFirst now R limit ((s.rows.select p).insertionSort le)).1).map (·.outpoint)
      = (((s.rows.select p).insertionSort le).take limit.toNat).map (·.outpoint) := by
    rw [claimFirst, List.map_map]
    rfl
  refine ⟨hR, ?_, ?_, now, ?_⟩
  · rw [hmap]
    refine free_of_claimable _ fun r hr => ?_
    have hr := Table.mem_select.mp ((List.mem_insertionSort le).mp (List.mem_of_mem_take hr))
    exact ⟨hr.1, hp r hr.2⟩
  · rw [hmap]
    have hsel : ((s.rows.select p).map (·.outpoint)).Nodup :=
      s.rows.nodup.sublist (List.filter_sublist.map _)
    have hsort : (((s.rows.select p).insertionSort le).map (·.outpoint)).Nodup :=
      ((List.perm_insertionSort le _).map _).nodup_iff.mpr hsel
    exact hsort.sublist ((List.take_sublist _ _).map _)
  · rw [hmap]
    rfl

theorem claimLargestInsufficient_cases (s : Inventory) (now : Time) (sc : Scope) (R : Token)
    (capSats : ℕ) (limit : ℤ) :
    (∃ e, s.claimLargestInsufficient now sc R capSats limit = (.error (.invalid e), s))
    ∨ ∃ us s', s.claimLargestInsufficient now sc R capSats limit = (.ok us, s')
        ∧ Claimed sc.userID R s us s' := by
  unfold claimLargestInsufficient
  rcases hv : validateClaim sc R with _ | e
  · have hR := validateClaim_eq_none hv
    refine Or.inr ?_
    by_cases hl : limit ≤ 0
    · refine ⟨[], s, by simp [hl], hR, ?_, by simp, now, ?_⟩
      · intro op hop
        cases hop
      · exact reserve_nil.symm
    · simp only [hl, if_false]
      exact ⟨_, _, rfl, claimFirst_claimed hR (fun r hr => (Bool.and_eq_true_iff.mp hr).1) limit⟩
  · obtain ⟨t, rfl⟩ := validateClaim_eq_some hv
    exact Or.inl ⟨t, rfl⟩

theorem claimExact_cases (s : Inventory) (now : Time) (sc : Scope) (R : Token) (denomination : ℕ)
    (count : ℤ) :
    (∃ e, s.claimExact now sc R denomination count = (.error (.invalid e), s))
    ∨ ∃ us s', s.claimExact now sc R denomination count = (.ok us, s')
        ∧ Claimed sc.userID R s us s' := by
  unfold claimExact
  rcases hv : validateClaim sc R with _ | e
  · have hR := validateClaim_eq_none hv
    refine Or.inr ?_
    by_cases hl : count ≤ 0
    · refine ⟨[], s, by simp [hl], hR, ?_, by simp, now, ?_⟩
      · intro op hop
        cases hop
      · exact reserve_nil.symm
    · simp only [hl, if_false]
      exact ⟨_, _, rfl, claimFirst_claimed hR (fun r hr => (Bool.and_eq_true_iff.mp hr).1) count⟩
  · obtain ⟨t, rfl⟩ := validateClaim_eq_some hv
    exact Or.inl ⟨t, rfl⟩

theorem Claimed.grip {us : List Utxo} {s' : Inventory} (h : Claimed u R s us s') (hg : Grip u R s) :
    Grip u R s' := by
  obtain ⟨now, rfl⟩ := h.state
  exact hg.reserve h.token h.free

/-- A release gives back coins that are not pinned. -/
theorem Grip.modify {p : Row → Bool} {f : Row → Row} {hf : ∀ r, (f r).outpoint = r.outpoint}
    (hg : Grip u R s) (hR : R ≠ "") (hfree : ∀ r, (f r).reservedBy = "")
    (hpin : ∀ r, p r = true → (f r).pinned = false) :
    Grip u R (s.modify p f hf) := by
  constructor
  · intro x hx hb
    obtain ⟨r, hr, rfl⟩ := mem_modify.mp hx
    cases hp : p r
    · rw [hp] at hb
      exact hg.owned r hr hb
    · rw [hp] at hb
      exact absurd (hb.symm.trans (hfree r)) hR
  · intro x hx hb
    obtain ⟨r, hr, rfl⟩ := mem_modify.mp hx
    cases hp : p r
    · rw [hp] at hb
      exact hg.loose r hr hb
    · exact hpin r hp

theorem Grip.releaseOutpoints (hg : Grip u R s) (hR : R ≠ "") (ops : List Outpoint) :
    Grip u R (s.releaseOutpoints R ops).2 := by
  unfold Inventory.releaseOutpoints
  split
  · exact hg
  · exact hg.modify hR (fun _ => rfl) fun _ _ => rfl

theorem Grip.releaseReservation (hg : Grip u R s) (hR : R ≠ "") :
    Grip u R (s.releaseReservation u R).2 := by
  unfold Inventory.releaseReservation
  split
  · exact hg
  · exact hg.modify hR (fun _ => rfl) fun r hp => by simpa using (Bool.and_eq_true_iff.mp hp).2

/-- From a token that holds nothing, `ReserveOutpoints` holds exactly the coins it names. -/
theorem reserveOutpoints_held (hfresh : ∀ r ∈ s.rows, r.reservedBy ≠ R)
    (hl : ∀ r ∈ s.rows, r.reservedBy = "" → r.pinned = false)
    (hok : (s.reserveOutpoints now u R ops).1 = []) :
    held R (s.reserveOutpoints now u R ops).2 = {op | op ∈ ops}
      ∧ Grip u R (s.reserveOutpoints now u R ops).2 := by
  unfold reserveOutpoints at hok ⊢
  rcases hv : validateReserveOutpoints R ops with _ | e <;> simp only [hv] at hok ⊢
  · have hR : R ≠ "" := by
      rintro rfl
      simp [validateReserveOutpoints, validateReservation] at hv
    rcases hn : ops.eraseDups.filterMap (s.reserveRefusal u R) with _ | ⟨e, es⟩ <;>
      simp only [hn] at hok ⊢
    · have hfree : Free u s ops := by
        intro op hop
        have hr : s.reserveRefusal u R op = none :=
          List.filterMap_eq_nil_iff.mp hn op (List.mem_eraseDups.mpr hop)
        unfold reserveRefusal at hr
        rcases hg : s.get op with _ | r <;> simp only [hg] at hr
        · cases hr
        · obtain ⟨hmem, hk⟩ := Table.get?_eq_some.mp hg
          refine ⟨r, hmem, hk, ?_⟩
          have := hfresh r hmem
          rcases hsp : r.spentBy with _ | w <;> simp only [hsp] at hr
          · split_ifs at hr
            exact ⟨by tauto, by tauto, rfl⟩
          · split_ifs at hr
      have hsame : s.modify (fun r => r.outpoint ∈ ops && r.reservedBy ≠ R)
          (fun r => { r with reservedBy := R, reservedAt := now }) (fun _ => rfl)
            = s.reserve now R ops := by
        unfold reserve modify
        congr 1
        unfold Table.update
        congr 1
        refine List.map_congr_left fun r hr => ?_
        have := hfresh r hr
        simp [this]
      rw [hsame]
      refine ⟨?_, Grip.reserve ⟨fun r hr hb => absurd hb (hfresh r hr), hl⟩ hR hfree⟩
      rw [held_reserve hfree]
      have : held R s = ∅ := by
        ext op
        simp only [held, Set.mem_ofPred_eq, Set.mem_empty_iff_false, iff_false]
        rintro ⟨r, hr, -, hb⟩
        exact hfresh r hr hb
      rw [this, Set.empty_union]
    · cases hok
  · cases hok

end Inventory

end ArcadeToolbox
