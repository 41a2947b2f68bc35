import ArcadeToolbox.Utxostore.Invariants
import Mathlib.Algebra.BigOperators.Group.List.Basic

/-!
# Balances

Every coin of a user's basket is claimable in its tier, reserved, frozen or spent. A balance is what
the first two classes are worth. Claims and releases move coins from class to class and change
nothing else.
-/

namespace ArcadeToolbox

open Txn

/-- What a user has in a basket, by class. -/
structure Balance where
  claimable : Tier → ℕ
  reserved : ℕ
  claimableCount : Tier → ℕ
  reservedCount : ℕ

/-- One row of the loop. -/
def Balance.add (userID : UserID) (basket : String) (b : Balance) (u : Row) : Balance :=
  if u.userID ≠ userID ∨ u.basket ≠ basket ∨ u.spentBy ≠ none then b
  else if u.reservedBy ≠ "" then { b with reserved := b.reserved + u.satoshis,
                                          reservedCount := b.reservedCount + 1 }
  else if !u.frozen then
    { b with claimable := fun t => if t = u.tier then b.claimable t + u.satoshis else b.claimable t
             claimableCount := fun t => if t = u.tier then b.claimableCount t + 1
                 else b.claimableCount t }
  else b

def Inventory.balance (userID : UserID) (basket : String) (s : Inventory) : Balance :=
  s.rows.rows.foldl (Balance.add userID basket) ⟨fun _ => 0, 0, fun _ => 0, 0⟩

/-- What is added up. -/
inductive Measure where
  | satoshis
  | count

def Measure.weigh : Measure → Row → ℕ
  | .satoshis, r => r.satoshis
  | .count, _ => 1

def Balance.claimableBy (b : Balance) : Measure → Tier → ℕ
  | .satoshis => b.claimable
  | .count => b.claimableCount

def Balance.reservedBy (b : Balance) : Measure → ℕ
  | .satoshis => b.reserved
  | .count => b.reservedCount

/-- Where a coin stands in the balance. -/
inductive CoinClass where
  | claimable (tier : Tier)
  | reserved
  | frozen
  | spent
  deriving DecidableEq

/-- The class a row counts for. -/
def Row.coinClass (r : Row) : CoinClass :=
  if r.spentBy ≠ none then .spent else if r.reservedBy ≠ "" then .reserved
  else if r.frozen then .frozen else .claimable r.tier

/-- What the rows that meet a condition are worth together. -/
def worth (m : Measure) (p : Row → Bool) (rows : List Row) : ℕ :=
  (rows.map fun r => if p r then m.weigh r else 0).sum

def Row.inBasket (userID : UserID) (basket : String) (r : Row) : Bool :=
  r.userID = userID && r.basket = basket

/-- What the coins of a class are worth. -/
def Inventory.value (m : Measure) (userID : UserID) (basket : String) (c : CoinClass)
    (s : Inventory) : ℕ :=
  worth m (fun r => r.inBasket userID basket && r.coinClass = c) s.rows.rows

variable {m : Measure} {u : UserID} {b : String} {s : Inventory} {now : Time}
  {R : Token} {sc : Scope}

theorem add_eq (bal : Balance) (r : Row) :
    (∀ t, (bal.add u b r).claimableBy m t = bal.claimableBy m t
        + if r.inBasket u b && r.coinClass = .claimable t then m.weigh r else 0) ∧
      (bal.add u b r).reservedBy m = bal.reservedBy m
        + if r.inBasket u b && r.coinClass = .reserved then m.weigh r else 0 := by
  unfold Balance.add Row.coinClass
  by_cases hmine : r.inBasket u b = true
  · obtain ⟨hu, hb⟩ : r.userID = u ∧ r.basket = b := by simpa [Row.inBasket] using hmine
    by_cases hspent : r.spentBy = none
    · by_cases hres : r.reservedBy = ""
      · by_cases hfrozen : r.frozen = true
        · simp [hspent, hres, hfrozen]
        · cases m <;>
            simp [hu, hb, hmine, hspent, hres, hfrozen, Balance.claimableBy, Balance.reservedBy,
                Measure.weigh, eq_comm] <;>
            exact fun t => by split_ifs <;> rfl
      · cases m <;> simp [hu, hb, hmine, hspent, hres, Balance.claimableBy, Balance.reservedBy,
          Measure.weigh]
    · simp [hspent]
  · have hskip : r.userID ≠ u ∨ r.basket ≠ b ∨ r.spentBy ≠ none := by
      by_contra hno
      exact hmine (by simpa [Row.inBasket] using ⟨not_not.mp fun h => hno (.inl h),
          not_not.mp fun h => hno (.inr (.inl h))⟩)
    simp [hskip, hmine]

theorem foldl_add (rows : List Row) (bal : Balance) :
    (∀ t, (rows.foldl (Balance.add u b) bal).claimableBy m t
      = bal.claimableBy m t + worth m
        (fun r => r.inBasket u b && r.coinClass = .claimable t) rows) ∧
    (rows.foldl (Balance.add u b) bal).reservedBy m
      = bal.reservedBy m + worth m (fun r => r.inBasket u b && r.coinClass = .reserved) rows := by
  induction rows generalizing bal with
  | nil => exact ⟨fun _ => rfl, rfl⟩
  | cons r rows ih =>
    simp only [List.foldl_cons, ih, add_eq, worth, List.map_cons, List.sum_cons, Nat.add_assoc,
        implies_true, and_self]

theorem balance_eq_value : (∀ t, (s.balance u b).claimableBy m t = s.value m u b (.claimable t)) ∧
    (s.balance u b).reservedBy m = s.value m u b .reserved := by
  have h := @foldl_add m u b s.rows.rows ⟨fun _ => 0, 0, fun _ => 0, 0⟩
  cases m <;> simpa [Balance.claimableBy, Balance.reservedBy, Inventory.balance,
      Inventory.value] using h

theorem worth_cons (p : Row → Bool) (r : Row) (rows : List Row) :
    worth m p (r :: rows) = (if p r then m.weigh r else 0) + worth m p rows := List.sum_cons

theorem value_partition : s.value m u b (.claimable .sending) + s.value m u b (.claimable .unproven)
    + s.value m u b (.claimable .mined) + s.value m u b .reserved + s.value m u b .frozen
      + s.value m u b .spent
      = worth m (Row.inBasket u b) s.rows.rows := by
  unfold Inventory.value
  induction s.rows.rows with
  | nil => rfl
  | cons r rows ih =>
    obtain ⟨c, hc⟩ : ∃ c, r.coinClass = c := ⟨_, rfl⟩
    simp only [worth_cons, hc, ← ih]
    by_cases hmine : r.inBasket u b = true
    · rcases c with t | _ | _ | _
      · cases t <;> simp [hmine] <;> omega
      all_goals simp [hmine]; omega
    · simp [hmine]

theorem worth_eq_zero {p : Row → Bool} {rows : List Row} (h : ∀ r ∈ rows, p r = false) :
    worth m p rows = 0 :=
  List.sum_eq_zero fun x hx => by
    obtain ⟨r, hr, rfl⟩ := List.mem_map.mp hx
    simp [h r hr]

theorem worth_filter (p q : Row → Bool) (rows : List Row) :
    worth m q (rows.filter p) = worth m (fun r => p r && q r) rows := by
  induction rows with
  | nil => rfl
  | cons r rows ih => by_cases hp : p r = true <;> simp [worth_cons, hp, ih]

/-- Whose a coin is and what it is worth stay as they are. -/
def Keeps (f : Row → Row) : Prop :=
  ∀ r, (f r).userID = r.userID ∧ (f r).basket = r.basket ∧ (f r).satoshis = r.satoshis

theorem Keeps.worth {f : Row → Row} (hid : Keeps f) (m : Measure) (u : UserID) (b : String) :
    (∀ r, (f r).inBasket u b = r.inBasket u b) ∧ ∀ r, m.weigh (f r) = m.weigh r :=
  ⟨fun r => by simp [Row.inBasket, hid r], fun r => by cases m <;> simp [Measure.weigh, hid r]⟩

/-- Rows that change class take their worth with them. -/
theorem value_modify {p : Row → Bool} {f : Row → Row} {hf : ∀ r, (f r).outpoint = r.outpoint}
    (hid : Keeps f) (c : CoinClass) :
    (s.modify p f hf).value m u b c + worth m (fun r => r.inBasket u b && r.coinClass = c)
    (s.rows.select p)
      = s.value m u b c + worth m (fun r => r.inBasket u b && (f r).coinClass = c)
        (s.rows.select p) := by
  obtain ⟨hin, hw⟩ := hid.worth m u b
  have hrows : (s.modify p f hf).rows.rows = s.rows.rows.map fun r => if p r then f r else r := rfl
  simp only [Inventory.value, hrows, Table.select, worth_filter]
  induction s.rows.rows with
  | nil => rfl
  | cons r rows ih =>
    simp only [List.map_cons, worth_cons]
    by_cases hp : p r = true
    · simp only [hp, if_true, hin, hw, Bool.true_and]
      omega
    · simp only [hp, Bool.false_and]
      simp
      omega

/-! ## Claims and releases -/

/-- A way in which a coin changes its class: how a row is known that did, its class before and its
class after. -/
structure Shift where
  changed : Row → Row → Bool
  src : Row → CoinClass
  dst : Row → CoinClass

namespace Shift

/-- A claimable coin is held. -/
def hold : Shift :=
  ⟨fun r r' => r.reservedBy = "" && r'.reservedBy ≠ "", fun r => .claimable r.tier,
      fun _ => .reserved⟩

/-- A frozen coin that is set free is not claimable. -/
def free : Shift :=
  ⟨fun r r' => r.reservedBy ≠ "" && r'.reservedBy = "", fun _ => .reserved,
    fun r => if r.frozen then .frozen else .claimable r.tier⟩

/-- The coins that the operation moves. -/
def coins (k : Shift) (s s' : Inventory) : List Row := s.rows.select fun r =>
    (s'.get r.outpoint).any (k.changed r)

/-- The coins that are `taken` go from class to class, and nothing else has changed: not what a user
has in a basket, and nothing in a basket without such coins. -/
structure Moves (k : Shift) (s s' : Inventory) (taken : Row → Prop) : Prop where
  classes : ∀ m u b c,
    s'.value m u b c + worth m (fun r => r.inBasket u b && k.src r = c) (k.coins s s')
      = s.value m u b c + worth m (fun r => r.inBasket u b && k.dst r = c) (k.coins s s')
  total : ∀ m u b, worth m (Row.inBasket u b) s'.rows.rows = worth m (Row.inBasket u b) s.rows.rows
  coins : ∀ r ∈ s.rows, r ∈ k.coins s s' ↔ taken r
  others : ∀ m u b, (∀ r ∈ s.rows, taken r → r.inBasket u b = false) →
    ∀ c, s'.value m u b c = s.value m u b c

/-- A claim takes the coins that it answers with, and these are in the scope. -/
def Claims (s : Inventory) (sc : Scope) (x : Except UtxoErr (List Utxo) × Inventory) : Prop :=
  hold.Moves s x.2 (fun r => r.outpoint ∈ (x.1.toOption.getD []).map (·.outpoint))
    ∧ ∀ r ∈ hold.coins s x.2, r.userID = sc.userID ∧ r.basket = sc.basket

variable {k : Shift} {taken : Row → Prop}

theorem moves_modify {p : Row → Bool} {f : Row → Row} {hf : ∀ r, (f r).outpoint = r.outpoint}
    (hid : Keeps f) (hk : ∀ r, k.changed r r = false) (htaken : ∀ r ∈ s.rows, p r = true ↔ taken r)
    (h : ∀ r ∈ s.rows, taken r →
      k.changed r (f r) = true ∧ r.coinClass = k.src r ∧ (f r).coinClass = k.dst r) :
    k.Moves s (s.modify p f hf) taken := by
  replace h := fun r hr hp => h r hr ((htaken r hr).mp hp)
  have hcoins : k.coins s (s.modify p f hf) = s.rows.select p := List.filter_congr fun r hr => by
    rw [Inventory.get_modify, Inventory.get_eq_some.mpr ⟨hr, rfl⟩]
    by_cases hp : p r = true
    · simp [hp, (h r hr hp).1]
    · simp [hp, hk]
  have hclasses : ∀ m u b c, (s.modify p f hf).value m u b c
        + worth m (fun r => r.inBasket u b && k.src r = c) (s.rows.select p)
      = s.value m u b c + worth m (fun r => r.inBasket u b && k.dst r = c) (s.rows.select p) := by
    intro m u b c
    have hcongr : ∀ g g' : Row → CoinClass, (∀ r ∈ s.rows, p r = true → g r = g' r) →
        worth m (fun r => r.inBasket u b && g r = c) (s.rows.select p)
          = worth m (fun r => r.inBasket u b && g' r = c) (s.rows.select p) := fun g g' hg => by
      refine congrArg List.sum (List.map_congr_left fun r hr => ?_)
      simp only [hg r (Table.mem_select.mp hr).1 (Table.mem_select.mp hr).2]
    rw [← hcongr _ _ (fun r hr hp => (h r hr hp).2.1),
      ← hcongr _ _ fun r hr hp => (h r hr hp).2.2]
    exact value_modify hid c
  refine ⟨hcoins ▸ hclasses, fun m u b => ?_, fun r hr => ?_, fun m u b hnone c => ?_⟩
  · have hrows : (s.modify p f hf).rows.rows = s.rows.rows.map fun r => if p r then f r
      else r := rfl
    obtain ⟨hin, hw⟩ := hid.worth m u b
    rw [hrows, worth, List.map_map]
    refine congrArg List.sum (List.map_congr_left fun r _ => ?_)
    by_cases hp : p r = true <;> simp [hp, hin, hw]
  · rw [hcoins, Table.mem_select, ← htaken r hr]
    exact and_iff_right hr
  · have hzero : ∀ g : Row → CoinClass,
        worth m (fun r => r.inBasket u b && g r = c) (s.rows.select p) = 0 := fun g =>
      worth_eq_zero fun r hr => by
        obtain ⟨hmem, hp⟩ := Table.mem_select.mp hr
        simp [hnone r hmem ((htaken r hmem).mp hp)]
    simpa only [hzero, Nat.add_zero] using hclasses m u b c

theorem moves_refl (hk : ∀ r, k.changed r r = false) (htaken : ∀ r, ¬ taken r) (s : Inventory) :
    k.Moves s s taken := by
  have h := @moves_modify s k taken (fun _ => false) id (fun _ => rfl) (fun _ => ⟨rfl, rfl, rfl⟩)
    hk (fun r _ => iff_of_false nofun (htaken r)) fun r _ ht => absurd ht (htaken r)
  rwa [Inventory.modify, Table.update_of_forall_not fun _ _ => rfl] at h

theorem not_changed_hold (r : Row) : hold.changed r r = false := by
  by_cases h : r.reservedBy = "" <;> simp [hold, h]

theorem not_changed_free (r : Row) : free.changed r r = false := by
  by_cases h : r.reservedBy = "" <;> simp [free, h]

theorem moves_hold {p : Row → Bool} (hR : R ≠ "") (htaken : ∀ r ∈ s.rows, p r = true ↔ taken r)
    (h : ∀ r ∈ s.rows, taken r → r.claimable = true) :
    hold.Moves s (s.modify p (fun r => { r with reservedBy := R, reservedAt := now }) fun _ => rfl)
      taken := by
  refine moves_modify (fun r => ⟨rfl, rfl, rfl⟩) not_changed_hold htaken fun r hr ht => ?_
  have hclaim := h r hr ht
  simp only [Row.claimable, Bool.and_eq_true, decide_eq_true_eq, Bool.not_eq_true'] at hclaim
  obtain ⟨⟨hfree, hspent⟩, hfrozen⟩ := hclaim
  simp [hold, Row.coinClass, hfree, hspent, hfrozen, hR]

theorem moves_free {p : Row → Bool} {f : Row → Row} {hf : ∀ r, (f r).outpoint = r.outpoint}
    (hid : Keeps f) (htaken : ∀ r ∈ s.rows, p r = true ↔ taken r)
    (hfree : ∀ r, (f r).reservedBy = "" ∧ (f r).spentBy = r.spentBy ∧ (f r).frozen = r.frozen
      ∧ (f r).tier = r.tier)
    (h : ∀ r ∈ s.rows, taken r → r.reservedBy ≠ "" ∧ r.spentBy = none) :
    free.Moves s (s.modify p f hf) taken := by
  refine moves_modify hid not_changed_free htaken fun r hr ht => ?_
  obtain ⟨hres, hspent⟩ := h r hr ht
  simp [free, Row.coinClass, hfree r, hres, hspent]

theorem claims_nothing {e : Except UtxoErr (List Utxo)} (h : e.toOption.getD [] = []) :
    Claims s sc (e, s) := by
  have hm : hold.Moves s s fun r => r.outpoint ∈ (e.toOption.getD []).map (·.outpoint) :=
    moves_refl not_changed_hold (fun r => by simp [h]) s
  exact ⟨hm, fun r hr => by simpa [h] using (hm.coins r (Table.mem_select.mp hr).1).mp hr⟩

theorem claims_reserve {picked : List Row} (hR : R ≠ "")
    (h : ∀ r ∈ picked, r ∈ s.rows ∧ Inventory.claimable r sc = true) :
    Claims s sc (.ok (picked.map (Inventory.reserved now R)),
      s.reserve now R (picked.map (·.outpoint))) := by
  have hpicked : ∀ r ∈ s.rows, r.outpoint ∈ (picked.map (Inventory.reserved now R)).map
      (·.outpoint) → Inventory.claimable r sc = true := by
    intro r hr hp
    obtain ⟨r', hr', hk⟩ : ∃ r' ∈ picked, r'.outpoint = r.outpoint := by
      simpa [Inventory.reserved] using hp
    obtain ⟨hmem, hc⟩ := h r' hr'
    rwa [Table.eq_of_key hmem hr hk] at hc
  have hm : hold.Moves s (s.reserve now R (picked.map (·.outpoint))) fun r =>
      r.outpoint ∈ (picked.map (Inventory.reserved now R)).map (·.outpoint) := by
    refine moves_hold hR (fun r _ => by simp [Inventory.reserved]) fun r hr hp => ?_
    obtain ⟨-, -, -, hfree, hspent, hfrozen⟩ := Inventory.claimable_iff.mp (hpicked r hr hp)
    simp [Row.claimable, hfree, hspent, hfrozen]
  refine ⟨hm, fun r hr => ?_⟩
  have hmem := (Table.mem_select.mp hr).1
  obtain ⟨hu, hb, -⟩ := Inventory.claimable_iff.mp (hpicked r hmem ((hm.coins r hmem).mp hr))
  exact ⟨hu, hb⟩

theorem claims_smallest (now : Time) (sc : Scope) (R : Token) (minSats : ℕ) (s : Inventory) :
    Claims s sc ((s.claimSmallestSufficient now sc R minSats).map (·.map Option.toList) id) := by
  unfold Inventory.claimSmallestSufficient
  rcases hv : validateClaim sc R with _ | e
  · rcases hb : Inventory.smallest (s.rows.select fun r =>
        Inventory.claimable r sc && !(r.satoshis < minSats)) with _ | best
    · exact claims_nothing rfl
    · obtain ⟨hm, hc⟩ := Table.mem_select.mp (Inventory.smallest_mem hb)
      exact @claims_reserve s now R sc [best] (Inventory.validateClaim_eq_none hv)
        (by simpa using ⟨hm, (Bool.and_eq_true_iff.mp hc).1⟩)
  · exact claims_nothing rfl

/-- The claims of up to so many coins differ in which coins they want and in which order. -/
theorem claims_sorted {p : Row → Bool} {le : Row → Row → Prop} [DecidableRel le]
    (hp : ∀ r, p r = true → Inventory.claimable r sc = true) (limit : ℤ) :
    Claims s sc (match validateClaim sc R with
      | some e => (.error e, s)
      | none => if limit ≤ 0 then (.ok [], s) else
        let (us, s') := s.claimFirst now R limit ((s.rows.select p).insertionSort le)
        (.ok us, s')) := by
  rcases hv : validateClaim sc R with _ | e
  · dsimp only
    split
    · exact claims_nothing rfl
    · refine claims_reserve (Inventory.validateClaim_eq_none hv) fun r hr => ?_
      obtain ⟨hmem, hpr⟩ := Table.mem_select.mp
        ((List.mem_insertionSort le).mp (List.mem_of_mem_take hr))
      exact ⟨hmem, hp r hpr⟩
  · exact claims_nothing rfl

theorem hold_reserveOutpoints (now : Time) (u : UserID) (R : Token) (ops : List Outpoint)
    (s : Inventory) :
    hold.Moves s (s.reserveOutpoints now u R ops).2 fun r =>
      (s.reserveOutpoints now u R ops).1 = [] ∧ r.userID = u ∧ r.outpoint ∈ ops
        ∧ r.reservedBy ≠ R := by
  unfold Inventory.reserveOutpoints
  rcases hv : validateReserveOutpoints R ops with _ | e
  · rcases hr : ops.eraseDups.filterMap (s.reserveRefusal u R) with _ | ⟨e, es⟩
    · have hR : R ≠ "" := by
        rintro rfl
        simp [validateReserveOutpoints, validateReservation] at hv
      have hfound : ∀ r ∈ s.rows, r.outpoint ∈ ops → r.userID = u ∧ r.spentBy = none
          ∧ (r.reservedBy = "" ∨ r.reservedBy = R) ∧ r.frozen = false := by
        intro r hmem hop
        obtain ⟨r', hg, hfound⟩ := Inventory.reserveRefusal_eq_none
          (List.filterMap_eq_nil_iff.mp hr r.outpoint (List.mem_eraseDups.mpr hop))
        obtain ⟨hr', hk⟩ := Inventory.get_eq_some.mp hg
        rwa [Table.eq_of_key hr' hmem hk] at hfound
      refine moves_hold hR (fun r hmem => ?_) fun r hmem ht => ?_
      · simpa using fun hop _ => (hfound r hmem hop).1
      · obtain ⟨-, -, hop, hne⟩ := ht
        obtain ⟨-, hs, hb, hf⟩ := hfound r hmem hop
        simp [Row.claimable, hb.resolve_right hne, hs, hf]
    · exact moves_refl not_changed_hold (fun r => by simp) s
  · exact moves_refl not_changed_hold (fun r => by simp) s

theorem free_releaseReservation (u : UserID) (R : Token) (s : Inventory) :
    free.Moves s (s.releaseReservation u R).2 fun r =>
      R ≠ "" ∧ Inventory.heldBy r u R = true ∧ r.pinned = false := by
  unfold Inventory.releaseReservation
  rcases hv : validateReservation R with _ | e
  · have hR := Inventory.validateReservation_eq_none.mp hv
    refine moves_free (fun _ => ⟨rfl, rfl, rfl⟩) (fun r _ => by simp [hR])
      (fun _ => ⟨rfl, rfl, rfl, rfl⟩) fun r _ ht => ?_
    obtain ⟨-, hres, hspent⟩ := Inventory.heldBy_iff.mp ht.2.1
    exact ⟨hres ▸ hR, hspent⟩
  · exact moves_refl not_changed_free (fun r ht =>
      absurd (Inventory.validateReservation_eq_none.mpr ht.1) (by simp [hv])) s

theorem free_releaseOutpoints (R : Token) (ops : List Outpoint) (s : Inventory) :
    free.Moves s (s.releaseOutpoints R ops).2 fun r =>
      R ≠ "" ∧ (r.outpoint ∈ ops ∧ r.reservedBy = R) ∧ r.spentBy = none := by
  unfold Inventory.releaseOutpoints
  rcases hv : validateReservation R with _ | e
  · have hR := Inventory.validateReservation_eq_none.mp hv
    exact moves_free (fun _ => ⟨rfl, rfl, rfl⟩) (fun r _ => by simp [hR])
      (fun _ => ⟨rfl, rfl, rfl, rfl⟩) fun r _ ht => ⟨ht.2.1.2 ▸ hR, ht.2.2⟩
  · exact moves_refl not_changed_free (fun r ht =>
      absurd (Inventory.validateReservation_eq_none.mpr ht.1) (by simp [hv])) s

end Shift

/-- In every state the classes make up all that the user has in the basket, and a call moves the
coins that it newly holds or frees, and nothing else. -/
theorem balance_conserved (s : Inventory) (now : Time) :
    (∀ m u b, (s.balance u b).claimableBy m .sending + (s.balance u b).claimableBy m .unproven
        + (s.balance u b).claimableBy m .mined + (s.balance u b).reservedBy m
        + s.value m u b .frozen + s.value m u b .spent = worth m (Row.inBasket u b) s.rows.rows ∧
      (∀ t, (s.balance u b).claimableBy m t = s.value m u b (.claimable t)) ∧
      (s.balance u b).reservedBy m = s.value m u b .reserved) ∧
    (∀ sc R minSats, Shift.Claims s sc
      ((s.claimSmallestSufficient now sc R minSats).map (·.map Option.toList) id)) ∧
    (∀ sc R capSats limit, Shift.Claims s sc
      (s.claimLargestInsufficient now sc R capSats limit)) ∧
    (∀ sc R denomination count, Shift.Claims s sc (s.claimExact now sc R denomination count)) ∧
    (∀ u R ops, Shift.hold.Moves s (s.reserveOutpoints now u R ops).2 fun r =>
      (s.reserveOutpoints now u R ops).1 = [] ∧ r.userID = u ∧ r.outpoint ∈ ops
        ∧ r.reservedBy ≠ R) ∧
    (∀ u R, Shift.free.Moves s (s.releaseReservation u R).2 fun r =>
      R ≠ "" ∧ Inventory.heldBy r u R = true ∧ r.pinned = false) ∧
    ∀ R ops, Shift.free.Moves s (s.releaseOutpoints R ops).2 fun r =>
      R ≠ "" ∧ (r.outpoint ∈ ops ∧ r.reservedBy = R) ∧ r.spentBy = none := by
  refine ⟨fun m u b => ?_, fun sc R minSats => Shift.claims_smallest now sc R minSats s,
    fun sc R capSats limit =>
      Shift.claims_sorted (fun r hr => (Bool.and_eq_true_iff.mp hr).1) limit,
    fun sc R denomination count =>
      Shift.claims_sorted (fun r hr => (Bool.and_eq_true_iff.mp hr).1) count,
    fun u R ops => Shift.hold_reserveOutpoints now u R ops s,
    fun u R => Shift.free_releaseReservation u R s,
    fun R ops => Shift.free_releaseOutpoints R ops s⟩
  obtain ⟨hclaimable, hreserved⟩ := @balance_eq_value m u b s
  exact ⟨by simp only [hclaimable, hreserved, value_partition], hclaimable, hreserved⟩

end ArcadeToolbox
