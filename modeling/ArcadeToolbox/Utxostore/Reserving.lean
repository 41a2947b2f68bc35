import ArcadeToolbox.Utxostore.Invariants
import ArcadeToolbox.Utxostore.Users

/-!
# Reserving named coins: all or nothing

What the stores promise of `ReserveOutpoints` is stated here over the coins before and after the
call, however they are kept. Other clients can take a hold away during the call, or take a coin for
the same token; about such coins it promises nothing.
-/

namespace ArcadeToolbox

open Txn

/-- The coin is reserved for the token and not spent. Nothing is held for the empty token. -/
def Utxo.HeldFor (R : Token) (c : Utxo) : Prop := R ≠ "" ∧ c.reservedBy = R ∧ c.spentBy = none

instance (R : Token) (c : Utxo) : Decidable (c.HeldFor R) := inferInstanceAs (Decidable (_ ∧ _ ∧ _))

/-- What the call did with the coins that the others leave alone: `kept` are those on which they end
no hold, `fresh` those that they do not take for the token. -/
structure AllOrNothing (kept fresh : Outpoint → Prop) (u : UserID) (R : Token) (ops : List Outpoint)
    (before after : Outpoint → Option Utxo) (errs : List UtxoErr) : Prop where
  success : errs = [] → ∀ op ∈ ops, kept op → ∃ c, after op = some c ∧ c.userID = u ∧ c.HeldFor R
  survives : ∀ op, kept op → ∀ c₀, before op = some c₀ → c₀.HeldFor R →
    ∃ c, after op = some c ∧ c.HeldFor R ∧ c.reservedAt = c₀.reservedAt
  failure : errs ≠ [] → ∀ op, fresh op → ∀ c, after op = some c → c.HeldFor R → ∃ c₀,
      before op = some c₀ ∧ c₀.HeldFor R

/-- A call that is refused and changes nothing. -/
theorem allOrNothing_refused {kept fresh : Outpoint → Prop} {u : UserID} {R : Token}
    {ops : List Outpoint} {coins : Outpoint → Option Utxo} {errs : List UtxoErr} (h : errs ≠ []) :
    AllOrNothing kept fresh u R ops coins coins errs where
  success he := absurd he h
  survives _ _ c0 hc hR := ⟨c0, hc, hR, rfl⟩
  failure _ _ _ c hc hR := ⟨c, hc, hR⟩

theorem validateReserveOutpoints_eq_none {R : Token} {ops : List Outpoint}
    (h : validateReserveOutpoints R ops = none) :
    R ≠ "" := by
  rintro rfl
  simp [validateReserveOutpoints, validateReservation] at h

/-- The row as it is when the token has it: a row that it had before keeps its time. -/
def Row.stamped (now : Time) (R : Token) (r : Row) : Row :=
  if r.reservedBy = R then r else { r with reservedBy := R, reservedAt := now }

theorem Row.stamped_heldFor {now : Time} {R : Token} {r : Row} (hR : R ≠ "")
    (hs : r.spentBy = none) :
    (r.stamped now R).toUtxo.HeldFor R := by
  unfold stamped
  split_ifs with h
  · exact ⟨hR, h, hs⟩
  · exact ⟨hR, rfl, hs⟩

theorem Row.stamped_userID (now : Time) (R : Token) (r : Row) :
    (r.stamped now R).userID = r.userID := by
  unfold stamped
  split_ifs <;> rfl

theorem Row.stamped_of_held {now : Time} {R : Token} {r : Row} (h : r.toUtxo.HeldFor R) :
    r.stamped now R = r :=
  if_pos h.2.1

/-- The named rows are the user's and unspent, and they are stamped; the others are as they were. -/
theorem allOrNothing_stamped {kept fresh : Outpoint → Prop} {u : UserID} {R : Token}
    {ops : List Outpoint} {before after : Outpoint → Option Row} (now : Time) (hR : R ≠ "")
    (hnamed : ∀ op ∈ ops, ∃ r, before op = some r ∧ r.userID = u ∧ r.spentBy = none
      ∧ after op = some (r.stamped now R))
    (hothers : ∀ op, op ∉ ops → after op = before op) :
    AllOrNothing kept fresh u R ops (fun op => (before op).map (·.toUtxo))
      (fun op => (after op).map (·.toUtxo)) [] where
  success _ op hop _ := by
    obtain ⟨r, -, hu, hs, ha⟩ := hnamed op hop
    exact ⟨(r.stamped now R).toUtxo, by rw [ha]; rfl, (r.stamped_userID now R).trans hu,
        Row.stamped_heldFor hR hs⟩
  survives op _ c0 hc hheld := by
    obtain ⟨r, hr, rfl⟩ := Option.map_eq_some_iff.mp hc
    have hafter : after op = some r := by
      by_cases hop : op ∈ ops
      · obtain ⟨r', hr', -, -, ha⟩ := hnamed op hop
        obtain rfl := Option.some.inj (hr.symm.trans hr')
        rw [ha, Row.stamped_of_held hheld]
      · rw [hothers op hop, hr]
    exact ⟨r.toUtxo, by rw [hafter]; rfl, hheld, rfl⟩
  failure he := absurd rfl he

namespace Inventory

variable {s : Inventory} {u : UserID} {R : Token} {ops : List Outpoint}

theorem reserveOutpoints_allOrNothing (now : Time) (s : Inventory) (u : UserID) (R : Token)
    (ops : List Outpoint) :
    AllOrNothing (fun _ => True) (fun _ => True) u R ops (fun op => (s.get op).map (·.toUtxo))
      (fun op => ((s.reserveOutpoints now u R ops).2.get op).map (·.toUtxo))
      (s.reserveOutpoints now u R ops).1 := by
  unfold reserveOutpoints
  rcases hv : validateReserveOutpoints R ops with _ | e
  · rcases hn : ops.eraseDups.filterMap (s.reserveRefusal u R) with _ | ⟨e, es⟩
    · refine allOrNothing_stamped now (validateReserveOutpoints_eq_none hv) (fun op hop =>
        ?_) fun op hop => ?_
      · obtain ⟨r, hr, hu, hs, -, -⟩ :=
          reserveRefusal_eq_none (List.filterMap_eq_nil_iff.mp hn op (List.mem_eraseDups.mpr hop))
        refine ⟨r, hr, hu, hs, ?_⟩
        have hmem : r.outpoint ∈ ops := (get_eq_some.mp hr).2 ▸ hop
        rw [get_modify, hr, Option.map_some]
        unfold Row.stamped
        by_cases hb : r.reservedBy = R <;> simp [hmem, hb]
      · rw [get_modify]
        rcases hr : s.get op with _ | r
        · rfl
        · have hmem : r.outpoint ∉ ops := (get_eq_some.mp hr).2 ▸ hop
          simp [hmem]
    · exact allOrNothing_refused (List.cons_ne_nil e es)
  · exact allOrNothing_refused (List.cons_ne_nil e [])

end Inventory

end ArcadeToolbox
