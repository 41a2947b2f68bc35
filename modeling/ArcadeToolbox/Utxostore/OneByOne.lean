import ArcadeToolbox.Lib.Simulation
import ArcadeToolbox.Utxostore.Rows

/-!
# The reference store, row by row

The methods that take a list of outpoints are stated as one change of all the rows the list names.
Here they are the same as going through the list: the state in between shows in no answer, since a
row that was changed or removed is not changed or removed again.
-/

namespace ArcadeToolbox

open Txn

namespace Inventory

variable {s : Inventory} {op : Outpoint}

/-- A function on the rows, as one on the inventory. -/
theorem each_rows {β : Type} (g : Outpoint → Table Row → β × Table Row) :
    ∀ (ops : List Outpoint) (s : Inventory),
    each (fun op s => ((g op s.rows).1, { s with rows := (g op s.rows).2 })) ops s
      = ((each g ops s.rows).1, { s with rows := (each g ops s.rows).2 })
  | [], _ => rfl
  | op :: ops, s => by
    simp only [each]
    rw [each_rows g ops]

section Change

variable (q : Row → Bool) (f : Row → Row) (hf : ∀ r, (f r).outpoint = r.outpoint)

/-- Change the row of the outpoint if it meets a condition, and tell whether it did. -/
def changeOne (op : Outpoint) (s : Inventory) : Bool × Inventory :=
  ((s.get op).any q, s.modify (fun r => r.outpoint = op && q r) f hf)

theorem each_changeOne (hff : ∀ r, f (f r) = f r) (ops : List Outpoint) :
    (each (changeOne q f hf) ops s).2 = s.modify (fun r => r.outpoint ∈ ops && q r) f hf := by
  have he := each_rows (fun op t => ((t.get? op).any q,
      t.update (fun r => key r = op && q r) f hf)) ops s
  refine (congrArg Prod.snd he).trans ?_
  simp only [Table.update_each hff]
  rfl

theorem count_changeOne (hq : ∀ r, q r = true → q (f r) = false) (ops : List Outpoint) :
    (each (changeOne q f hf) ops s).1.count true = (s.rows.select fun r =>
      r.outpoint ∈ ops && q r).length := by
  have he := each_rows (fun op t => ((t.get? op).any q,
      t.update (fun r => key r = op && q r) f hf)) ops s
  refine (congrArg (fun x => x.1.count true) he).trans ?_
  exact Table.count_each hq ops s.rows

/-- The rows that meet a condition, one by one. What is asked of each of them is something it
implies. -/
theorem each_changeOne_select {p : Row → Bool} (hpq : ∀ r, p r = true → q r = true)
    (hff : ∀ r, f (f r) = f r) (hq : ∀ r, q r = true → q (f r) = false) :
    ((each (changeOne q f hf) ((s.rows.select p).map (·.outpoint)) s).1.count true,
      (each (changeOne q f hf) ((s.rows.select p).map (·.outpoint)) s).2)
      = ((s.rows.select p).length, s.modify p f hf) := by
  rw [count_changeOne q f hf hq, each_changeOne q f hf hff]
  exact Prod.ext (congrArg List.length (Table.select_select hpq))
    (congrArg (Inventory.mk · s.nextSeq) (Table.update_select hpq))

/-- A row that does not meet the condition, or is not there, is not changed. -/
theorem changeOne_of_not (h : ∀ r, s.get op = some r → q r = false) :
    changeOne q f hf op s = (false, s) := by
  have hany : (s.get op).any q = false := by
    cases hr : s.get op with
    | none => rfl
    | some r => exact h r hr
  have hrows : s.rows.update (fun r => r.outpoint = op && q r) f hf = s.rows :=
    Table.update_of_forall_not fun r hr => by
      by_cases he : r.outpoint = op
      · rw [h r (get_eq_some.mpr ⟨hr, he⟩), Bool.and_false]
      · simp [he]
  unfold changeOne modify
  rw [hany, hrows]

theorem changeOne_of {r : Row} (hr : s.get op = some r) (hq : q r = true) :
    changeOne q f hf op s = (true, s.modify (fun r => r.outpoint = op && q r) f hf) := by
  unfold changeOne
  rw [hr, Option.any_some, hq]

end Change

section Drop

variable (q : Row → Bool)

def dropOne (op : Outpoint) (s : Inventory) : Bool × Inventory :=
  ((s.get op).any q, s.drop fun r => r.outpoint = op && q r)

theorem each_dropOne (ops : List Outpoint) :
    (each (dropOne q) ops s).2 = s.drop fun r => r.outpoint ∈ ops && q r := by
  have he := each_rows (fun op t => ((t.get? op).any q, t.delete fun r => key r = op && q r)) ops s
  refine (congrArg Prod.snd he).trans ?_
  simp only [Table.delete_each]
  rfl

theorem count_dropOne (ops : List Outpoint) :
    (each (dropOne q) ops s).1.count true = (s.rows.select fun r =>
      r.outpoint ∈ ops && q r).length := by
  have he := each_rows (fun op t => ((t.get? op).any q, t.delete fun r => key r = op && q r)) ops s
  refine (congrArg (fun x => x.1.count true) he).trans ?_
  exact Table.count_each_delete ops s.rows

theorem each_dropOne_select :
    ((each (dropOne q) ((s.rows.select q).map (·.outpoint)) s).1.count true,
      (each (dropOne q) ((s.rows.select q).map (·.outpoint)) s).2) = ((s.rows.select q).length,
        s.drop q) := by
  rw [count_dropOne, each_dropOne]
  exact Prod.ext (congrArg List.length (Table.select_select fun _ hq => hq))
    (congrArg (Inventory.mk · s.nextSeq) (Table.delete_select fun _ hq => hq))

theorem dropOne_of_not (h : ∀ r, s.get op = some r → q r = false) :
    dropOne q op s = (false, s) := by
  have hany : (s.get op).any q = false := by
    cases hr : s.get op with
    | none => rfl
    | some r => exact h r hr
  have hrows : s.rows.delete (fun r => r.outpoint = op && q r) = s.rows :=
    Table.delete_of_forall_not fun r hr => by
      by_cases he : r.outpoint = op
      · rw [h r (get_eq_some.mpr ⟨hr, he⟩), Bool.and_false]
      · simp [he]
  unfold dropOne drop
  rw [hany, hrows]

theorem dropOne_of {r : Row} (hr : s.get op = some r) (hq : q r = true) :
    dropOne q op s = (true, s.drop fun r => r.outpoint = op && q r) := by
  unfold dropOne
  rw [hr, Option.any_some, hq]

end Drop

def released (r : Row) : Row := { r with reservedBy := "", reservedAt := 0, pinned := false }

theorem released_outpoint (r : Row) : (released r).outpoint = r.outpoint := rfl

def unspent (r : Row) : Row := { r with spentBy := none, reservedBy := "", reservedAt := 0,
                                        pinned := false }

theorem unspent_outpoint (r : Row) : (unspent r).outpoint = r.outpoint := rfl

theorem unspend_eq_each (t : TxID) (ops : List Outpoint) : s.unspend t ops
    = let r := each (changeOne (fun r => r.spentBy = some t) unspent unspent_outpoint) ops s
      (r.1.count true, r.2) := by
  refine Prod.ext (count_changeOne _ _ _ (fun r _ => ?_) ops).symm
      (each_changeOne _ _ _ (fun r => by rfl) ops).symm
  simp [unspent]

theorem promote_eq_each (ops : List Outpoint) (target : Tier) : s.promote ops target
    = let r := each (changeOne (fun r => r.tier ≠ target) (fun r => { r with tier := target })
      fun _ => rfl) ops s
      (r.1.count true, r.2) := by
  refine Prod.ext (count_changeOne _ _ _ (fun r _ => ?_) ops).symm
      (each_changeOne _ _ _ (fun r => by rfl) ops).symm
  simp

def releaseOne (reservation : Token) (op : Outpoint) (s : Inventory) : Unit × Inventory :=
  ((), (changeOne (fun r => r.reservedBy = reservation && r.spentBy = none) released
      released_outpoint op s).2)

theorem releaseOutpoints_eq_each {reservation : Token} (hR : reservation ≠ "")
    (ops : List Outpoint) :
    s.releaseOutpoints reservation ops = (.ok (), (each (releaseOne reservation) ops s).2) := by
  have hrows : (each (releaseOne reservation) ops s).2
      = (each (changeOne (fun r => r.reservedBy = reservation && r.spentBy = none) released
          released_outpoint) ops s).2 :=
    each_snd_congr (fun _ _ => by rfl) ops s
  rw [hrows, each_changeOne _ _ _ fun r => by rfl]
  simp only [releaseOutpoints, validateReservation, if_neg hR, Bool.and_assoc]
  rfl

/-- The rows of a search under a token are released one by one, and who owns them is not asked
again. -/
theorem releaseReservation_eq_each {reservation : Token} (hR : reservation ≠ "") (userID : UserID) :
    s.releaseReservation userID reservation
      = let r := each (changeOne (fun r => r.reservedBy = reservation && r.spentBy
        = none && !r.pinned)
          (fun r => { r with reservedBy := "", reservedAt := 0 }) fun _ => rfl)
          ((s.rows.select fun r => heldBy r userID reservation && !r.pinned).map (·.outpoint)) s
        (.ok (r.1.count true), r.2) := by
  have hsel := each_changeOne_select (s := s) (p := fun r =>
      heldBy r userID reservation && !r.pinned)
    (fun r => r.reservedBy = reservation && r.spentBy = none && !r.pinned)
    (fun r => { r with reservedBy := "", reservedAt := 0 }) (fun _ => rfl)
    (fun r hp => by simp_all [heldBy]) (fun r => by rfl) fun r _ => by simp [Ne.symm hR]
  simp only [releaseReservation, validateReservation, if_neg hR, (Prod.mk.inj hsel).1,
      (Prod.mk.inj hsel).2]

theorem setPinned_eq_each {reservation : Token} (hR : reservation ≠ "") (userID : UserID)
    (pinned : Bool) :
    s.setPinned userID reservation pinned
      = let r := each (changeOne (fun r => r.reservedBy = reservation && r.spentBy
        = none && r.pinned ≠ pinned)
          (fun r => { r with pinned := pinned }) fun _ => rfl)
          ((s.rows.select fun r => heldBy r userID reservation && r.pinned ≠ pinned).map
              (·.outpoint)) s
        (.ok (r.1.count true), r.2) := by
  have hsel := each_changeOne_select (s := s) (p := fun r =>
      heldBy r userID reservation && r.pinned ≠ pinned)
    (fun r => r.reservedBy = reservation && r.spentBy = none && r.pinned ≠ pinned)
    (fun r => { r with pinned := pinned }) (fun _ => rfl)
    (fun r hp => by simp_all [heldBy]) (fun r => by rfl) fun r _ => by simp
  simp only [setPinned, validateReservation, if_neg hR, (Prod.mk.inj hsel).1, (Prod.mk.inj hsel).2]

theorem removeSpentBy_eq_each (t : TxID) : s.removeSpentBy t
    = let r := each (dropOne fun r => r.spentBy = some t)
        ((s.rows.select fun r => r.spentBy = some t).map (·.outpoint)) s
      (r.1.count true, r.2) :=
  (each_dropOne_select _).symm

theorem mint_eq_each (now : Time) : ∀ (ms : List Mint) (s : Inventory),
    s.mint now ms = each (mintOne now) ms s
  | [], _ => rfl
  | m :: ms, s => by
    rw [each, ← mint_eq_each now ms]
    rfl

theorem spend_eq_each (force : Bool) : ∀ (sps : List SpendOp) (s : Inventory),
    s.spend force sps = each (fun sp s => spendOne sp force s) sps s
  | [], _ => rfl
  | sp :: sps, s => by
    rw [each, ← spend_eq_each force sps]
    rfl

theorem outpoint_frozen (frozen : Bool) (r : Row) :
    { r with frozen := frozen }.outpoint = r.outpoint := rfl

/-- Freeze or thaw one row. -/
def setFrozenOne (frozen : Bool) (op : Outpoint) (s : Inventory) : Option UtxoErr × Inventory :=
  (if (s.get op).isNone then some (.notFound op) else none,
   s.modify (fun r => r.outpoint = op) (fun r => { r with frozen := frozen })
       (outpoint_frozen frozen))

theorem setFrozen_eq_each (frozen : Bool) (ops : List Outpoint) (s : Inventory) :
    s.setFrozen ops frozen = ((each (setFrozenOne frozen) ops s).1.reduceOption,
      (each (setFrozenOne frozen) ops s).2) := by
  refine eq_each_reduceOption (F := fun ops s => s.setFrozen ops frozen) (fun s =>
      ?_) (fun op ops s => ?_) ops s
  · simp [setFrozen, modify, Table.update]
  · have hget : ∀ op', ((setFrozenOne frozen op s).2.get op').isNone = (s.get op').isNone :=
      fun op' => by
      rw [setFrozenOne, get_modify, Option.isNone_map]
    refine Prod.ext ?_ (congrArg (Inventory.mk · s.nextSeq) (Table.eq_of_rows ?_))
    · simp only [setFrozen, hget, List.filter_cons]
      cases hn : (s.get op).isNone <;> simp [setFrozenOne, hn]
    · simp only [setFrozenOne, modify, Table.update, List.map_map]
      refine List.map_congr_left fun r _ => ?_
      by_cases he : r.outpoint = op <;> by_cases hm : r.outpoint ∈ ops <;> simp [he, hm]

/-- Remove one row, unless something speaks against it. -/
def removeOne (force : Bool) (op : Outpoint) (s : Inventory) : Option UtxoErr × Inventory :=
  (if force then none else (s.get op).bind (removeRefusal op),
   s.drop fun r => r.outpoint = op && (force || (removeRefusal r.outpoint r).isNone))

/-- What speaks against a row speaks against it after others are removed, too. -/
theorem removeRefusal_removeOne (op op' : Outpoint) :
    ((removeOne false op s).2.get op').bind (removeRefusal op')
    = (s.get op').bind (removeRefusal op') := by
  rw [removeOne, get_drop]
  cases hr : s.get op' with
  | none => rfl
  | some r =>
    obtain ⟨-, rfl⟩ := get_eq_some.mp hr
    rw [Option.filter_some, Option.bind_some]
    split_ifs with hkeep
    · rfl
    · simp only [Bool.false_or, Bool.not_eq_true', Bool.not_eq_false, Bool.and_eq_true,
        Option.isNone_iff_eq_none]
        at hkeep
      rw [hkeep.2]
      rfl

theorem remove_eq_each (force : Bool) (ops : List Outpoint) (s : Inventory) :
    s.remove ops force = ((each (removeOne force) ops s).1.reduceOption,
      (each (removeOne force) ops s).2) := by
  refine eq_each_reduceOption (F := fun ops s => s.remove ops force) (fun s =>
      ?_) (fun op ops s => ?_) ops s
  · cases force <;> simp [remove, drop, Table.delete_of_forall_not]
  · refine Prod.ext ?_ (congrArg (Inventory.mk · s.nextSeq) ?_)
    · cases force with
      | true => rfl
      | false =>
        simp only [remove, Bool.false_eq_true, if_false, removeRefusal_removeOne,
            List.filterMap_cons]
        cases hb : (s.get op).bind (removeRefusal op) <;> simp [removeOne, hb]
    · simp only [removeOne, drop, Table.delete_delete]
      congr 1
      funext r
      simp only [← Bool.and_or_distrib_right, List.mem_cons, Bool.decide_or]

end Inventory

end ArcadeToolbox
