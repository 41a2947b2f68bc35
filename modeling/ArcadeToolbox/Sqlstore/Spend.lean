import ArcadeToolbox.Lib.Grouping
import ArcadeToolbox.Utxostore.Types

/-!
# Spending in the SQL store

SQLite goes through the operations of a batch: each is a guarded UPDATE, and one that matched no row
is followed by a read that says why. PostgreSQL sends one UPDATE for every spender and reservation
of the batch and reads the rows of all the operations that missed at the end. Nobody else writes in
the meantime. A NULL in `reserved_by` is the empty token, which no valid operation names.
-/

namespace ArcadeToolbox

open Txn

namespace Sqlstore

/-- How often a guarded update is tried. -/
def guardAttempts : ℕ := 2

variable (force : Bool)

/-- The conditions of the UPDATE on the row of an outpoint. -/
def guard (reservation : Token) (r : Row) : Bool :=
  r.spentBy = none && (force || (r.reservedBy = reservation && !r.frozen))

def recordSpend (spendingTxID : TxID) (r : Row) : Row :=
  { r with spentBy := some spendingTxID, pinned := false }

/-! ## One operation after the other -/

def spendUpdate (sp : SpendOp) (t : Table Row) : ℕ × Table Row :=
  let p := fun r : Row => r.outpoint = sp.outpoint && guard force sp.reservation r
  ((t.select p).length, t.update p (recordSpend sp.spendingTxID) fun _ => rfl)

/-- The verdict on an operation from the row of its outpoint, and whether to try once more. -/
def classify (sp : SpendOp) : Option Row → Option UtxoErr × Bool
  | none => (some (.notFound sp.outpoint), false)
  | some r =>
    match r.spentBy with
    | some w => (if w = sp.spendingTxID then none else some (.spent sp.outpoint w), false)
    | none =>
      if !force && r.frozen then (some (.frozen sp.outpoint), false)
      else if !force && r.reservedBy ≠ sp.reservation then
          (some (.reserved sp.outpoint r.reservedBy), false)
      else (none, true)

def spendAttempts (sp : SpendOp) : ℕ → Table Row → Option UtxoErr × Table Row
  | 0, t => (some .contention, t)
  | n + 1, t =>
    let (matched, t) := spendUpdate force sp t
    if matched = 1 then (none, t)
    else
      match classify force sp (t.get? sp.outpoint) with
      | (e, false) => (e, t)
      | (_, true) => spendAttempts sp n t

/-- Spend one coin, or say why not. -/
def spendOne (sp : SpendOp) (t : Table Row) : Option UtxoErr × Table Row :=
  match validateSpend sp with
  | some e => (some e, t)
  | none => spendAttempts force sp guardAttempts t

def spendEach : List SpendOp → Table Row → List (Option UtxoErr) × Table Row
  | [], t => ([], t)
  | sp :: sps, t =>
    let (e, t) := spendOne force sp t
    let (es, t) := spendEach sps t
    (e :: es, t)

/-! ## The whole batch -/

/-- An operation and its place in the batch. -/
abbrev Item := SpendOp × ℕ

/-- The spends under one transaction and reservation. -/
structure SpendGroup where
  spendingTxID : TxID
  reservation : Token
  ops : List Item

/-- What a statement holds constant; a forced spend does not look at the reservation. -/
def groupKey (sp : SpendOp) : TxID × Token :=
  (sp.spendingTxID, if force then "" else sp.reservation)

def groupSpends (items : List Item) : List SpendGroup :=
  (group (fun it : Item => groupKey force it.1) items).map fun g => ⟨g.1.1, g.1.2, g.2⟩

/-- The UPDATE of a group and the operations it did not match. -/
def writeGroup (g : SpendGroup) (t : Table Row) : List Item × Table Row :=
  let p := fun r : Row => r.outpoint ∈ g.ops.map (·.1.outpoint) && guard force g.reservation r
  let recorded := (t.select p).map (·.outpoint)
  (g.ops.filter fun it => it.1.outpoint ∉ recorded,
      t.update p (recordSpend g.spendingTxID) fun _ => rfl)

def writeGroups : List SpendGroup → Table Row → List Item × Table Row
  | [], t => ([], t)
  | g :: gs, t =>
    let (missed, t) := writeGroup force g t
    let (misses, t) := writeGroups gs t
    (missed ++ misses, t)

/-- One statement for each group. -/
def spendWriteSet (items : List Item) (t : Table Row) : List Item × Table Row :=
  writeGroups force (groupSpends force items) t

/-- Write down a verdict; an operation without an error keeps what it has. -/
def assign (errs : ℕ → Option UtxoErr) (i : ℕ) (e : Option UtxoErr) : ℕ → Option UtxoErr :=
  Function.update errs i (e.or (errs i))

/-- The verdicts on the operations that missed, and those to be tried again. -/
def classifySpendMisses (misses : List Item) (errs : ℕ → Option UtxoErr) (t : Table Row) :
    List Item × (ℕ → Option UtxoErr) :=
  (misses.filter fun it => (classify force it.1 (t.get? it.1.outpoint)).2,
   misses.foldl (fun errs it => assign errs it.2 (classify force it.1 (t.get? it.1.outpoint)).1)
       errs)

/-- The rounds of the batch; a round without operations does nothing. -/
def spendRounds : ℕ → List Item → (ℕ → Option UtxoErr) → Table Row →
    (ℕ → Option UtxoErr) × Table Row
  | 0, items, errs, t => (items.foldl (fun errs it => assign errs it.2 (some .contention)) errs, t)
  | n + 1, items, errs, t =>
    let (misses, t) := spendWriteSet force items t
    let (unresolved, errs) := classifySpendMisses force misses errs t
    spendRounds n unresolved errs t

/-- The operations that pass validation. -/
def pending (ops : List SpendOp) : List Item := ops.zipIdx.filter fun it =>
    validateSpend it.1 = none

/-- The verdicts of the validation. -/
def validation (ops : List SpendOp) (i : ℕ) : Option UtxoErr := ops[i]?.bind validateSpend

def spendSet (ops : List SpendOp) (t : Table Row) : List (Option UtxoErr) × Table Row :=
  let (errs, t) := spendRounds force guardAttempts (pending ops) (validation ops) t
  (ops.zipIdx.map fun it => errs it.2, t)

end Sqlstore

end ArcadeToolbox
