import ArcadeToolbox.Storage.Outbox

/-!
# Aborting an action

An abort reads the transactions row of the action and then, in a unit of work, sets it to
`aborted` from an abortable status, fences its raw transaction, and gives the coins back (in
Mode A in the same unit, in Mode B through the outbox). Which raw transaction to fence is decided
by the row as it was read, before the unit of work.
-/

namespace ArcadeToolbox

open Txn

def abortableStatuses : List TxStatus := [.unsigned, .nosend, .unprocessed, .nonfinal]

namespace Storage

/-- The row an abort is about, looked up by reference. -/
def abortFind (userID : UserID) (reference : Token) : Work (Option TxRow) :=
  TransactionsRepo.findByReference userID reference

/-- The same by txid, which is tried when the reference looks like one. -/
def abortFindByTxID (userID : UserID) (txid : TxID) : Work (Option TxRow) := do
  return (← TransactionsRepo.findByTxID userID txid).head?

def abortable (row : TxRow) : Bool := row.isOutgoing && row.status ∈ abortableStatuses

/-- The metadata half of an abort. `row` is the row as it was read; without a txid in it nothing
is fenced. -/
def fenceAborted (row : TxRow) : Work Unit := do
  match ← Uow.attempt (TransactionsRepo.updateStatus row.transactionID .aborted
      abortableStatuses) with
  | .error .skipped => throw .notAbortable
  | .error e => throw e
  | .ok _ =>
    match row.txid with
    | none => pure ()
    | some txid =>
      match ← Uow.attempt (KnownTxRepo.transitionToAborted txid) with
      | .error .skipped => throw .abortLostToSend
      | .error .notFound => OutputsRepo.clearSpentBy row.transactionID
      | .error e => throw e
      | .ok _ => OutputsRepo.clearSpentBy row.transactionID

/-- The coin half: the hold is given back and the change taken away. -/
def abortCoins (userID : UserID) (row : TxRow) : Work Unit := do
  doAbortRelease userID row.reference
  match row.txid with
  | none => pure ()
  | some txid =>
    let ops ← changeOutpoints userID row.transactionID txid
    doAbortRemoveChange txid ops

/-- Mode A: one unit of work. -/
def abortDirect (userID : UserID) (row : TxRow) : Work Unit :=
  doUnit .a do
    fenceAborted row
    abortCoins userID row

/-- The change an abort takes back. -/
def abortChange (userID : UserID) (row : TxRow) : Work (List Outpoint) :=
  match row.txid with
  | none => pure []
  | some txid => changeOutpoints userID row.transactionID txid

/-- The operations an abort leaves to the outbox. -/
def abortOps (userID : UserID) (row : TxRow) (change : List Outpoint) : List QueuedOp :=
  ⟨.abort row.reference, 0, .abortRelease userID row.reference⟩ ::
    match row.txid with
    | none => []
    | some txid => if change = [] then [] else [⟨.tx txid, 0, .abortRemoveChange txid change⟩]

/-- What is to be undone goes to the outbox. -/
def abortQueue (userID : UserID) (row : TxRow) : Work (List QueuedOp) := do
  let change ← abortChange userID row
  enqueueAll (abortOps userID row change)
  return abortOps userID row change

/-- Mode B, first unit: the fence and the operations. -/
def abortEnqueue (userID : UserID) (row : TxRow) : Work (List QueuedOp) :=
  doUnit .b do
    fenceAborted row
    abortQueue userID row

end Storage

end ArcadeToolbox
