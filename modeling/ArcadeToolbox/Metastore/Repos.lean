import ArcadeToolbox.Metastore.Tables

/-!
# Transactions, outputs and the outbox

The statements on the other tables. A status update of a transactions row with a list of expected
statuses is a compare-and-set; the txid of a row is set once and never repointed.
-/

namespace ArcadeToolbox

open Txn

/-! ## Transactions -/

/-- What can be written to a transaction. -/
inductive TxWrite where
  | setTxID (txid : TxID)
  | updateStatus (status : TxStatus) (expectedCurrent : List TxStatus)
  deriving DecidableEq

namespace TxWrite

def guard (r : TxRow) : TxWrite → Bool
  | setTxID txid => r.txid = none || r.txid = some txid
  | updateStatus _ expected => expected = [] || r.status ∈ expected

def edit (r : TxRow) : TxWrite → TxRow
  | setTxID txid => { r with txid := some txid }
  | updateStatus st _ => { r with status := st }

@[simp] theorem edit_transactionID (w : TxWrite) (r : TxRow) :
    (w.edit r).transactionID = r.transactionID := by
  cases w <;> rfl

end TxWrite

namespace Metadata

/-- Run a write on the selected rows that meet its guard. -/
def writeTx (w : TxWrite) (sel : TxRow → Bool) (m : Metadata) : Metadata :=
  { m with
    transactions := m.transactions.update (fun r => sel r && w.guard r) (fun r => w.edit r)
      fun r => w.edit_transactionID r }

/-- A write on the selected rows; `e` is the answer when no row took it. -/
def writeTxOr (w : TxWrite) (sel : TxRow → Bool) (e : Err) (m : Metadata) :
    Except Err Unit × Metadata :=
  if m.transactions.any fun r => sel r && w.guard r then (.ok (), m.writeTx w sel)
  else (.error e, m)

theorem mem_writeTx {w : TxWrite} {sel : TxRow → Bool} {m : Metadata} {x : TxRow} :
    x ∈ (m.writeTx w sel).transactions ↔
      ∃ r ∈ m.transactions, x = if sel r && w.guard r then w.edit r else r :=
  @Table.mem_update _ _ _ m.transactions _ _ (fun r => w.edit_transactionID r) x

theorem writeTxOr_ok {w : TxWrite} {sel : TxRow → Bool} {e : Err} {m : Metadata} {a : Unit}
    (h : (m.writeTxOr w sel e).1 = .ok a) :
    (∃ r ∈ m.transactions, sel r = true ∧ w.guard r = true)
      ∧ (m.writeTxOr w sel e).2 = m.writeTx w sel := by
  unfold writeTxOr at h ⊢
  split at h <;> rename_i ha
  · obtain ⟨r, hr, hg⟩ := Table.any_eq_true.mp ha
    rw [Bool.and_eq_true] at hg
    exact ⟨⟨r, hr, hg⟩, by rw [if_pos ha]⟩
  · cases h

/-- The txid of the transactions row an output belongs to. -/
def outputTxID (m : Metadata) (o : OutputRow) : Option TxID :=
  (m.transactions.get? o.transactionID).bind (·.txid)

/-- The first row of an outpoint that belongs to a user. -/
def outputOf (m : Metadata) (userID : UserID) (op : Outpoint) : Option OutputRow :=
  (m.outputs.select fun o =>
    o.userID = userID && o.vout = op.vout && m.outputTxID o = some op.txid).head?

end Metadata

/-- A transaction to insert. -/
structure NewTx where
  userID : UserID
  status : TxStatus
  reference : Token
  isOutgoing : Bool
  satoshis : ℤ
  deriving DecidableEq, Repr

/-- An output to insert. -/
structure NewOutput where
  userID : UserID
  transactionID : TransactionID
  vout : ℕ
  satoshis : ℕ
  lockingScript : Option Script
  basket : Option String
  change : Bool
  providedBy : ProvidedBy
  deriving DecidableEq, Repr

namespace Metadata

/-- References are unique over all users. -/
def insertTx (tx : NewTx) (now : Time) (m : Metadata) : Except Err TransactionID × Metadata :=
  if m.transactions.any fun r => r.reference = tx.reference then (.error .conflict, m)
  else
    (.ok m.nextTransactionID,
     { m with
       nextTransactionID := m.nextTransactionID + 1
       transactions := m.transactions.insert
        { transactionID := m.nextTransactionID, userID := tx.userID, status := tx.status,
          reference := tx.reference, isOutgoing := tx.isOutgoing, satoshis := tx.satoshis,
          txid := none, createdAt := now } })

/-- A transaction has one output row for each index. -/
def insertOutput (o : NewOutput) (m : Metadata) : Except Err OutputID × Metadata :=
  if m.outputs.any fun r => r.transactionID = o.transactionID && r.vout = o.vout then
    (.error .conflict, m)
  else
    (.ok m.nextOutputID,
     { m with
       nextOutputID := m.nextOutputID + 1
       outputs := m.outputs.insert
        { outputID := m.nextOutputID, userID := o.userID, transactionID := o.transactionID,
          vout := o.vout, satoshis := o.satoshis, lockingScript := o.lockingScript,
          basket := o.basket, spentBy := none, change := o.change, providedBy := o.providedBy } })

end Metadata

namespace Storage

namespace TransactionsRepo

def insert (tx : NewTx) : Work TransactionID := metaStmt (Metadata.insertTx tx)

def findByReference (userID : UserID) (reference : Token) : Work (Option TxRow) :=
  metaQuery fun m => (m.transactions.select fun r =>
    r.userID = userID && r.reference = reference).head?

/-- Newest first. -/
def findByTxID (userID : UserID) (txid : TxID) : Work (List TxRow) :=
  metaQuery fun m => (m.transactions.select fun r =>
      r.userID = userID && r.txid = some txid).reverse

/-- Newest first. -/
def findByTxIDAllUsers (txid : TxID) : Work (List TxRow) :=
  metaQuery fun m => (m.transactions.select fun r => r.txid = some txid).reverse

def findAbandonedBefore (cutoff : Time) (limit : ℕ) : Work (List TxRow) :=
  metaQuery fun m => ((m.transactions.select fun r =>
    (r.status = .unsigned || r.status = .nosend) && r.createdAt ≤ cutoff).insertionSort fun a b =>
      a.createdAt < b.createdAt ∨ (a.createdAt = b.createdAt
          ∧ a.transactionID ≤ b.transactionID)).take
        limit

/-- Set the txid of a row that has none, or the same one. -/
def setTxID (id : TransactionID) (txid : TxID) : Work Unit :=
  metaStmt fun _ m => m.writeTxOr (.setTxID txid) (fun r => r.transactionID = id)
    (if m.transactions.any fun r => r.transactionID = id then .txidMismatch else .notFound)

def updateStatus (id : TransactionID) (st : TxStatus) (expected : List TxStatus) : Work Unit :=
  metaStmt fun _ m => m.writeTxOr (.updateStatus st expected) (fun r =>
      r.transactionID = id) .skipped

def updateStatusByTxID (txid : TxID) (st : TxStatus) (expected : List TxStatus) : Work Unit :=
  metaStmt fun _ m => m.writeTxOr (.updateStatus st expected) (fun r => r.txid = some txid) .skipped

def bulkUpdateStatusByTxIDs (txids : List TxID) (st : TxStatus) (expected : List TxStatus) :
    Work Unit :=
  metaStmt fun _ m => (.ok (), m.writeTx (.updateStatus st expected) fun r =>
      r.txid.any (· ∈ txids))

end TransactionsRepo

/-! ## Outputs -/

namespace OutputsRepo

def insert (o : NewOutput) : Work OutputID := metaStmt fun _ m => m.insertOutput o

/-- `FindOutputs` with a transaction id: the rows of one transaction, of one user when one is
given, and of change only when asked. -/
def findOutputs (userID : Option UserID) (id : TransactionID) (changeOnly : Bool) :
    Work (List OutputRow) :=
  metaQuery fun m => m.outputs.select fun o =>
    o.transactionID = id && (userID = none || userID = some o.userID) && (!changeOnly || o.change)

def findChangeOutputsByTxIDs (txids : List TxID) : Work (List (OutputRow × TxID)) :=
  metaQuery fun m => (m.outputs.select fun o => o.change).filterMap fun o =>
    (m.outputTxID o).bind fun t => if t ∈ txids then some (o, t) else none

/-- The rows of some outpoints that belong to a user, with their outpoints. -/
def findOutputsByOutpoints (userID : UserID) (ops : List Outpoint) :
    Work (List (OutputRow × Outpoint)) :=
  metaQuery fun m => (m.outputs.select fun o => o.userID = userID).filterMap fun o =>
    (m.outputTxID o).bind fun t => if ⟨t, o.vout⟩ ∈ ops then some (o, ⟨t, o.vout⟩) else none

def findOutputByOutpoint (userID : UserID) (op : Outpoint) : Work (Option OutputRow) :=
  metaQuery fun m => m.outputOf userID op

def countInBasket (userID : UserID) (basket : String) : Work ℕ :=
  metaQuery fun m => (m.outputs.select fun o => o.userID = userID && o.basket = some basket).length

/-- Take an output out of its basket, which has to be the given one unless that is empty. -/
def relinquishOutput (userID : UserID) (basket : String) (op : Outpoint) : Work Unit :=
  metaStmt fun _ m =>
    let named := fun o : OutputRow =>
      o.userID = userID && o.vout = op.vout && m.outputTxID o = some op.txid
    if m.outputs.any fun o => named o && (basket = "" || o.basket = some basket) then
      (.ok (), { m with
        outputs := m.outputs.update (fun o => named o && (basket = "" || o.basket = some basket))
          (fun o => { o with basket := none }) fun _ => rfl })
    else if m.outputs.any named then (.error (.refused "metastore: not in basket"), m)
    else (.error .notFound, m)

def markSpent (id : TransactionID) (outputIDs : List OutputID) : Work Unit :=
  metaStmt fun _ m => (.ok (), { m with
    outputs := m.outputs.update (fun o => o.outputID ∈ outputIDs)
      (fun o => { o with spentBy := some id }) fun _ => rfl })

def clearSpentBy (id : TransactionID) : Work Unit :=
  metaStmt fun _ m => (.ok (), { m with
    outputs := m.outputs.update (fun o => o.spentBy = some id)
      (fun o => { o with spentBy := none }) fun _ => rfl })

end OutputsRepo

/-! ## Outbox -/

/-- `MaxOutboxAttempts`. -/
def maxOutboxAttempts : ℕ := 10

namespace OutboxRepo

/-- A taken key leaves the row that is there. -/
def enqueue (owner : OutboxOwner) (chunk : ℕ) (payload : OutboxPayload) : Work Unit :=
  metaStmt fun now m => (.ok (), { m with
    outbox := m.outbox.insert
      { owner := owner, chunk := chunk, payload := payload, attempts := 0, createdAt := now } })

/-- The order in which the entries are worked off. -/
def pendingBefore (a b : OutboxEntry) : Prop :=
  a.createdAt < b.createdAt ∨ (a.createdAt = b.createdAt ∧
    (a.payload.op.rank < b.payload.op.rank ∨
      (a.payload.op.rank = b.payload.op.rank ∧ a.chunk ≤ b.chunk)))

instance : DecidableRel pendingBefore := fun _ _ => inferInstanceAs (Decidable (_ ∨ _))

def fetchPending (limit : ℕ) : Work (List OutboxEntry) :=
  metaQuery fun m => ((m.outbox.select fun e => e.attempts < maxOutboxAttempts).insertionSort
    pendingBefore).take limit

def markDone (key : OutboxKey) : Work Unit :=
  metaStmt fun _ m => (.ok (), { m with outbox := m.outbox.delete fun e => e.key = key })

def recordError (key : OutboxKey) : Work Unit :=
  metaStmt fun _ m => (.ok (), { m with
    outbox := m.outbox.update (fun e => e.key = key)
      (fun e => { e with attempts := e.attempts + 1 }) OutboxEntry.key_attempt })

def countParked : Work ℕ :=
  metaQuery fun m => (m.outbox.select fun e => maxOutboxAttempts ≤ e.attempts).length

end OutboxRepo

end Storage

end ArcadeToolbox
