import ArcadeToolbox.Funder.Collector
import ArcadeToolbox.Lib.UnitOfWork
import ArcadeToolbox.Statuses
import ArcadeToolbox.Utxostore.Memstore

/-!
# The stores and their units of work

The metadata store holds the transactions of the users, the known raw transactions (shared by all
users), the output rows and the outbox. Beside it stands the coin inventory. In Mode A both are one
database; in Mode B the inventory commits each call at once, and a failed unit undoes the metadata
only.

A serialized transaction is named by its hash. `audit` and `removals` are read by no code: they
record what has happened, to state histories.
-/

namespace ArcadeToolbox

open Txn

abbrev TransactionID := ℕ
abbrev OutputID := ℕ
abbrev Script := String

/-- A serialized transaction, named by its hash. -/
abbrev RawTx := TxID

/-- An output of a transaction. -/
structure TxOutput where
  satoshis : ℕ
  lockingScript : Option Script
  deriving DecidableEq, Repr

/-- A transaction as the ledger has it. -/
structure Tx where
  inputs : List Outpoint
  outputs : List TxOutput
  size : ℕ
  deriving DecidableEq, Repr

/-- The transaction each hash stands for. -/
abbrev Ledger := TxID → Tx

/-! ## Rows -/

/-- A row of the table of transactions. -/
structure TxRow where
  transactionID : TransactionID
  userID : UserID
  status : TxStatus
  reference : Token
  isOutgoing : Bool
  satoshis : ℤ
  txid : Option TxID
  createdAt : Time
  deriving DecidableEq, Repr

instance : Keyed TxRow TransactionID := ⟨fun r => r.transactionID⟩

/-- Where a transaction is in the chain. -/
structure Proof where
  height : ℕ
  blockHash : String
  merklePath : String
  merkleRoot : String
  deriving DecidableEq, Repr

/-- A row of the table of known transactions. -/
structure KnownTx where
  txid : TxID
  status : ProvenTxReqStatus
  arcadeStatus : Option ArcadeStatus
  wasBroadcast : Bool
  rawTx : Option RawTx
  proof : Option Proof
  competingTxs : List TxID
  suspectSince : Option Time
  verifiedRejectedAt : Option Time
  rejectReason : Option String
  createdAt : Time
  updatedAt : Time
  lastPolledAt : Time
  deriving DecidableEq, Repr

instance : Keyed KnownTx TxID := ⟨fun r => r.txid⟩

/-- Who provided the output. -/
inductive ProvidedBy where
  | you
  | storage
  | youAndStorage
  deriving DecidableEq, Repr

/-- A row of the table of outputs. -/
structure OutputRow where
  outputID : OutputID
  userID : UserID
  transactionID : TransactionID
  vout : ℕ
  satoshis : ℕ
  lockingScript : Option Script
  basket : Option String
  spentBy : Option TransactionID
  change : Bool
  providedBy : ProvidedBy
  deriving DecidableEq, Repr

instance : Keyed OutputRow OutputID := ⟨fun r => r.outputID⟩

/-- Who an outbox row belongs to: a transaction, or the abort of a reference (the source hashes
the two into one key space). -/
inductive OutboxOwner where
  | tx (txid : TxID)
  | abort (reference : Token)
  deriving DecidableEq, Repr

/-- What is left to do, with its arguments. -/
inductive OutboxPayload where
  | unspend (txid : TxID) (ops : List Outpoint)
  | release (reservation : Token) (ops : List Outpoint)
  | removePhantom (ops : List Outpoint)
  | removeMinted (mintTxID : TxID) (ops : List Outpoint)
  | abortRelease (userID : UserID) (reservation : Token)
  | abortRemoveChange (mintTxID : TxID) (ops : List Outpoint)
  deriving DecidableEq, Repr

/-- The kind of thing to do. -/
inductive OutboxOp where
  | unspend
  | release
  | removePhantom
  | removeMinted
  | abortRelease
  | abortRemoveChange
  deriving DecidableEq, Repr

def OutboxPayload.op : OutboxPayload → OutboxOp
  | .unspend _ _ => .unspend
  | .release _ _ => .release
  | .removePhantom _ => .removePhantom
  | .removeMinted _ _ => .removeMinted
  | .abortRelease _ _ => .abortRelease
  | .abortRemoveChange _ _ => .abortRemoveChange

/-- The place of the stored word in alphabetical order, which orders the rows of one instant. -/
def OutboxOp.rank : OutboxOp → ℕ
  | .abortRelease => 0
  | .abortRemoveChange => 1
  | .release => 2
  | .removeMinted => 3
  | .removePhantom => 4
  | .unspend => 5

structure OutboxKey where
  owner : OutboxOwner
  op : OutboxOp
  chunk : ℕ
  deriving DecidableEq, Repr

/-- An entry of the outbox, and how often it failed. -/
structure OutboxEntry where
  owner : OutboxOwner
  chunk : ℕ
  payload : OutboxPayload
  attempts : ℕ
  createdAt : Time
  deriving DecidableEq, Repr

def OutboxEntry.key (e : OutboxEntry) : OutboxKey := ⟨e.owner, e.payload.op, e.chunk⟩

instance : Keyed OutboxEntry OutboxKey := ⟨fun e => e.key⟩

@[simp] theorem TxRow.key_eq (r : TxRow) : Txn.key r = r.transactionID := rfl

@[simp] theorem KnownTx.key_eq (r : KnownTx) : Txn.key r = r.txid := rfl

@[simp] theorem OutputRow.key_eq (r : OutputRow) : Txn.key r = r.outputID := rfl

@[simp] theorem OutboxEntry.key_eq (r : OutboxEntry) : Txn.key r = r.key := rfl

theorem OutboxEntry.key_attempt (e : OutboxEntry) :
    Txn.key { e with attempts := e.attempts + 1 } = Txn.key e := rfl

/-! ## The stores -/

/-- What has happened to a known transaction. -/
inductive Event where
  /-- a successful `ClaimForSend` -/
  | claimed (txid : TxID) (time : Time)
  /-- a successful `ReclaimStaleSend` -/
  | reclaimed (txid : TxID) (time : Time)
  /-- a successful `TransitionToAborted` -/
  | fenced (txid : TxID)
  /-- `processNewTx` stored the bytes -/
  | stored (txid : TxID)
  /-- the oracle accepted the bytes -/
  | accepted (txid : TxID)
  /-- a SEEN-class or ACCEPTED record arrived -/
  | seen (txid : TxID)
  /-- a merkle proof verified against the header source -/
  | proven (txid : TxID)
  /-- the reconciler finalized the transaction as dead -/
  | finalized (txid : TxID)
  deriving DecidableEq, Repr

/-- The tables of the metadata, and the audit. -/
structure Metadata where
  transactions : Table TxRow
  knownTxs : Table KnownTx
  outputs : Table OutputRow
  outbox : Table OutboxEntry
  nextTransactionID : ℕ
  nextOutputID : ℕ
  audit : List Event

/-- A row an outbox operation took out of the inventory, and whether its minting transaction was
completed at that moment. -/
structure Removal where
  outpoint : Outpoint
  completed : Bool
  deriving DecidableEq, Repr

/-- The metadata and the inventory. -/
structure Db where
  metadata : Metadata
  utxo : Inventory
  removals : List Removal

def Metadata.empty : Metadata := ⟨∅, ∅, ∅, ∅, 1, 1, []⟩

def Db.empty : Db := ⟨Metadata.empty, Inventory.empty, []⟩

def Metadata.log (m : Metadata) (es : List Event) : Metadata := { m with audit := m.audit ++ es }

def Metadata.record (m : Metadata) (e : Event) : Metadata := m.log [e]

/-- Why a unit of work fails. -/
inductive Err where
  | io
  | notFound
  | skipped
  | txidMismatch
  | conflict
  | notAbortable
  | abortLostToSend
  | utxo (e : UtxoErr)
  | batch (items : List UtxoErr)
  | fund (e : FundErr)
  | refused (text : String)
  deriving DecidableEq, Repr

/-- One database for both, or two. -/
inductive Mode where
  | a
  | b
  deriving DecidableEq, Repr

/-- A unit of work over both. -/
abbrev Work := Uow Err Db

/-- What a failed unit of work leaves behind. -/
def rollback : Mode → Db → Db → Db
  | .a, before, _ => before
  | .b, before, after => { before with utxo := after.utxo, removals := after.removals }

namespace Storage

variable {α : Type}

/-- `metastore.Store.Do`. A unit that is run again after a lock conflict is a failed unit followed
by a new one. -/
def doUnit (mode : Mode) (x : Work α) : Work α := Uow.atomically (rollback mode) x

def metaStmt (f : Time → Metadata → Except Err α × Metadata) : Work α :=
  Uow.stmt .io fun now d => ((f now d.metadata).1, { d with metadata := (f now d.metadata).2 })

def metaQuery (f : Metadata → α) : Work α := Uow.query .io fun d => f d.metadata

def utxoStmt (f : Time → Inventory → Except Err α × Inventory) : Work α :=
  Uow.stmt (.utxo .unavailable) fun now d => ((f now d.utxo).1, { d with utxo := (f now d.utxo).2 })

/-- The clock of the store. -/
def now : Work Time := fun s => (.ok s.now, s)

/-- Note something in the audit; no statement of the code. -/
def note (e : Event) : Work Unit := fun s =>
  (.ok (), { s with db := { s.db with metadata := s.db.metadata.record e } })

def noteIf (b : Bool) (e : Event) : Work Unit := if b then note e else pure ()

end Storage

end ArcadeToolbox
