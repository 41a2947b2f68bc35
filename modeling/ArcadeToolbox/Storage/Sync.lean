import ArcadeToolbox.Storage.Provider

/-!
# Moving a user to another storage

`GetSyncChunk` packs what a storage knows of a user: the baskets, the transactions and the outputs,
each change output with the word of the inventory on whether it can be spent. `ProcessSyncChunk`
unpacks it elsewhere, under new ids; a change output that is live where it comes from is minted. The
chunk is the full one.
-/

namespace ArcadeToolbox

open Txn

/-- `BasketNameForChange`. -/
def basketNameForChange : String := "default"

/-- A row of the table of users. -/
structure UserRow where
  userID : UserID
  identityKey : String
  deriving DecidableEq, Repr

instance : Keyed UserRow UserID := ⟨fun r => r.userID⟩

structure BasketConfiguration where
  name : String
  numberOfDesiredUTXOs : ℤ
  minimumDesiredUTXOValue : ℕ
  deriving DecidableEq, Repr

/-- A row of the table of baskets. -/
structure BasketRow extends BasketConfiguration where
  userID : UserID
  deleted : Bool
  deriving DecidableEq, Repr

instance : Keyed BasketRow (UserID × String) := ⟨fun b => (b.userID, b.name)⟩

/-- A storage with its users and their baskets. -/
structure SyncStore where
  users : Table UserRow
  nextUserID : UserID
  baskets : Table BasketRow
  db : Db

def SyncStore.fresh : SyncStore := ⟨∅, 1, ∅, Db.empty⟩

/-! ## The chunk -/

structure SyncBasket where
  basketID : ℕ
  config : BasketConfiguration
  deriving DecidableEq, Repr

/-- A transaction of a chunk. -/
structure SyncTx where
  transactionID : TransactionID
  status : TxStatus
  reference : Token
  isOutgoing : Bool
  satoshis : ℤ
  txid : Option TxID
  deriving DecidableEq, Repr

/-- An output of a chunk. -/
structure SyncOutput where
  transactionID : TransactionID
  txid : Option TxID
  vout : ℕ
  satoshis : ℕ
  lockingScript : Option Script
  basketID : Option ℕ
  spentBy : Option TransactionID
  change : Bool
  spendable : Bool
  providedBy : ProvidedBy
  deriving DecidableEq, Repr

/-- What is sent to the other storage. -/
structure SyncChunk where
  outputBaskets : List SyncBasket
  transactions : List SyncTx
  outputs : List SyncOutput
  deriving DecidableEq, Repr

structure RequestSyncChunkArgs where
  fromStorageIdentityKey : String
  identityKey : String
  deriving DecidableEq, Repr

/-- A coin nobody holds, that is not spent and not frozen. -/
def Row.spendable (r : Row) : Bool := r.reservedBy = "" && r.spentBy = none && !r.frozen

namespace SyncStore

variable (st : SyncStore)

def findByIdentityKey (identityKey : String) : Option UserRow :=
  (st.users.select fun u => u.identityKey = identityKey).head?

/-- The baskets of a user that are not deleted, `ORDER BY name ASC`. -/
def findBaskets (userID : UserID) : List BasketRow :=
  (st.baskets.select fun b => b.userID = userID && !b.deleted).insertionSort fun a b =>
      a.name ≤ b.name

def outpointSpendable (op : Outpoint) : Bool := (st.db.utxo.get op).any Row.spendable

end SyncStore

/-- The baskets in their order, numbered from one. -/
def numberBaskets (baskets : List BasketRow) : List SyncBasket :=
  baskets.zipIdx.map fun b => ⟨b.2 + 1, b.1.toBasketConfiguration⟩

def nameToID (baskets : List SyncBasket) (name : String) : Option ℕ :=
  (baskets.find? fun b => b.config.name = name).map (·.basketID)

def idToName (baskets : List SyncBasket) (id : ℕ) : Option String :=
  (baskets.find? fun b => b.basketID = id).map (·.config.name)

def syncTx (r : TxRow) : SyncTx :=
  { transactionID := r.transactionID, status := r.status, reference := r.reference,
    isOutgoing := r.isOutgoing,
    satoshis := r.satoshis, txid := r.txid }

/-- An output as it travels; one that is not change is never called spendable. -/
def SyncStore.syncOutput (st : SyncStore) (baskets : List SyncBasket) (o : OutputRow)
    (txid : Option TxID) :
    SyncOutput :=
  { transactionID := o.transactionID, txid := txid, vout := o.vout, satoshis := o.satoshis,
    lockingScript := o.lockingScript, basketID := o.basket.bind (nameToID baskets),
        spentBy := o.spentBy,
    change := o.change, spendable := o.change && txid.any fun t => st.outpointSpendable ⟨t, o.vout⟩,
    providedBy := o.providedBy }

/-- All of a user's rows. -/
def SyncStore.syncChunk (st : SyncStore) (userID : UserID) : SyncChunk :=
  let baskets := numberBaskets (st.findBaskets userID)
  { outputBaskets := baskets
    transactions := (st.db.metadata.transactions.select fun r => r.userID = userID).map syncTx
    outputs := (st.db.metadata.outputs.select fun o => o.userID = userID).filterMap fun o =>
      (st.db.metadata.transactions.get? o.transactionID).map fun r =>
          st.syncOutput baskets o r.txid }

def getSyncChunk (storageIdentityKey : String) (args : RequestSyncChunkArgs) (st : SyncStore) :
    Except Err SyncChunk :=
  if storageIdentityKey ≠ "" ∧ args.fromStorageIdentityKey ≠ ""
      ∧ args.fromStorageIdentityKey ≠ storageIdentityKey then
    .error (.refused "storage: sync from-key is not this storage")
  else
    match st.findByIdentityKey args.identityKey with
    | none => .error (.refused "storage: sync unknown user")
    | some user => .ok (st.syncChunk user.userID)

/-! ## Unpacking it -/

namespace Storage

variable {α : Type}

abbrev SyncWork := Uow Err SyncStore

/-- A statement on the two stores. -/
def onDb (x : Work α) : SyncWork α := fun s =>
  let (a, s') := x { s with db := s.db.db }
  (a, { s' with db := { s.db with db := s'.db } })

def findOrInsertUser (identityKey : String) : SyncWork UserID :=
  Uow.stmt .io fun _ st =>
    match st.findByIdentityKey identityKey with
    | some user => (.ok user.userID, st)
    | none => (.ok st.nextUserID,
        { st with users := st.users.insert ⟨st.nextUserID, identityKey⟩,
                  nextUserID := st.nextUserID + 1 })

/-- A basket that is there takes the new numbers if it is to be overwritten. -/
def upsertBasket (userID : UserID) (cfg : BasketConfiguration) (overwrite : Bool) : SyncWork Unit :=
  Uow.stmt .io fun _ st => (.ok (), { st with
    baskets := (st.baskets.update (fun b => (b.userID = userID && b.name = cfg.name) && overwrite)
      (fun b => { b with numberOfDesiredUTXOs := cfg.numberOfDesiredUTXOs
                         minimumDesiredUTXOValue := cfg.minimumDesiredUTXOValue }) fun _ =>
                             rfl).insert
        { cfg with userID := userID, deleted := false } })

def findOrCreateBasket (userID : UserID) (name : String) : SyncWork Unit :=
  upsertBasket userID ⟨name, 0, 0⟩ false

/-- What the loops of `ProcessSyncChunk` carry along. -/
structure SyncAcc where
  oldToNew : List (TransactionID × TransactionID)
  inserts : ℕ
  updates : ℕ
  deriving DecidableEq, Repr

/-- A transaction of the chunk is stored once. -/
def processTransaction (userID : UserID) (acc : SyncAcc) (t : SyncTx) : SyncWork SyncAcc := do
  match ← onDb (TransactionsRepo.findByReference userID t.reference) with
  | some _ => return { acc with updates := acc.updates + 1 }
  | none =>
    let id ← onDb (TransactionsRepo.insert
      { userID := userID, status := t.status, reference := t.reference, isOutgoing := t.isOutgoing,
        satoshis := t.satoshis })
    match t.txid with
    | some txid => onDb (TransactionsRepo.setTxID id txid)
    | none => pure ()
    return { acc with oldToNew := (t.transactionID, id) :: acc.oldToNew,
                      inserts := acc.inserts + 1 }

/-- The row of a synced output, with its spender where that could be translated. -/
def insertSyncedOutput (o : NewOutput) (spentBy : Option TransactionID) (m : Metadata) :
    Except Err OutputID × Metadata :=
  let (id, m) := m.insertOutput o
  (id, { m with
    outputs := m.outputs.update (fun r => id.toOption = some r.outputID) (fun r =>
        { r with spentBy := spentBy })
      fun _ => rfl })

def insertSynced (o : NewOutput) (spentBy : Option TransactionID) : Work OutputID :=
  metaStmt fun _ => insertSyncedOutput o spentBy

def syncMint (userID : UserID) (basket : String) (txid : TxID) (o : SyncOutput) : Mint :=
  { outpoint := ⟨txid, o.vout⟩, userID := userID, basket := basket, satoshis := o.satoshis,
    inputSize := defaultP2PKHInputSize, tier := .mined }

def syncedRow (userID : UserID) (transactionID : TransactionID) (basket : String) (o : SyncOutput) :
    NewOutput :=
  { userID := userID, transactionID := transactionID, vout := o.vout, satoshis := o.satoshis,
    lockingScript := o.lockingScript, basket := some basket, change := o.change, providedBy :=
      o.providedBy }

/-- Answers whether the output was minted. -/
def applySyncedOutput (userID : UserID) (transactionID : TransactionID) (basket : String)
    (spentBy : Option TransactionID) (o : SyncOutput) : SyncWork Bool := do
  let basket := if basket = "" then basketNameForChange else basket
  findOrCreateBasket userID basket
  let _ ← onDb (insertSynced (syncedRow userID transactionID basket o) spentBy)
  match o.txid with
  | none => return false
  | some txid =>
    if !o.change || !o.spendable || o.spentBy.isSome then return false
    else
      let errs ← onDb (UtxoStore.mint [syncMint userID basket txid o])
      onDb (failOn (errs.findSome? id))
      return true

def syncedBasket (baskets : List SyncBasket) (o : SyncOutput) : String :=
  match o.basketID.bind (idToName baskets) with
  | some name => if name = "" then basketNameForChange else name
  | none => basketNameForChange

/-- An output whose transaction was not inserted is passed over. -/
def processOutput (userID : UserID) (baskets : List SyncBasket) (acc : SyncAcc) (o : SyncOutput) :
    SyncWork SyncAcc :=
  match acc.oldToNew.lookup o.transactionID with
  | none => return acc
  | some transactionID => do
    let _ ← applySyncedOutput userID transactionID (syncedBasket baskets o)
      (o.spentBy.bind fun id => acc.oldToNew.lookup id) o
    return { acc with inserts := acc.inserts + 1 }

structure ProcessSyncChunkResult where
  done : Bool
  inserts : ℕ
  updates : ℕ
  deriving DecidableEq, Repr

/-- The three parts of a chunk, in order. -/
def processChunk (userID : UserID) (chunk : SyncChunk) : SyncWork SyncAcc := do
  chunk.outputBaskets.forM fun b => upsertBasket userID b.config true
  let acc ← chunk.transactions.foldlM (processTransaction userID) ⟨[], 0, 0⟩
  chunk.outputs.foldlM (processOutput userID chunk.outputBaskets) acc

def processSyncChunk (mode : Mode) (identityKey : String) (chunk : SyncChunk) :
    SyncWork ProcessSyncChunkResult := do
  let userID ← findOrInsertUser identityKey
  let acc ← Uow.atomically (fun before after =>
      { before with db := rollback mode before.db after.db })
    (processChunk userID chunk)
  return { done := chunk.transactions = [] && chunk.outputs = [], inserts := acc.inserts,
           updates := acc.updates }

end Storage

end ArcadeToolbox
