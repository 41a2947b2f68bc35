import ArcadeToolbox.Storage.Provider

/-!
# ProcessAction: storing a signed transaction and sending it

`processNewTx` reads the transactions row of the reference, checks the signed bytes against it, and
stores them in one unit of work. Broadcasting claims the known transaction, posts it and commits the
answer. Each definition here is one atomic step; the steps of a call are put together in the system.
-/

namespace ArcadeToolbox

open Txn

/-- A signed transaction, and whether it is to be sent. -/
structure ProcessActionArgs where
  isNewTx : Bool
  isNoSend : Bool
  isDelayed : Bool
  reference : Option Token
  txid : Option TxID
  /-- `none` if the bytes do not parse -/
  rawTx : Option RawTx
  sendWith : List TxID
  deriving DecidableEq, Repr

def newTxStatuses (args : ProcessActionArgs) : TxStatus × ProvenTxReqStatus :=
  if args.isNoSend then (.nosend, .nosend)
  else if args.isDelayed then (.unprocessed, .unsent)
  else (.sending, .unprocessed)

def broadcastTxIDs (args : ProcessActionArgs) : List TxID :=
  ((args.txid.toList ++ args.sendWith).filter (· ≠ "")).eraseDups

/-- `MinRequiredFee`. -/
def minRequiredFee (sizeBytes : ℕ) (satPerKB : ℤ) : ℕ :=
  if satPerKB ≤ 0 ∨ sizeBytes = 0 then 0
  else if sizeBytes * satPerKB.toNat / 1000 = 0 then 1
  else sizeBytes * satPerKB.toNat / 1000

/-- The fee of the finished transaction against the configured floor. An input whose source is not
available makes the fee unknowable, and the transaction passes. -/
def checkBroadcastFeeRate (rate : ℤ) (tx : Tx) (sourceSats : Outpoint → Option ℕ) : Option Err :=
  if rate ≤ 0 then none
  else if tx.inputs.any fun o => (sourceSats o).isNone then none
  else
    let inSats := (tx.inputs.filterMap sourceSats).sum
    let outSats := (tx.outputs.map (·.satoshis)).sum
    if outSats > inSats then some (.refused "outputs exceed inputs")
    else if minRequiredFee tx.size rate ≤ inSats - outSats then none
    else some (.refused "storage: transaction fee is below the configured broadcast floor")

/-- What is wrong with the signed transaction at an output row: only rows the caller provided, with
a script, are compared, and only their scripts. -/
def validateSignedOutput (tx : Tx) (row : OutputRow) : Option Err :=
  if row.providedBy ≠ .you ∨ row.lockingScript = none then none
  else match tx.outputs[row.vout]? with
    | none => some (.refused "storage: signed tx missing output")
    | some out =>
      if out.lockingScript = row.lockingScript then none
      else some (.refused "storage: signed tx output locking script mismatch")

/-- The coins of the change rows of a transaction, each in its own basket; a row without a basket
is not minted. -/
def changeMints (userID : UserID) (txid : TxID) (rows : List OutputRow) : List Mint :=
  rows.filterMap fun o => o.basket.map fun basket =>
    { outpoint := ⟨txid, o.vout⟩, userID := userID, basket := basket, satoshis := o.satoshis,
      inputSize := defaultP2PKHInputSize, tier := .sending }

namespace Storage

variable (p : Provider)

/-- Fail with the error, if there is one. -/
def refuse (o : Option Err) : Work Unit :=
  match o with
  | some e => throw e
  | none => pure ()

/-! ## Storing -/

/-- The first step of `processNewTx`: the row of the reference, if it admits a signer. -/
def processFind (userID : UserID) (args : ProcessActionArgs) : Work (Token × RawTx × TxRow) := do
  let reference ← orThrow args.reference (.refused "storage: process new tx requires a reference")
  let txid ← orThrow args.txid (.refused "storage: process new tx requires a txid")
  let rawTx ← orThrow args.rawTx (.refused "storage: parse raw tx")
  require (rawTx = txid) (.refused "storage: raw tx id does not match provided txid")
  let found ← TransactionsRepo.findByReference userID reference
  let row ← orThrow found (.refused "storage: no transaction for reference")
  require row.isOutgoing (.refused "storage: transaction is not outgoing")
  require (row.status ∈ [.unsigned, .unprocessed]) (.refused "storage: not signable")
  require (row.txid.all (· = rawTx)) .txidMismatch
  return (reference, rawTx, row)

/-- The second step: scripts, provided outputs and fee. -/
def processValidate (env : Env) (rawTx : RawTx) (row : TxRow) : Work Unit := do
  require env.scriptsOk (.refused "storage: script verification failed")
  let rows ← OutputsRepo.findOutputs none row.transactionID false
  refuse (rows.findSome? (validateSignedOutput (p.ledger rawTx)))
  refuse (checkBroadcastFeeRate p.minBroadcastFeeRate (p.ledger rawTx) env.sourceSats)

/-- The change goes to the inventory. -/
def mintChange (userID : UserID) (transactionID : TransactionID) (txid : TxID) : Work Unit := do
  let rows ← OutputsRepo.findOutputs (some userID) transactionID true
  unless changeMints userID txid rows = [] do
    let errs ← UtxoStore.mint (changeMints userID txid rows)
    failOn (errs.findSome? id)

/-- The metadata half of storing: the txid and the status of the row, and the known transaction. -/
def storeSigned (args : ProcessActionArgs) (txid : RawTx) (row : TxRow) : Work Unit := do
  TransactionsRepo.setTxID row.transactionID txid
  TransactionsRepo.updateStatus row.transactionID (newTxStatuses args).1 [.unsigned, .unprocessed]
  KnownTxRepo.upsert
    { txid := txid, status := (newTxStatuses args).2, wasBroadcast := false, rawTx := some txid,
      proof := none }
    ProvenTxReqStatus.neverRequeue
  note (.stored txid)

/-- The last step: the unit of work that makes the bytes broadcastable. The number of coins newly
pinned is not looked at. -/
def processCommit (userID : UserID) (args : ProcessActionArgs) (reference : Token) (txid : RawTx)
    (row : TxRow) : Work Unit :=
  doUnit p.mode do
    let _ ← UtxoStore.pin userID reference
    storeSigned args txid row
    mintChange userID row.transactionID txid

/-! ## Sending -/

def queueDelayed (txid : TxID) : Work Unit :=
  KnownTxRepo.updateStatus txid .unsent ProvenTxReqStatus.neverRequeue

/-- The status behind a refusal. -/
def statusBehindRefusal (txid : TxID) : Work ProvenTxReqStatus := do
  let found ← KnownTxRepo.findByTxID txid
  let k ← orThrow found (.refused "storage: known tx row vanished while it was being claimed")
  return k.status

/-- The known transaction to send, with its bytes. -/
def loadForBroadcast (env : Env) (txid : TxID) : Work (ProvenTxReqStatus × RawTx) := do
  let found ← KnownTxRepo.findByTxID txid
  let k ← orThrow found (.refused "storage: no stored raw tx")
  let rawTx ← orThrow k.rawTx (.refused "storage: no stored raw tx")
  require env.scriptsOk (.refused "storage: script verification failed")
  return (k.status, rawTx)

/-- The first attempt of `claimForBroadcast`. -/
def claimSend (txid : TxID) (known : ProvenTxReqStatus) : Work Unit :=
  if known = .sending then KnownTxRepo.reclaimStaleSend txid resendGrace
  else KnownTxRepo.claimForSend txid

/-- Record the spend of the inputs as a fact. Only an input that is not in the inventory may
fail. -/
def spendReservedInputs (txid : TxID) (rawTx : RawTx) (reference : Token) : Work Unit := do
  require (reference ≠ "") (.refused "storage: transaction row carries no reference")
  unless (p.ledger rawTx).inputs = [] do
    let errs ← UtxoStore.spend ((p.ledger rawTx).inputs.map fun o => ⟨o, reference, txid⟩) true
    failOn ((errs.filterMap id).find? fun e => !e.isNotFound)

/-- Record the spender on the user's output rows of the inputs. -/
def markInputsSpent (userID : UserID) (id : TransactionID) (rawTx : RawTx) : Work Unit := do
  unless (p.ledger rawTx).inputs = [] do
    let rows ← OutputsRepo.findOutputsByOutpoints userID (p.ledger rawTx).inputs
    let ids := (p.ledger rawTx).inputs.filterMap fun op =>
      (rows.find? (·.2 = op)).map (·.1.outputID)
    unless ids = [] do OutputsRepo.markSpent id ids

/-- The row whose reference an accepted broadcast spends under: the outgoing one if there is one. -/
def acceptedRow (txid : TxID) : Work TxRow := do
  let rows ← TransactionsRepo.findByTxIDAllUsers txid
  orThrow ((rows.find? (·.isOutgoing)).or rows.head?)
    (.refused "storage: accepted broadcast has no transaction row")

/-- What an accepted broadcast stores. -/
def applyAcceptedBroadcast (txid : TxID) (rawTx : RawTx) (row : TxRow) : Work Unit :=
  doUnit p.mode do
    spendReservedInputs p txid rawTx row.reference
    tolerate [.skipped] (TransactionsRepo.updateStatusByTxID txid .unproven
      [.sending, .nosend, .unproven, .unprocessed])
    tolerate [.skipped, .notFound] (KnownTxRepo.updateStatus txid .unconfirmed
      ProvenTxReqStatus.beyondBroadcastStage)
    markInputsSpent p row.userID row.transactionID rawTx

/-- The outpoints of a transaction's change. -/
def changeOutpoints (userID : UserID) (id : TransactionID) (txid : TxID) :
    Work (List Outpoint) := do
  let rows ← OutputsRepo.findOutputs (some userID) id true
  return (rows.filter (·.basket.isSome)).map fun o => ⟨txid, o.vout⟩

/-- What a rejected broadcast stores. -/
def commitRejected (userID : UserID) (txid : TxID) (extraInfo : String) (row : Option TxRow) :
    Work Unit :=
  doUnit p.mode do
    tolerate [.skipped] (TransactionsRepo.updateStatusByTxID txid .failed
      [.sending, .nosend, .unproven])
    let t ← now
    tolerate [.notFound] (KnownTxRepo.markSuspectFailed txid t extraInfo)
    match row with
    | none => pure ()
    | some r =>
      let ops ← changeOutpoints userID r.transactionID txid
      unless ops = [] do
        let _ ← UtxoStore.removeByMintTx txid ops

end Storage

end ArcadeToolbox
