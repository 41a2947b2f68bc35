import ArcadeToolbox.Storage.Process

/-!
# InternalizeAction: crediting the outputs of a foreign transaction

The transaction comes with its ancestry, which is verified against the header source. Its outputs
are credited at the mined tier when it carries its own proof, and at the unproven tier when only
its ancestors do. The known transaction is written without a skip set.
-/

namespace ArcadeToolbox

open Txn

inductive InternalizeProtocol where
  | walletPayment
  | basketInsertion (basket : String)
  deriving DecidableEq, Repr

structure InternalizeOutput where
  outputIndex : ℕ
  protocol : InternalizeProtocol
  deriving DecidableEq, Repr

/-- The outputs of a transaction that are the wallet's. -/
structure InternalizeActionArgs where
  tx : RawTx
  outputs : List InternalizeOutput
  deriving DecidableEq, Repr

structure InternalizedOutput where
  vout : ℕ
  satoshis : ℕ
  lockingScript : Option Script
  basket : String
  change : Bool
  providedBy : ProvidedBy
  deriving DecidableEq, Repr

namespace Storage

variable (p : Provider)

def planInternalizedOutput (tx : Tx) (o : InternalizeOutput) : Option InternalizedOutput :=
  (tx.outputs[o.outputIndex]?).map fun txo =>
    match o.protocol with
    | .walletPayment =>
      { vout := o.outputIndex, satoshis := txo.satoshis, lockingScript := txo.lockingScript,
        basket := p.changeBasket, change := true, providedBy := .storage }
    | .basketInsertion basket =>
      { vout := o.outputIndex, satoshis := txo.satoshis, lockingScript := txo.lockingScript,
        basket := basket, change := false, providedBy := .you }

/-- The verified part of a call: the plans, the proof and the rows of the user that exist. -/
structure InternalizePlan where
  txid : TxID
  plans : List InternalizedOutput
  /-- what the change receipts add up to -/
  cumulative : ℤ
  proof : Option Proof
  reference : Token
  existing : Option TxRow
  deriving DecidableEq, Repr

/-- Everything before the unit of work; a proof that came along has been verified. -/
def internalizePrepare (env : Env) (userID : UserID) (args : InternalizeActionArgs) :
    Work InternalizePlan := do
  require env.beefOk (.refused "storage: beef verification failed (bad merkle proof)")
  let plans := args.outputs.filterMap (planInternalizedOutput p (p.ledger args.tx))
  require (plans.length = args.outputs.length) (.refused "storage: output index out of range")
  noteIf env.beefProof.isSome (.proven args.tx)
  let existing ← TransactionsRepo.findByTxID userID args.tx
  return { txid := args.tx, plans := plans,
           cumulative := ((plans.filter (·.change)).map fun pl => (pl.satoshis : ℤ)).sum,
           proof := env.beefProof, reference := env.reference, existing := existing.head? }

def internalizeTier (proof : Option Proof) : Tier := if proof.isSome then .mined else .unproven

/-- The coin of a credited output. -/
def internalizedMint (userID : UserID) (txid : TxID) (tier : Tier)
    (plan : InternalizedOutput) : Mint :=
  { outpoint := ⟨txid, plan.vout⟩, userID := userID, basket := plan.basket,
    satoshis := plan.satoshis, inputSize := defaultP2PKHInputSize, tier := tier }

def creditInternalizedOutput (userID : UserID) (transactionID : TransactionID) (txid : TxID)
    (tier : Tier) (plan : InternalizedOutput) : Work Unit := do
  let _ ← OutputsRepo.insert
    { userID := userID, transactionID := transactionID, vout := plan.vout,
      satoshis := plan.satoshis,
      lockingScript := plan.lockingScript, basket := some plan.basket, change := plan.change,
      providedBy := plan.providedBy }
  let errs ← UtxoStore.mint [internalizedMint userID txid tier plan]
  failOn (errs.findSome? id)

/-- The known transaction an internalized one is stored as. -/
def internalizedKnownTx (txid : TxID) (proof : Option Proof) : NewKnownTx :=
  { txid := txid, status := if proof.isSome then .completed else .unconfirmed,
    wasBroadcast := proof.isSome, rawTx := some txid, proof := proof }

/-- The transactions row of an internalized transaction. -/
def internalizedTx (userID : UserID) (plan : InternalizePlan) : NewTx :=
  { userID := userID, status := if plan.proof.isSome then .completed else .unproven,
    reference := plan.reference, isOutgoing := false, satoshis := plan.cumulative }

/-- The row the outputs are credited to: the user's own one, or a new one. -/
def internalizeRow (userID : UserID) (plan : InternalizePlan) : Work TransactionID := do
  match plan.existing with
  | some row => return row.transactionID
  | none =>
    let id ← TransactionsRepo.insert (internalizedTx userID plan)
    TransactionsRepo.setTxID id plan.txid
    return id

/-- The unit of work that stores it all. -/
def internalizeCommit (userID : UserID) (plan : InternalizePlan) : Work Unit :=
  doUnit p.mode do
    KnownTxRepo.upsert (internalizedKnownTx plan.txid plan.proof) []
    let id ← internalizeRow userID plan
    plan.plans.forM (creditInternalizedOutput userID id plan.txid (internalizeTier plan.proof))

end Storage

end ArcadeToolbox
