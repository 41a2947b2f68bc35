import ArcadeToolbox.Storage.Abort
import ArcadeToolbox.Storage.StatusUpdates

/-!
# The steps of the background sweeps

The stale-reservation sweep, the polls and the reorganisation handler. The sweeps read a work list
and then treat its items one by one, each against a store that has moved on.
-/

namespace ArcadeToolbox

open Txn

def sweepAbortableStatuses : List TxStatus := [.unsigned, .nosend]

def unprovenStatuses : List ProvenTxReqStatus := [.unconfirmed, .unmined, .callback]

def pollableStatuses : List ProvenTxReqStatus :=
  [.sending, .unprocessed, .unconfirmed, .unmined, .callback, .reorg]

def defaultMonitorBatchLimit : ℕ := 256

/-- The bytes of a hash; a text has one character for each byte. -/
def hashSize : ℕ := 32

/-- The record a stored proof stands for. -/
def storedProofRecord (k : KnownTx) : Option TxRecord :=
  k.proof.map fun _ =>
    { txid := k.txid, status := .mined, statusCode := 0, extraInfo := "", competingTxs := [],
      rawTx := none }

theorem txid_of_storedProofRecord {k : KnownTx} {rec : TxRecord}
    (h : storedProofRecord k = some rec) :
    rec.txid = k.txid := by
  obtain ⟨_, -, rfl⟩ := Option.map_eq_some_iff.mp h
  rfl

/-- A record without a txid is about the transaction that was asked for. -/
def GetTxResult.record (txid : TxID) : GetTxResult → Option TxRecord
  | .found rec => some (if rec.txid = "" then { rec with txid := txid } else rec)
  | _ => none

namespace Storage

variable (p : Provider)

def findStaleIncludingPinned (olderThan : Time) (limit : ℕ) : Work (List ReservationRef) :=
  utxoStmt fun _ s => (.ok (s.findStale olderThan limit true), s)

/-- Whether a coin of an orphan hold is pinned; a coin that is gone is not. -/
def pinState (op : Outpoint) : Work Bool :=
  utxoStmt fun _ s => (.ok ((s.get op).any (·.pinned)), s)

/-- A stored proof whose root is no longer that of the chain; a root that is no hash is passed
over. -/
def reorged (env : Env) (k : KnownTx) : Bool :=
  k.proof.any fun pr => pr.merkleRoot.length = hashSize && env.headerRoot pr.height
      ≠ some pr.merkleRoot

/-- The proof no longer stands. -/
def demoteProof (txid : TxID) : Work Unit :=
  doUnit p.mode do
    tolerate [.notFound] (KnownTxRepo.clearProof txid .unconfirmed)
    tolerate [.skipped] (TransactionsRepo.updateStatusByTxID txid .unproven [.completed])
    promoteChangeByTxID txid .unproven

/-- A coin that is reserved, spent or frozen stays in the inventory. -/
def relinquishOutput (userID : UserID) (basket : String) (op : Outpoint) : Work Unit :=
  doUnit p.mode do
    OutputsRepo.relinquishOutput userID basket op
    match ← Uow.attempt (UtxoStore.remove [op] false) with
    | .ok _ | .error (.batch _) => pure ()
    | .error e => throw e

end Storage

end ArcadeToolbox
