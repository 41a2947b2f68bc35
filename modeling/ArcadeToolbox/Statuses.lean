import Mathlib.Data.Nat.Notation

/-!
# Statuses

Three status words describe a transaction: the wallet's own (`TxStatus`), the processing state of
the raw transaction shared by all users (`ProvenTxReqStatus`), and the word of the network oracle
(`ArcadeStatus`), which is an open enumeration with a lattice of allowed transitions.
-/

namespace ArcadeToolbox

/-- The status of a transaction of the wallet. -/
inductive TxStatus where
  | completed
  | failed
  | unprocessed
  | sending
  | unproven
  | unsigned
  | nosend
  | nonfinal
  | unfail
  | aborted
  deriving DecidableEq, Repr

/-- The last three are the ones the metadata store adds. -/
inductive ProvenTxReqStatus where
  | sending
  | unsent
  | nosend
  | unknown
  | nonfinal
  | unprocessed
  | unmined
  | callback
  | unconfirmed
  | completed
  | invalidTx
  | doubleSpend
  | unfail
  | reorg
  | suspectFailed
  | stuck
  | aborted
  deriving DecidableEq, Repr

namespace ProvenTxReqStatus

/-- Evidence that the network accepted the transaction; the statuses beyond the broadcast stage. -/
def wasBroadcastStatus : ProvenTxReqStatus → Bool
  | .unmined | .callback | .unconfirmed | .completed | .reorg => true
  | _ => false

def isTerminalFailure : ProvenTxReqStatus → Bool
  | .invalidTx | .doubleSpend => true
  | _ => false

/-- `ProvenTxReqBeyondBroadcastStageStatuses`. -/
def beyondBroadcastStage : List ProvenTxReqStatus :=
  [.unmined, .callback, .unconfirmed, .completed, .reorg]

/-- `knownTxPreBroadcastStatuses`: the bytes have certainly not been handed to the network. -/
def preBroadcast : List ProvenTxReqStatus := [.unsent, .unprocessed, .nosend]

/-- `KnownTxNeverRequeueStatuses`: from these a raw transaction is never queued again. -/
def neverRequeue : List ProvenTxReqStatus :=
  beyondBroadcastStage ++ [.aborted, .suspectFailed, .stuck, .invalidTx, .doubleSpend, .sending]

/-- The statuses at which the stored bytes may still be sent, or are being sent. -/
def broadcastable (st : ProvenTxReqStatus) : Bool := st ∈ preBroadcast || st = .sending

/-- Off the send paths for good: sent, aborted, suspect or dead. -/
def settled (st : ProvenTxReqStatus) : Bool := st ∈ neverRequeue && st ≠ .sending

variable {st : ProvenTxReqStatus}

theorem broadcastable_of_settled (h : st.settled = true) :
    st.broadcastable = false := by
  revert h
  cases st <;> decide

theorem settled_of_wasBroadcastStatus (h : st.wasBroadcastStatus = true) :
    st.settled = true := by
  revert h
  cases st <;> decide

theorem wasBroadcastStatus_iff :
    st.wasBroadcastStatus = true ↔ st ∈ beyondBroadcastStage := by
  cases st <;> decide

theorem not_mem_of_preBroadcast (h : st ∈ preBroadcast) :
    st ∉ neverRequeue := by
  revert h
  cases st <;> decide

end ProvenTxReqStatus

/-- The oracle's statuses; a word outside the known set is `other`. -/
inductive ArcadeStatus where
  | unknown
  | received
  | sentToNetwork
  | acceptedByNetwork
  | seenOnNetwork
  | seenMultipleNodes
  | doubleSpendAttempted
  | rejected
  | pendingRetry
  | stumpProcessing
  | mined
  | immutable
  | other (word : String)
  deriving DecidableEq, Repr

namespace ArcadeStatus

/-- The previous statuses from which a transition into the given one is forbidden. -/
def disallowedPreviousStatuses : ArcadeStatus → List ArcadeStatus
  | .unknown | .received =>
    [.sentToNetwork, .acceptedByNetwork, .seenOnNetwork, .seenMultipleNodes, .pendingRetry,
      .stumpProcessing, .rejected, .doubleSpendAttempted, .mined, .immutable]
  | .sentToNetwork =>
    [.sentToNetwork, .acceptedByNetwork, .seenOnNetwork, .seenMultipleNodes, .rejected,
      .doubleSpendAttempted, .mined, .immutable]
  | .acceptedByNetwork =>
    [.acceptedByNetwork, .seenOnNetwork, .seenMultipleNodes, .doubleSpendAttempted, .mined,
      .immutable]
  | .seenOnNetwork =>
    [.seenOnNetwork, .seenMultipleNodes, .pendingRetry, .doubleSpendAttempted, .mined, .immutable]
  | .seenMultipleNodes =>
    [.seenMultipleNodes, .pendingRetry, .doubleSpendAttempted, .mined, .immutable]
  | .pendingRetry =>
    [.seenOnNetwork, .seenMultipleNodes, .rejected, .doubleSpendAttempted, .mined, .immutable]
  | .stumpProcessing => [.rejected, .doubleSpendAttempted, .mined, .immutable]
  | .rejected | .doubleSpendAttempted => [.mined, .immutable]
  | .mined => [.immutable]
  | .immutable => []
  | .other _ => []

/-- `none` is the empty status of a row that has heard nothing yet. -/
def canSupersede (s : ArcadeStatus) : Option ArcadeStatus → Bool
  | none => true
  | some prev => prev = s || prev ∉ disallowedPreviousStatuses s

/-- Accepted by the network or seen on it. -/
def isSeenClass : ArcadeStatus → Bool
  | .seenOnNetwork | .seenMultipleNodes | .acceptedByNetwork => true
  | _ => false

def isMinedClass : ArcadeStatus → Bool
  | .mined | .immutable => true
  | _ => false

def isRejectedClass : ArcadeStatus → Bool
  | .rejected | .doubleSpendAttempted => true
  | _ => false

end ArcadeStatus

end ArcadeToolbox
