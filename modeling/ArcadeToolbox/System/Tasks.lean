import ArcadeToolbox.Lib.Pool
import ArcadeToolbox.Storage.Create
import ArcadeToolbox.Storage.Internalize
import ArcadeToolbox.Storage.Reconciler
import ArcadeToolbox.Storage.Sweeps

/-!
# The wallet as a system of interleaved operations

Every call of the provider and every sweep of the monitor is cut into tasks, each one read, one unit
of work or one call of the oracle. A task carries what the operation has read so far. The sweeps put
a `mark` after each item, where a failure stops.
-/

namespace ArcadeToolbox

open Txn Storage

/-- Who sends: a caller's ProcessAction, or the sweep. -/
inductive Sender where
  | user (userID : UserID)
  | sweep
  deriving DecidableEq, Repr

/-- A release plan while it is put together. -/
structure PlanDraft where
  txid : TxID
  terminalKnown : TerminalStatus
  refs : List Token
  todo : List Outpoint
  realInputs : List Outpoint
  phantomInputs : List Outpoint

/-- The settings of a reconciler pass. -/
structure Reconcile where
  grace : ℤ
  maxQuarantine : ℤ

/-- Where a thread stands, between two units of work. -/
inductive Task where
  -- CreateAction
  | create (userID : UserID) (args : CreateActionArgs)
  | createResolve (userID : UserID) (args : CreateActionArgs) (reference : Token)
      (todo : List CreateActionInput) (done : List ResolvedInput)
  | createCount (userID : UserID) (args : CreateActionArgs) (reference : Token)
      (provided : List ResolvedInput)
  | createDirect (userID : UserID) (args : CreateActionArgs) (reference : Token)
      (provided : List ResolvedInput) (fa : FundArgs)
  | createReserve (userID : UserID) (args : CreateActionArgs) (reference : Token)
      (provided : List ResolvedInput) (fa : FundArgs)
  | createFund (userID : UserID) (args : CreateActionArgs) (reference : Token)
      (provided : List ResolvedInput)
      (prog : Prog StoreCall StoreCall.Answer (Except FundErr FundResult))
  | createPersist (userID : UserID) (args : CreateActionArgs) (reference : Token)
      (provided : List ResolvedInput) (fundRes : FundResult)
  | createRelease (userID : UserID) (reference : Token)
  -- ProcessAction
  | process (userID : UserID) (args : ProcessActionArgs)
  | processFind (userID : UserID) (args : ProcessActionArgs)
  | processValidate (userID : UserID) (args : ProcessActionArgs) (reference : Token) (rawTx : RawTx)
      (row : TxRow)
  | processCommit (userID : UserID) (args : ProcessActionArgs) (reference : Token) (rawTx : RawTx)
      (row : TxRow)
  | processSend (userID : UserID) (args : ProcessActionArgs)
  | queueDelayed (txid : TxID)
  | queueRefused (txid : TxID)
  | broadcastLoad (userID : UserID) (txid : TxID)
  | claim (sender : Sender) (txid : TxID) (rawTx : RawTx) (known : ProvenTxReqStatus)
  | claimRefused (sender : Sender) (txid : TxID) (rawTx : RawTx) (recovering : Bool)
  | reclaim (sender : Sender) (txid : TxID) (rawTx : RawTx)
  | post (sender : Sender) (txid : TxID) (rawTx : RawTx)
  | acceptFind (txid : TxID) (rawTx : RawTx)
  | acceptCommit (txid : TxID) (rawTx : RawTx) (row : TxRow)
  | rejectFind (userID : UserID) (txid : TxID) (extraInfo : String)
  | rejectCommit (userID : UserID) (txid : TxID) (extraInfo : String) (row : Option TxRow)
  | rejectMark (txid : TxID) (status : ArcadeStatus) (extraInfo : String)
  -- the send sweep
  | sendWaiting (limit : ℕ)
  | sendOne (k : KnownTx)
  -- aborts and the stale-reservation sweep
  | abort (userID : UserID) (reference : Token)
  | abortByTxID (userID : UserID) (txid : TxID)
  | abortTx (userID : UserID) (row : TxRow)
  | inline (ops : List QueuedOp)
  | abortAbandoned (olderThan : Time) (limit : ℕ)
  | sweepStale (olderThan : Time) (limit : ℕ)
  | sweepRef (ref : ReservationRef)
  | sweepPins (ref : ReservationRef) (todo : List Outpoint)
  | sweepOrphan (ref : ReservationRef)
  | healUnpin (ref : ReservationRef)
  | healRelease (ref : ReservationRef)
  | healDone (ref : ReservationRef)
  -- status records
  | status (rec : TxRecord)
  | seen (rec : TxRecord)
  | mined (rec : TxRecord)
  | minedCommit (rec : TxRecord) (proof : Proof)
  | rejected (rec : TxRecord)
  | record (txid : TxID) (status : ArcadeStatus)
  | repair (rec : TxRecord) (k : KnownTx)
  | repairFind (k : KnownTx) (spender : TxID) (proof : Proof)
  | repairCommit (k : KnownTx) (spender : TxID) (row : Option TxRow) (proof : Proof)
  | batch (recs : List TxRecord)
  | batchCommit (plan : BatchPlan)
  -- InternalizeAction
  | internalize (userID : UserID) (args : InternalizeActionArgs)
  | internalizeCommit (userID : UserID) (plan : InternalizePlan)
  -- the reconciler
  | reconcile (cfg : Reconcile) (limit : ℕ)
  | suspect (cfg : Reconcile) (k : KnownTx)
  | leave (cfg : Reconcile) (k : KnownTx)
  | stamp (txid : TxID)
  | freezeFind (txid : TxID)
  | freeze (ops : List Outpoint)
  | unfreezeFind (txid : TxID)
  | unfreeze (ops : List Outpoint)
  | conflict (cfg : Reconcile) (k : KnownTx) (rec : TxRecord)
  | conflictWinners (cfg : Reconcile) (k : KnownTx) (rec : TxRecord) (first : TxID → GetTxResult)
  | conflictLocal (cfg : Reconcile) (k : KnownTx) (rec : TxRecord) (todo : List TxID)
      (ans : ConflictAnswers)
  | planRefs (draft : PlanDraft)
  | planSource (draft : PlanDraft)
  | planChange (draft : PlanDraft)
  | release (plan : ReleasePlan)
  -- the outbox
  | drain (limit : ℕ)
  -- the polls, reorganisations and relinquishing
  | pollFind (cutoff : Time) (limit : ℕ) (statuses : List ProvenTxReqStatus)
  | poll (kts : List KnownTx)
  | pollApply (kts : List KnownTx)
  | repairBacklog (limit : ℕ)
  | repairPolled (kts : List KnownTx)
  | repairOne (k : KnownTx)
  | demote (height : ℕ)
  | demoteOne (k : KnownTx)
  | relinquish (userID : UserID) (basket : String) (op : Outpoint)
  /-- where a failure of one item of a sweep stops -/
  | mark

/-- The items of a sweep, each on its own. -/
def Task.items {α : Type} (f : α → Task) (l : List α) : Next Task :=
  .go (l.flatMap fun a => [f a, .mark])

namespace Storage

variable (p : Provider) (env : Env)

/-- A unit of work with nothing to follow. -/
def last (x : Work Unit) : Work (Next Task) := do
  x
  return .go []

/-! ## Creating and processing -/

/-- The start of `CreateAction`. -/
def runCreate (userID : UserID) (args : CreateActionArgs) : Work (Next Task) :=
  return .go [.createResolve userID args env.reference args.inputs []]

def runCreateResolve (userID : UserID) (args : CreateActionArgs) (reference : Token)
    (todo : List CreateActionInput) (done : List ResolvedInput) : Work (Next Task) := do
  match todo with
  | [] => return .go [.createCount userID args reference done]
  | i :: todo =>
    let ri ← resolveProvidedInput env userID i
    return .go [.createResolve userID args reference todo (done ++ [ri])]

def runCreateCount (userID : UserID) (args : CreateActionArgs) (reference : Token)
    (provided : List ResolvedInput) : Work (Next Task) := do
  let count ← changeBasketCount p userID
  match fundArgs p userID reference args provided count with
  | .error e => throw e
  | .ok fa => match p.mode with
    | .a => return .go [.createDirect userID args reference provided fa]
    | .b => return .go [.createReserve userID args reference provided fa]

def runCreateReserve (userID : UserID) (args : CreateActionArgs) (reference : Token)
    (provided : List ResolvedInput) (fa : FundArgs) : Work (Next Task) := do
  match ← Uow.attempt (reserveProvidedInputs userID reference (walletOwnedOutpoints provided)) with
  | .ok _ => return .go [.createFund userID args reference provided (fundProg p fa)]
  | .error _ => return .go [.createRelease userID reference]

/-- One call of the funder. -/
def runCreateFund (userID : UserID) (args : CreateActionArgs) (reference : Token)
    (provided : List ResolvedInput)
    (prog : Prog StoreCall StoreCall.Answer (Except FundErr FundResult)) : Work (Next Task) :=
  match prog with
  | .done (.ok r) => return .go [.createPersist userID args reference provided r]
  | .done (.error e) => throw (.fund e)
  | .call c k => do
    let a ← UtxoStore.runCall p.funding.prober c
    return .go [.createFund userID args reference provided (k a)]

def runCreatePersist (userID : UserID) (args : CreateActionArgs) (reference : Token)
    (provided : List ResolvedInput) (fundRes : FundResult) : Work (Next Task) := do
  match ← Uow.attempt (doUnit .b (persistCreateAction p env userID reference args provided fundRes))
      with
  | .ok _ => return .go []
  | .error _ => return .go [.createRelease userID reference]

/-- The start of `ProcessAction`. -/
def runProcess (userID : UserID) (args : ProcessActionArgs) : Work (Next Task) :=
  let args := if p.immediateBroadcast then { args with isDelayed := false } else args
  return .go ((if args.isNewTx then [.processFind userID args]
      else []) ++ [.processSend userID args])

def runProcessFind (userID : UserID) (args : ProcessActionArgs) : Work (Next Task) := do
  let (reference, rawTx, row) ← processFind userID args
  return .go [.processValidate userID args reference rawTx row]

def runProcessValidate (userID : UserID) (args : ProcessActionArgs) (reference : Token)
    (rawTx : RawTx) (row : TxRow) : Work (Next Task) := do
  processValidate p env rawTx row
  return .go [.processCommit userID args reference rawTx row]

def runProcessSend (userID : UserID) (args : ProcessActionArgs) : Work (Next Task) :=
  if args.isNoSend ∧ args.sendWith = [] then return .go []
  else if args.isDelayed then return .go ((broadcastTxIDs args).map .queueDelayed)
  else return .go ((broadcastTxIDs args).map (.broadcastLoad userID))

def runQueueDelayed (txid : TxID) : Work (Next Task) := do
  match ← Uow.attempt (queueDelayed txid) with
  | .ok _ | .error .notFound => return .go []
  | .error .skipped => return .go [.queueRefused txid]
  | .error e => throw e

def runQueueRefused (txid : TxID) : Work (Next Task) := do
  let st ← statusBehindRefusal txid
  require (st.wasBroadcastStatus || st = .sending) (.refused "storage: not broadcastable")
  return .go []

/-! ## Sending -/

def runBroadcastLoad (userID : UserID) (txid : TxID) : Work (Next Task) := do
  let (known, rawTx) ← loadForBroadcast env txid
  return .go [.claim (.user userID) txid rawTx known]

/-- The claim to send, from the status that was read. -/
def runClaim (sender : Sender) (txid : TxID) (rawTx : RawTx) (known : ProvenTxReqStatus) :
    Work (Next Task) := do
  match ← Uow.attempt (claimSend txid known) with
  | .ok _ => return .go [.post sender txid rawTx]
  | .error .skipped => return .go [.claimRefused sender txid rawTx (known = .sending)]
  | .error e => throw e

def runClaimRefused (sender : Sender) (txid : TxID) (rawTx : RawTx) (recovering : Bool) :
    Work (Next Task) := do
  let st ← statusBehindRefusal txid
  if st.wasBroadcastStatus then return .go []
  else
    require (st = .sending) (.refused "storage: not broadcastable")
    return .go (if recovering then [] else [.reclaim sender txid rawTx])

def runReclaim (sender : Sender) (txid : TxID) (rawTx : RawTx) : Work (Next Task) := do
  match ← Uow.attempt (KnownTxRepo.reclaimStaleSend txid resendGrace) with
  | .ok _ => return .go [.post sender txid rawTx]
  | .error .skipped => return .go []
  | .error e => throw e

/-- The bytes go to the oracle. -/
def runPost (sender : Sender) (txid : TxID) (rawTx : RawTx) : Work (Next Task) := do
  match env.broadcast with
  | .failed => return .go []
  | .accepted =>
    note (.accepted txid)
    return .go [.acceptFind txid rawTx]
  | .rejected st extraInfo =>
    match sender with
    | .user userID => return .go [.rejectFind userID txid extraInfo]
    | .sweep => return .go [.rejectMark txid st extraInfo]

def runAcceptFind (txid : TxID) (rawTx : RawTx) : Work (Next Task) := do
  return .go [.acceptCommit txid rawTx (← acceptedRow txid)]

def runRejectFind (userID : UserID) (txid : TxID) (extraInfo : String) : Work (Next Task) := do
  let rows ← TransactionsRepo.findByTxID userID txid
  return .go [.rejectCommit userID txid extraInfo rows.head?]

def runRejectMark (txid : TxID) (st : ArcadeStatus) (extraInfo : String) : Work (Next Task) := do
  let t ← now
  tolerate [.notFound] (KnownTxRepo.markSuspect txid t [] st extraInfo)
  return .go []

/-- The sweep sends its items concurrently. -/
def runSendWaiting (limit : ℕ) : Work (Next Task) := do
  let waiting ← KnownTxRepo.findResendable resendGrace limit
  return .fork (waiting.map fun k => [.sendOne k])

def runSendOne (k : KnownTx) : Work (Next Task) := do
  let rawTx ← orThrow k.rawTx (.refused "no stored raw tx")
  require env.scriptsOk (.refused "script verification failed")
  return .go [.claim .sweep k.txid rawTx k.status]

/-! ## Aborting -/

def runAbort (userID : UserID) (reference : Token) : Work (Next Task) := do
  match ← abortFind userID reference with
  | some row =>
    require (abortable row) .notAbortable
    return .go [.abortTx userID row]
  | none =>
    require (reference.length = 64) .notAbortable
    return .go [.abortByTxID userID reference]

def runAbortByTxID (userID : UserID) (txid : TxID) : Work (Next Task) := do
  let found ← abortFindByTxID userID txid
  let row ← orThrow found .notAbortable
  require (abortable row) .notAbortable
  return .go [.abortTx userID row]

/-- The abort of one row. -/
def runAbortTx (userID : UserID) (row : TxRow) : Work (Next Task) := do
  match p.mode with
  | .a =>
    abortDirect userID row
    return .go []
  | .b => return .go [.inline (← abortEnqueue userID row)]

/-- The second unit of a two-phase write; its failure is left to the drain. -/
def runInlineOps (ops : List QueuedOp) : Work (Next Task) := do
  let _ ← Uow.attempt (runInline env p.mode ops)
  return .go []

def runAbortAbandoned (olderThan : Time) (limit : ℕ) : Work (Next Task) := do
  let rows ← TransactionsRepo.findAbandonedBefore olderThan limit
  return Task.items (fun row => .abortTx row.userID row) rows

/-! ## The stale-reservation sweep -/

def runSweepStale (olderThan : Time) (limit : ℕ) : Work (Next Task) := do
  return Task.items .sweepRef (← findStaleIncludingPinned olderThan limit)

def runSweepRef (ref : ReservationRef) : Work (Next Task) := do
  match ← TransactionsRepo.findByReference ref.userID ref.reservation with
  | none => return .go [.sweepPins ref ref.outpoints]
  | some row =>
    if row.status ∈ sweepAbortableStatuses then return .go [.abortTx ref.userID row]
    else if row.status = .aborted then return .go [.healUnpin ref]
    else return .go []

def runSweepPins (ref : ReservationRef) (todo : List Outpoint) : Work (Next Task) := do
  match todo with
  | [] => return .go [.sweepOrphan ref]
  | op :: todo => if ← pinState op then return .go [] else return .go [.sweepPins ref todo]

def runSweepOrphan (ref : ReservationRef) : Work (Next Task) := do
  let _ ← UtxoStore.releaseReservation ref.userID ref.reservation
  return .go []

/-- What an abort left behind is given back in two calls, and then its intent is retired. -/
def runHealUnpin (ref : ReservationRef) : Work (Next Task) := do
  let _ ← UtxoStore.unpin ref.userID ref.reservation
  return .go [.healRelease ref]

def runHealRelease (ref : ReservationRef) : Work (Next Task) := do
  let _ ← UtxoStore.releaseReservation ref.userID ref.reservation
  return .go [.healDone ref]

def runHealDone (ref : ReservationRef) : Work (Next Task) := do
  let _ ← Uow.attempt (OutboxRepo.markDone ⟨.abort ref.reservation, .abortRelease, 0⟩)
  return .go []

/-! ## Status records -/

/-- The start of `ApplyStatusUpdate`. -/
def runStatus (rec : TxRecord) : Work (Next Task) := do
  match ← statusLoad rec with
  | none => return .go []
  | some k =>
    match statusRoute k rec with
    | .ignore => return .go []
    | .recordOnly => return .go [.record rec.txid rec.status]
    | .seen => return .go [.seen rec]
    | .mined => return .go [.mined rec]
    | .repair => return .go [.repair rec k]
    | .rejected => return .go [.rejected rec]

/-- A merkle path that does not verify leaves everything as it was. -/
def runMined (rec : TxRecord) : Work (Next Task) := do
  match ← verifyRecord p env rec with
  | none => return .go []
  | some proof => return .go [.minedCommit rec proof]

/-- The oracle's word is recorded first, then the proof is looked at. -/
def runRepair (rec : TxRecord) (k : KnownTx) : Work (Next Task) := do
  repairRecord p rec
  match ← verifyRecord p env rec with
  | none => return .go []
  | some proof => return .go [.repairFind k rec.txid proof]

def runRepairFind (k : KnownTx) (spender : TxID) (proof : Proof) : Work (Next Task) := do
  return .go [.repairCommit k spender (← repairTxRow k.txid) proof]

/-- The start of `ApplyStatusBatch`. -/
def runBatch (recs : List TxRecord) : Work (Next Task) := do
  let known ← batchLoad recs
  let plan ← batchVerify p env known recs
  return .go (.batchCommit plan :: plan.fallback.map .status)

def runBatchCommit (plan : BatchPlan) : Work (Next Task) :=
  if plan.seen = [] ∧ plan.verified = [] ∧ plan.rejected = [] ∧ plan.arcadeOnly = [] then
    return .go []
  else last (applyBatch p plan)

def runInternalize (userID : UserID) (args : InternalizeActionArgs) : Work (Next Task) := do
  return .go [.internalizeCommit userID (← internalizePrepare p env userID args)]

/-! ## The reconciler -/

/-- One pass over the suspects. -/
def runReconcile (cfg : Reconcile) (limit : ℕ) : Work (Next Task) := do
  return Task.items (.suspect cfg) (← KnownTxRepo.findSuspectFailed cfg.grace limit)

/-- What follows a release that is put off. -/
def deferred (cfg : Reconcile) (k : KnownTx) : Next Task := .go [.freezeFind k.txid, .leave cfg k]

def startPlan (k : KnownTx) (terminal : TerminalStatus) (inputs : List Outpoint) : Next Task :=
  .go [.planRefs ⟨k.txid, terminal, [], inputs, [], []⟩]

def runRejectedSuspect (cfg : Reconcile) (k : KnownTx) (rec : TxRecord) : Work (Next Task) := do
  match k.verifiedRejectedAt with
  | none => return .go [.stamp k.txid]
  | some at_ =>
    if cfg.grace ≤ (← now) - at_ then
      if isSpendConflictRecord p rec then return .go [.conflict cfg k rec]
      else return startPlan k ⟨.invalidTx, rfl⟩ (txInputs p k)
    else return .go [.freezeFind k.txid]

def runSuspect (cfg : Reconcile) (k : KnownTx) : Work (Next Task) := do
  match (env.getTx k.txid).record k.txid with
  | none => return .go [.leave cfg k]
  | some rec =>
    if rec.status.isSeenClass || rec.status.isMinedClass then
      return .go [.unfreezeFind k.txid, .status rec]
    else if rec.status = .rejected then runRejectedSuspect p cfg k rec
    else if rec.status = .doubleSpendAttempted then return .go [.conflict cfg k rec]
    else return .go [.leave cfg k]

def runLeave (cfg : Reconcile) (k : KnownTx) : Work (Next Task) := do
  let t ← now
  if k.suspectSince.any fun since => cfg.maxQuarantine ≤ t - since then
      last (escalateStuck p k.txid)
  else return .go []

def runStamp (txid : TxID) : Work (Next Task) := do
  let t ← now
  KnownTxRepo.stampVerifiedRejected txid t
  return .go [.freezeFind txid]

def runFreezeFind (txid : TxID) : Work (Next Task) := do return .go [.freeze (← planChange txid)]

def runUnfreezeFind (txid : TxID) :
    Work (Next Task) := do return .go [.unfreeze (← planChange txid)]

def runConflict (cfg : Reconcile) (k : KnownTx) (rec : TxRecord) : Work (Next Task) :=
  return .go [.conflictWinners cfg k rec env.getTx]

def runConflictWinners (cfg : Reconcile) (k : KnownTx) (rec : TxRecord)
    (first : TxID → GetTxResult) : Work (Next Task) :=
  return .go [.conflictLocal cfg k rec (conflictSpenders p k rec) ⟨first, env.getTx, fun _ => none⟩]

/-- The local store is asked spender by spender; then the decision is made. -/
def runConflictLocal (cfg : Reconcile) (k : KnownTx) (rec : TxRecord) (todo : List TxID)
    (ans : ConflictAnswers) : Work (Next Task) := do
  match todo with
  | s :: todo =>
    let found := match ← Uow.attempt (KnownTxRepo.findByTxID s) with
      | .ok r => r
      | .error _ => none
    return .go [.conflictLocal cfg k rec todo
      { ans with known := fun t => if t = s then found else ans.known t }]
  | [] =>
    match conflictRelease p k rec ans with
    | .error _ => return deferred cfg k
    | .ok release => return startPlan k ⟨.doubleSpend, rfl⟩ release

def runPlanRefs (draft : PlanDraft) : Work (Next Task) := do
  return .go [.planSource { draft with refs := ← Storage.planRefs draft.txid }]

def runPlanSource (draft : PlanDraft) : Work (Next Task) := do
  match draft.todo with
  | [] => return .go [.planChange draft]
  | op :: todo =>
    if ← sourceTxDead op then
      return .go [.planSource { draft with
        todo := todo, phantomInputs := draft.phantomInputs ++ [op] }]
    else
      return .go [.planSource { draft with todo := todo, realInputs := draft.realInputs ++ [op] }]

def runPlanChange (draft : PlanDraft) : Work (Next Task) := do
  return .go [.release
    { txid := draft.txid, terminalKnown := draft.terminalKnown, refs := draft.refs,
      realInputs := draft.realInputs, phantomInputs := draft.phantomInputs,
      changeOps := ← Storage.planChange draft.txid }]

/-- The release that was planned. -/
def runRelease (plan : ReleasePlan) : Work (Next Task) := do
  match p.mode with
  | .a =>
    releaseDirect env plan
    return .go []
  | .b =>
    releaseEnqueue plan
    return .go [.inline (outboxOps plan)]

/-! ## Polls and reorganisations -/

def runPollFind (cutoff : Time) (limit : ℕ) (statuses : List ProvenTxReqStatus) :
    Work (Next Task) := do
  return .go [.poll (← KnownTxRepo.findByStatusOlderThan cutoff limit statuses)]

/-- Every selected row is stamped before anything else. -/
def runPoll (kts : List KnownTx) : Work (Next Task) := do
  let _ ← Uow.attempt (KnownTxRepo.markPolled (kts.map (·.txid)))
  return .go (if kts = [] then [] else [.pollApply kts])

def runPollApply (kts : List KnownTx) : Work (Next Task) :=
  return .go [.batch (kts.filterMap fun k => (env.getTx k.txid).record k.txid)]

def runRepairBacklog (limit : ℕ) : Work (Next Task) := do
  return .go [.repairPolled (← KnownTxRepo.findMinedOnDeadTransactions limit)]

def runRepairPolled (kts : List KnownTx) : Work (Next Task) := do
  let _ ← Uow.attempt (KnownTxRepo.markPolled (kts.map (·.txid)))
  return Task.items .repairOne kts

def runRepairOne (k : KnownTx) : Work (Next Task) := do
  match storedProofRecord k with
  | some rec => return .go [.repair rec k]
  | none =>
    match env.getTx k.txid with
    | .failed => throw .io
    | .notFound => return .go []
    | .found found =>
      let r := if found.txid = "" then { found with txid := k.txid } else found
      if r.status.isMinedClass then return .go [.repair r k]
      else return .go [.record k.txid r.status]

def runDemote (height : ℕ) : Work (Next Task) := do
  if p.hasHeaders then
    return Task.items .demoteOne (← KnownTxRepo.findProvenAtOrAbove height defaultMonitorBatchLimit)
  else return .go []

def runDemoteOne (k : KnownTx) : Work (Next Task) :=
  if reorged env k then last (demoteProof p k.txid) else return .go []

end Storage

/-- What a task does, and what it leaves to be done. -/
def Task.run (p : Provider) (env : Env) : Task → Work (Next Task)
  | .create u args => runCreate env u args
  | .createResolve u args ref todo done => runCreateResolve env u args ref todo done
  | .createCount u args ref provided => runCreateCount p u args ref provided
  | .createDirect u args ref provided fa =>
    last do let _ ← Storage.createDirect p env u ref args provided fa
  | .createReserve u args ref provided fa => runCreateReserve p u args ref provided fa
  | .createFund u args ref provided prog => runCreateFund p u args ref provided prog
  | .createPersist u args ref provided r => runCreatePersist p env u args ref provided r
  | .createRelease u ref => last (releaseReservationDetached u ref)
  | .process u args => runProcess p u args
  | .processFind u args => runProcessFind u args
  | .processValidate u args ref raw row => runProcessValidate p env u args ref raw row
  | .processCommit u args ref raw row => last (Storage.processCommit p u args ref raw row)
  | .processSend u args => runProcessSend u args
  | .queueDelayed t => runQueueDelayed t
  | .queueRefused t => runQueueRefused t
  | .broadcastLoad u t => runBroadcastLoad env u t
  | .claim sender t raw known => runClaim sender t raw known
  | .claimRefused sender t raw recovering => runClaimRefused sender t raw recovering
  | .reclaim sender t raw => runReclaim sender t raw
  | .post sender t raw => runPost env sender t raw
  | .acceptFind t raw => runAcceptFind t raw
  | .acceptCommit t raw row => last (applyAcceptedBroadcast p t raw row)
  | .rejectFind u t info => runRejectFind u t info
  | .rejectCommit u t info row => last (commitRejected p u t info row)
  | .rejectMark t st info => runRejectMark t st info
  | .sendWaiting limit => runSendWaiting limit
  | .sendOne k => runSendOne env k
  | .abort u ref => runAbort u ref
  | .abortByTxID u t => runAbortByTxID u t
  | .abortTx u row => runAbortTx p u row
  | .inline ops => runInlineOps p env ops
  | .abortAbandoned olderThan limit => runAbortAbandoned olderThan limit
  | .sweepStale olderThan limit => runSweepStale olderThan limit
  | .sweepRef ref => runSweepRef ref
  | .sweepPins ref todo => runSweepPins ref todo
  | .sweepOrphan ref => runSweepOrphan ref
  | .healUnpin ref => runHealUnpin ref
  | .healRelease ref => runHealRelease ref
  | .healDone ref => runHealDone ref
  | .status rec => runStatus rec
  | .seen rec => last (applySeen p rec)
  | .mined rec => runMined p env rec
  | .minedCommit rec proof => last (applyMined p rec proof)
  | .rejected rec => last (applyRejected rec)
  | .record t st => last (setArcadeStatus t st)
  | .repair rec k => runRepair p env rec k
  | .repairFind k spender proof => runRepairFind k spender proof
  | .repairCommit k spender row proof => last (commitMinedRepair p k spender row proof)
  | .batch recs => runBatch p env recs
  | .batchCommit plan => runBatchCommit p plan
  | .internalize u args => runInternalize p env u args
  | .internalizeCommit u plan => last (Storage.internalizeCommit p u plan)
  | .reconcile cfg limit => runReconcile cfg limit
  | .suspect cfg k => runSuspect p env cfg k
  | .leave cfg k => runLeave p cfg k
  | .stamp t => runStamp t
  | .freezeFind t => runFreezeFind t
  | .freeze ops => last (freezeOps ops)
  | .unfreezeFind t => runUnfreezeFind t
  | .unfreeze ops => last (unfreezeOps ops)
  | .conflict cfg k rec => runConflict env cfg k rec
  | .conflictWinners cfg k rec first => runConflictWinners p env cfg k rec first
  | .conflictLocal cfg k rec todo ans => runConflictLocal p cfg k rec todo ans
  | .planRefs draft => runPlanRefs draft
  | .planSource draft => runPlanSource draft
  | .planChange draft => runPlanChange draft
  | .release plan => runRelease p env plan
  | .drain limit => last (drainOutbox env p.mode limit)
  | .pollFind cutoff limit statuses => runPollFind cutoff limit statuses
  | .poll kts => runPoll kts
  | .pollApply kts => runPollApply env kts
  | .repairBacklog limit => runRepairBacklog limit
  | .repairPolled kts => runRepairPolled kts
  | .repairOne k => runRepairOne env k
  | .demote height => runDemote p height
  | .demoteOne k => runDemoteOne p env k
  | .relinquish u basket op => last (relinquishOutput p u basket op)
  | .mark => return .go []

/-! ## The system -/

/-- The databases, and the clock. -/
structure Shared where
  db : Db
  now : Time

/-- The calls of the provider and the sweeps of the monitor. -/
inductive Operation where
  | createAction (userID : UserID) (args : CreateActionArgs)
  | processAction (userID : UserID) (args : ProcessActionArgs)
  | abortAction (userID : UserID) (reference : Token)
  | abortAbandoned (olderThan : Time) (limit : ℕ)
  | sweepStaleReservations (olderThan : Time) (limit : ℕ)
  | sendWaitingTransactions (limit : ℕ)
  | applyStatusUpdate (rec : TxRecord)
  | applyStatusBatch (recs : List TxRecord)
  | internalizeAction (userID : UserID) (args : InternalizeActionArgs)
  | verifyAndReleaseSuspects (grace maxQuarantine : ℤ) (limit : ℕ)
  | drainOutbox (limit : ℕ)
  | synchronizeTransactionStatuses (cutoff : Time) (limit : ℕ)
  | checkProofs (cutoff : Time) (limit : ℕ)
  | demoteReorgedProofs (forkHeight : ℕ)
  | relinquishOutput (userID : UserID) (basket : String) (op : Outpoint)

/-- What an operation begins with. -/
def Operation.start : Operation → List Task
  | .createAction u args => [.create u args]
  | .processAction u args => [.process u args]
  | .abortAction u ref => [.abort u ref]
  | .abortAbandoned olderThan limit => [.abortAbandoned olderThan limit]
  | .sweepStaleReservations olderThan limit => [.sweepStale olderThan limit]
  | .sendWaitingTransactions limit => [.sendWaiting limit]
  | .applyStatusUpdate rec => [.status rec]
  | .applyStatusBatch recs => [.batch recs]
  | .internalizeAction u args => [.internalize u args]
  | .verifyAndReleaseSuspects grace maxQuarantine limit => [.reconcile ⟨grace, maxQuarantine⟩ limit]
  | .drainOutbox limit => [.drain limit]
  | .synchronizeTransactionStatuses cutoff limit => [.pollFind cutoff limit pollableStatuses]
  | .checkProofs cutoff limit =>
    [.pollFind cutoff limit unprovenStatuses, .mark, .repairBacklog limit]
  | .demoteReorgedProofs height => [.demote height]
  | .relinquishOutput u basket op => [.relinquish u basket op]

/-- One unit of work, and what comes next. -/
def Task.exec (p : Provider) (env : Env) (t : Task) (s : Shared) : Shared × Next Task :=
  match t.run p env ⟨s.db, s.now, env.beats, env.busy⟩ with
  | (.ok next, s') => (⟨s'.db, s'.now⟩, next)
  | (.error _, s') => (⟨s'.db, s'.now⟩, .fail)

def Task.handles : Task → Bool
  | .mark => true
  | _ => false

/-- The wallet. -/
def wallet (p : Provider) : Code Shared Task Env Operation :=
  { start := Operation.start, exec := Task.exec p, handles := Task.handles }

/-- The databases, and the threads. -/
abbrev System := Pool Shared Task
/-- An operation begins, or a thread takes its next step. -/
abbrev Step := Label Operation Env

/-- Nothing stored, nothing running. -/
def System.initial : System := ⟨⟨Db.empty, 0⟩, []⟩

end ArcadeToolbox
