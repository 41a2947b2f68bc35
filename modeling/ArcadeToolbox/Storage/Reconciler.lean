import ArcadeToolbox.Storage.Outbox

/-!
# The reconciler: finalizing dead transactions

A suspect is re-verified with the oracle. A provably dead one is finalized, and its inputs are
released: those the winners of a spend conflict did not take, and whose own source is alive. What
is released is planned before the unit of work that finalizes.
-/

namespace ArcadeToolbox

open Txn

/-- `txStatusesToFail`. -/
def txStatusesToFail : List TxStatus := [.sending, .nosend, .unproven, .unprocessed]

/-- `StatusConflict` of the oracle. -/
def arcStatusConflict : ℕ := 466

/-- Mined, as far as the oracle says. -/
def GetTxResult.winner : GetTxResult → Option TxRecord
  | .found rec => if rec.status.isMinedClass then some rec else none
  | _ => none

namespace Storage

variable (p : Provider)

/-! ## Spend conflicts -/

/-- `strings.ToLower(strings.TrimSpace(id))`. -/
def normalizeTxID (s : String) : TxID :=
  String.ofList ((((s.toList.dropWhile Char.isWhitespace).reverse.dropWhile
    Char.isWhitespace).reverse).map Char.toLower)

/-- Who else spends the inputs, each once. -/
def mergeSpenders (competing fromExtra : List String) : List TxID :=
  (((competing ++ fromExtra).map normalizeTxID).filter (· ≠ "")).eraseDups

def isSpendConflictRecord (rec : TxRecord) : Bool :=
  rec.competingTxs ≠ [] || rec.statusCode = arcStatusConflict
    || (p.parseSpendConflictExtra rec.extraInfo).conflict

def filterReleaseInputs (all spent : List Outpoint) : List Outpoint × ℕ :=
  (all.filter (· ∉ spent), (all.filter (· ∈ spent)).length)

def txInputs (k : KnownTx) : List Outpoint := (k.rawTx.map fun raw => (p.ledger raw).inputs).getD []

/-- A spender is mined, but its bytes are missing. -/
def hasConfirmedUnreadableWinner (getTx : TxID → GetTxResult) (spenders : List TxID) : Bool :=
  spenders.any fun s => (getTx s).winner.any fun rec => rec.rawTx.isNone

/-- The inputs of every confirmed winner, if there is one and all can be read. -/
def findWinnerInputs (getTx : TxID → GetTxResult) (spenders : List TxID) : Option (List Outpoint) :=
  let winners := spenders.filterMap fun s => (getTx s).winner
  if winners.any (·.rawTx.isNone) || winners = [] then none
  else some (winners.flatMap fun rec => (rec.rawTx.map fun raw => (p.ledger raw).inputs).getD [])

/-- The inputs of every spender whose bytes are in the local store; `known` is what the reads
answered. -/
def localWinnerInputs (known : TxID → Option KnownTx) (spenders : List TxID) :
    Option (List Outpoint) :=
  let raws := spenders.filterMap fun s => (known s).bind (·.rawTx)
  if raws = [] then none else some (raws.flatMap fun raw => (p.ledger raw).inputs)

/-- The spenders a conflict names. The stored competitors stand in for a record without any. -/
def conflictSpenders (k : KnownTx) (rec : TxRecord) : List TxID :=
  mergeSpenders (if rec.competingTxs = [] then k.competingTxs else rec.competingTxs)
    (p.parseSpendConflictExtra rec.extraInfo).spenders

/-- The answers `releaseSpendConflict` gets: the oracle is asked twice, then the local store. -/
structure ConflictAnswers where
  first : TxID → GetTxResult
  second : TxID → GetTxResult
  known : TxID → Option KnownTx

/-- The inputs a spend conflict releases, or why it is deferred. -/
def conflictRelease (k : KnownTx) (rec : TxRecord) (ans : ConflictAnswers) :
    Except String (List Outpoint) :=
  let spenders := conflictSpenders p k rec
  if hasConfirmedUnreadableWinner ans.first spenders then .error "double_spend_unreadable_winner"
  else
    let winners := findWinnerInputs p ans.second spenders
    let locals := localWinnerInputs p ans.known spenders
    let spent := (p.parseSpendConflictExtra rec.extraInfo).spent ++ winners.getD []
        ++ locals.getD []
    if spent = [] then .error "nothing proven spent"
    else
      let (release, held) := filterReleaseInputs (txInputs p k) spent
      if held = 0 then .error "spend_conflict_foreign_outpoint"
      else if !(winners.isSome || locals.isSome) && release ≠ [] then
        .error "spend_conflict_unresolved_winner"
      else .ok release

/-! ## The release plan -/

/-- What a dead transaction is finalized as. -/
abbrev TerminalStatus := {st : ProvenTxReqStatus // st.isTerminalFailure = true}

/-- What is to be undone of a failed transaction. -/
structure ReleasePlan where
  txid : TxID
  terminalKnown : TerminalStatus
  refs : List Token
  realInputs : List Outpoint
  phantomInputs : List Outpoint
  changeOps : List Outpoint
  deriving DecidableEq

def isDeadSource (k : KnownTx) : Bool := k.status.isTerminalFailure || k.status = .stuck

/-- The plan reads one after the other; a read that fails counts as empty. -/
def planRefs (txid : TxID) : Work (List Token) := do
  match ← Uow.attempt (TransactionsRepo.findByTxIDAllUsers txid) with
  | .ok rows => return rows.map (·.reference)
  | .error _ => return []

def sourceTxDead (op : Outpoint) : Work Bool := do
  match ← Uow.attempt (KnownTxRepo.findByTxID op.txid) with
  | .ok k => return k.any isDeadSource
  | .error _ => return false

def planChange (txid : TxID) : Work (List Outpoint) := do
  match ← Uow.attempt (OutputsRepo.findChangeOutputsByTxIDs [txid]) with
  | .ok rows => return (rows.filter (·.1.basket.isSome)).map fun o => ⟨o.2, o.1.vout⟩
  | .error _ => return []

/-! ## Committing -/

def failTransactions (txid : TxID) : Work Unit :=
  tolerate [.skipped] (TransactionsRepo.updateStatusByTxID txid .failed txStatusesToFail)

/-- The gate: only a suspect is finalized. -/
def gateAndFinalizeStatuses (plan : ReleasePlan) : Work Unit := do
  KnownTxRepo.transitionSuspect plan.txid plan.terminalKnown.1
  note (.finalized plan.txid)
  failTransactions plan.txid

/-- What is undone, without the outbox. -/
def applyReleaseOpsDirect (env : Env) (plan : ReleasePlan) : Work Unit := do
  doUnspend plan.txid plan.realInputs
  plan.refs.forM fun r => doReleaseOutpoints r plan.realInputs
  doRemovePhantom plan.phantomInputs
  doRemoveMinted env plan.txid plan.changeOps

/-- Mode A. -/
def releaseDirect (env : Env) (plan : ReleasePlan) : Work Unit :=
  doUnit .a do
    gateAndFinalizeStatuses plan
    applyReleaseOpsDirect env plan

/-- Empty operations are left out. -/
def outboxOps (plan : ReleasePlan) : List QueuedOp :=
  (if plan.realInputs = [] then [] else
    ⟨.tx plan.txid, 0, .unspend plan.txid plan.realInputs⟩ ::
      plan.refs.mapIdx fun i r => ⟨.tx plan.txid, i, .release r plan.realInputs⟩)
  ++ (if plan.phantomInputs = [] then [] else
    [⟨.tx plan.txid, 0, .removePhantom plan.phantomInputs⟩])
  ++ (if plan.changeOps = [] then [] else
    [⟨.tx plan.txid, 0, .removeMinted plan.txid plan.changeOps⟩])

theorem mem_outboxOps {plan : ReleasePlan} {q : QueuedOp} (h : q ∈ outboxOps plan) :
    q = ⟨.tx plan.txid, 0, .unspend plan.txid plan.realInputs⟩
    ∨ (∃ i r, plan.refs[i]? = some r ∧ q = ⟨.tx plan.txid, i, .release r plan.realInputs⟩)
    ∨ q = ⟨.tx plan.txid, 0, .removePhantom plan.phantomInputs⟩
    ∨ q = ⟨.tx plan.txid, 0, .removeMinted plan.txid plan.changeOps⟩ := by
  simp only [outboxOps, List.mem_append] at h
  rcases h with (h | h) | h <;> split at h <;> first | cases h; done | skip
  · rcases List.mem_cons.mp h with rfl | h
    · exact Or.inl rfl
    · obtain ⟨i, hi, rfl⟩ := List.mem_mapIdx.mp h
      exact Or.inr (Or.inl ⟨i, _, List.getElem?_eq_getElem hi, rfl⟩)
  · exact Or.inr (Or.inr (Or.inl (List.mem_singleton.mp h)))
  · exact Or.inr (Or.inr (Or.inr (List.mem_singleton.mp h)))

/-- Mode B, first unit; the second is `runInline`. -/
def releaseEnqueue (plan : ReleasePlan) : Work Unit :=
  doUnit .b do
    gateAndFinalizeStatuses plan
    enqueueAll (outboxOps plan)

def escalateStuck (txid : TxID) : Work Unit :=
  doUnit p.mode do
    KnownTxRepo.transitionSuspect txid .stuck
    failTransactions txid

/-- Best effort: the answer of the store is not looked at. -/
def freezeOps (ops : List Outpoint) : Work Unit := do
  unless ops = [] do
    let _ ← Uow.attempt (UtxoStore.freeze ops)

def unfreezeOps (ops : List Outpoint) : Work Unit := do
  unless ops = [] do
    let _ ← Uow.attempt (UtxoStore.unfreeze ops)

end Storage

end ArcadeToolbox
