import ArcadeToolbox.System.Commits
import ArcadeToolbox.System.Tasks

/-!
# What each task may do

`Writes` lists the writes of the metadata a task may make, `Handles` the coin operations; the
latter may depend on the metadata before and after the task. Every task moves the store along
these (`Task.traced`), so an invariant of the system is checked against the two lists.
-/

namespace ArcadeToolbox

open Txn Uow Storage

/-- The writes a task may make. -/
inductive Writes (env : Env) : Task → MetaOp → Prop
  | plain {t : Task} {op : MetaOp} : op.Plain → Writes env t op
  | insertDirect {u args ref provided fa} {tx : NewTx} : tx.status = .unsigned → tx.userID = u →
      tx.reference = ref → Writes env (.createDirect u args ref provided fa) (.insertTx tx)
  | insert {u args ref provided r} {tx : NewTx} : tx.status = .unsigned → tx.userID = u →
      tx.reference = ref → Writes env (.createPersist u args ref provided r) (.insertTx tx)
  | store {u args ref t row} : Writes env (.processCommit u args ref t row)
      (.store row.transactionID t (newTxStatuses args))
  | queue {t} : Writes env (.queueDelayed t)
      (.known (.updateStatus .unsent ProvenTxReqStatus.neverRequeue) t)
  | claim {sender t raw st} : Writes env (.claim sender t raw st)
      (.known (.casFromPreBroadcast .sending) t)
  | claimStale {sender t raw st} : Writes env (.claim sender t raw st)
      (.known (.reclaimStaleSend resendGrace) t)
  | reclaim {sender t raw} : Writes env (.reclaim sender t raw)
      (.known (.reclaimStaleSend resendGrace) t)
  | accepted {sender t raw} : Writes env (.post sender t raw) (.note (.accepted t))
  | accept {t raw row} : Writes env (.acceptCommit t raw row)
      (.known (.updateStatus .unconfirmed ProvenTxReqStatus.beyondBroadcastStage) t)
  | reject {u t info row now} : Writes env (.rejectCommit u t info row)
      (.known (.markSuspectFailed now info) t)
  | rejectMark {t st info now} : Writes env (.rejectMark t st info)
      (.known (.markSuspect now [] st info) t)
  | fence {u row} : Writes env (.abortTx u row) (.fence row)
  | abortQueue {u row change q} : q ∈ abortOps u row change →
      Writes env (.abortTx u row) (.enqueue q)
  | inlineCascade {ops parent since child} : Writes env (.inline ops)
      (.cascade parent since child (env.earlier child))
  | inlineDone {ops q} : q ∈ ops → Writes env (.inline ops) (.markDone q.key)
  | inlineError {ops q} : q ∈ ops → Writes env (.inline ops) (.recordError q.key)
  | drainCascade {limit parent since child} : Writes env (.drain limit)
      (.cascade parent since child (env.earlier child))
  | drainDone {limit key} : Writes env (.drain limit) (.markDone key)
  | drainError {limit key} : Writes env (.drain limit) (.recordError key)
  | healDone {ref} : Writes env (.healDone ref) (.markDone ⟨.abort ref.reservation,
      .abortRelease, 0⟩)
  | saw {rec} : rec.status.isSeenClass = true → Writes env (.status rec) (.note (.seen rec.txid))
  | seen {rec} : Writes env (.seen rec)
      (.known (.updateStatus .unconfirmed seenAdvanceSkipStatuses) rec.txid)
  | seenRecord {rec} : Writes env (.seen rec) (.known (.setArcadeStatus rec.status) rec.txid)
  | verified {rec} : Writes env (.mined rec) (.note (.proven rec.txid))
  | mined {rec proof} : Writes env (.minedCommit rec proof) (.known (.setProof proof) rec.txid)
  | minedRecord {rec proof} : Writes env (.minedCommit rec proof)
      (.known (.setArcadeStatus rec.status) rec.txid)
  | record {t st} : Writes env (.record t st) (.known (.setArcadeStatus st) t)
  | rejected {rec now} : Writes env (.rejected rec)
      (.known (.markSuspect now rec.competingTxs rec.status rec.extraInfo) rec.txid)
  | repairRecord {rec k} : Writes env (.repair rec k)
      (.known (.setArcadeStatus rec.status) rec.txid)
  | repairVerified {rec k} : Writes env (.repair rec k) (.note (.proven rec.txid))
  | repair {k spender row proof} : Writes env (.repairCommit k spender row proof)
      (.known (.setProof proof) k.txid)
  | batchSaw {recs rec} : rec ∈ recs → rec.status.isSeenClass = true →
      Writes env (.batch recs) (.note (.seen rec.txid))
  | batchVerified {recs t} : Writes env (.batch recs) (.note (.proven t))
  | batchSeen {plan} : Writes env (.batchCommit plan)
      (.knownAll (.updateStatus .unconfirmed seenAdvanceSkipStatuses) (plan.seen.map (·.txid)))
  | batchMined {plan pr} : pr ∈ plan.verified →
      Writes env (.batchCommit plan) (.known (.setProof pr.2.1) pr.1.txid)
  | batchRejected {plan rec now} : rec ∈ plan.rejected → Writes env (.batchCommit plan)
      (.known (.markSuspect now rec.competingTxs rec.status rec.extraInfo) rec.txid)
  | batchRecord {plan rec} : rec ∈ plan.seen ++ plan.verified.map (·.1) ++ plan.arcadeOnly →
      Writes env (.batchCommit plan) (.knownAll (.setArcadeStatus rec.status) [rec.txid])
  | internalizeVerified {u args} : Writes env (.internalize u args) (.note (.proven args.tx))
  | internalize {u plan} : Writes env (.internalizeCommit u plan) (.credit plan.txid plan.proof)
  | adopt {u plan} : Writes env (.internalizeCommit u plan)
      (.adopt (internalizedTx u plan) plan.txid)
  | stamp {t at_} : Writes env (.stamp t) (.knownAll (.stampVerifiedRejected at_) [t])
  | stuck {cfg k} : Writes env (.leave cfg k) (.known (.transitionSuspect .stuck) k.txid)
  | finalize {plan} : Writes env (.release plan)
      (.known (.transitionSuspect plan.terminalKnown.1) plan.txid)
  | finalized {plan} : Writes env (.release plan) (.note (.finalized plan.txid))
  | releaseQueue {plan q} : q ∈ outboxOps plan → Writes env (.release plan) (.enqueue q)
  | releaseCascade {plan since child} : Writes env (.release plan)
      (.cascade plan.txid since child (env.earlier child))
  | demote {k} : Writes env (.demoteOne k) (.known (.clearProof .unconfirmed) k.txid)

/-- `m` and `m'` are the metadata before and after the task. -/
inductive Handles (p : Provider) (m m' : Metadata) : Task → CoinOp → Prop
  | plain {t : Task} {op : CoinOp} : op.Plain → Handles p m m' t op
  | reserveDirect {u args ref provided fa} : Handles p m m' (.createDirect u args ref provided fa)
      (.reserveOutpoints u ref (walletOwnedOutpoints provided))
  | fundDirect {u args ref provided fa} {c : StoreCall} : c.Under fa.userID fa.reservation →
      Handles p m m' (.createDirect u args ref provided fa) (.call c)
  | reserve {u args ref provided fa} : Handles p m m' (.createReserve u args ref provided fa)
      (.reserveOutpoints u ref (walletOwnedOutpoints provided))
  | fund {u args ref provided c k} : Handles p m m' (.createFund u args ref provided (.call c k))
      (.call c)
  | createRelease {u ref} : Handles p m m' (.createRelease u ref) (.releaseReservation u ref)
  | pin {u args ref t row} : Handles p m m' (.processCommit u args ref t row) (.pin u ref)
  | mintChange {u args ref t row rows} :
      (∀ k ∈ m.knownTxs, k.txid = t → k.status ∉ ProvenTxReqStatus.neverRequeue) →
      Handles p m m' (.processCommit u args ref t row) (.mint (changeMints u t rows))
  | accept {t raw row} : Handles p m m' (.acceptCommit t raw row)
      (.spend ((p.ledger raw).inputs.map fun o => ⟨o, row.reference, t⟩))
  | reject {u t info row ops} : Handles p m m' (.rejectCommit u t info row) (.removeByMintTx t ops)
  | abort {u row op} : Fenced row m' → AbortCoins u row op → Handles p m m' (.abortTx u row) op
  | inline {ops q op} : q ∈ ops → OutboxPayload.Coins q.payload op → Handles p m m' (.inline ops) op
  | inlineLog {ops es} : Handles p m m' (.inline ops) (.logged es)
  | drain {limit e op} : e ∈ m.outbox → OutboxPayload.Coins e.payload op →
      Handles p m m' (.drain limit) op
  | drainLog {limit es} : Handles p m m' (.drain limit) (.logged es)
  | sweepOrphan {ref} : Handles p m m' (.sweepOrphan ref)
      (.releaseReservation ref.userID ref.reservation)
  | healUnpin {ref} : Handles p m m' (.healUnpin ref) (.unpin ref.userID ref.reservation)
  | healRelease {ref} : Handles p m m' (.healRelease ref)
      (.releaseReservation ref.userID ref.reservation)
  | mined {rec proof} : Handles p m m' (.minedCommit rec proof) (.removeSpentBy rec.txid)
  | repair {k spender row proof op} : RepairCoins p k spender row op →
      Handles p m m' (.repairCommit k spender row proof) op
  | batchRemove {plan} : Handles p m m' (.batchCommit plan)
      (.remove (plan.verified.flatMap (·.2.2)) true)
  | batchMined {plan pr} : pr ∈ plan.verified →
      Handles p m m' (.batchCommit plan) (.removeSpentBy pr.1.txid)
  | internalize {u plan pl} : pl ∈ plan.plans → Handles p m m' (.internalizeCommit u plan)
      (.mint [internalizedMint u plan.txid (internalizeTier plan.proof) pl])
  | release {plan op} : (∃ k ∈ m.knownTxs, k.txid = plan.txid ∧ k.status = .suspectFailed) →
      ReleaseCoins plan op → Handles p m m' (.release plan) op
  | relinquish {u basket op} : Handles p m m' (.relinquish u basket op) (.remove [op] false)

/-- The task moves the store along its writes and its coin operations. -/
def Task.Traced (p : Provider) (env : Env) (t : Task) : Prop :=
  ∀ s : Session Db, Trace (Writes env t) (Handles p s.db.metadata (t.run p env s).2.db.metadata t) s
    (t.run p env s).2

/-- The coin operations a task may do whatever the metadata. -/
def Steady (p : Provider) (t : Task) (op : CoinOp) : Prop := ∀ m m', Handles p m m' t op

variable {p : Provider} {env : Env} {t : Task} {W : MetaOp → Prop} {C : CoinOp → Prop}

theorem Task.Traced.of_moves (h : Moves (Trace (Writes env t) (Steady p t)) (t.run p env)) :
    t.Traced p env := fun s => (h s).mono (fun _ ho => ho) fun _ ho => ho _ _

theorem writes_plain (op : MetaOp) (h : op.Plain) : Writes env t op := .plain h

theorem steady_plain (op : CoinOp) (h : op.Plain) : Steady p t op := fun _ _ => .plain h

namespace Storage

theorem trace_last {x : Work Unit} (hx : Moves (Trace W C) x) : Moves (Trace W C) (last x) :=
  moves_bind hx fun _ => moves_pure _

theorem trace_read {α β : Type} {f : Metadata → α} {g : α → Work β}
    (hg : ∀ a, Moves (Trace W C) (g a)) :
    Moves (Trace W C) (metaQuery f >>= g) :=
  moves_bind (trace_metaQuery f) hg

section Looks

theorem trace_runCreateResolve (u : UserID) (args : CreateActionArgs) (ref : Token)
    (todo : List CreateActionInput) (done : List ResolvedInput) :
    Moves (Trace W C) (runCreateResolve env u args ref todo done) := by
  cases todo with
  | nil => exact moves_pure _
  | cons i todo =>
    refine moves_bind (trace_read fun found => ?_) fun _ => moves_pure _
    rcases found with _ | row
    · rcases env.inputBEEF i.outpoint with _ | ⟨sats, script⟩
      · exact moves_throw _
      · exact moves_pure _
    · exact moves_pure _

theorem trace_runCreateCount (u : UserID) (args : CreateActionArgs) (ref : Token)
    (provided : List ResolvedInput) : Moves (Trace W C) (runCreateCount p u args ref provided) := by
  refine moves_bind ?_ fun count => ?_
  · unfold changeBasketCount
    split
    · exact moves_pure _
    · exact trace_metaQuery _
  · rcases fundArgs p u ref args provided count with e | fa
    · exact moves_throw _
    · dsimp only
      cases p.mode <;> exact moves_pure _

theorem trace_runProcessFind (u : UserID) (args : ProcessActionArgs) :
    Moves (Trace W C) (runProcessFind u args) :=
  moves_bind (moves_bind (moves_orThrow _ _) fun _ => moves_bind (moves_orThrow _ _) fun _ =>
    moves_bind (moves_orThrow _ _) fun _ => moves_bind (moves_require _ _) fun _ =>
        trace_read fun _ =>
    moves_bind (moves_orThrow _ _) fun _ => moves_bind (moves_require _ _) fun _ =>
    moves_bind (moves_require _ _) fun _ => moves_bind (moves_require _ _) fun _ => moves_pure _)
    fun _ => moves_pure _

theorem trace_runProcessValidate (u : UserID) (args : ProcessActionArgs) (ref : Token) (raw : RawTx)
    (row : TxRow) : Moves (Trace W C) (runProcessValidate p env u args ref raw row) :=
  moves_bind (moves_bind (moves_require _ _) fun _ => trace_read fun _ =>
    moves_bind (moves_refuse _) fun _ => moves_refuse _) fun _ => moves_pure _

theorem trace_runProcessSend (u : UserID) (args : ProcessActionArgs) :
    Moves (Trace W C) (runProcessSend u args) := by
  unfold runProcessSend
  split_ifs <;> exact moves_pure _

theorem trace_statusBehindRefusal (t : TxID) : Moves (Trace W C) (statusBehindRefusal t) :=
  trace_read fun _ => moves_bind (moves_orThrow _ _) fun _ => moves_pure _

theorem trace_runClaimRefused (sender : Sender) (t : TxID) (raw : RawTx) (recovering : Bool) :
    Moves (Trace W C) (runClaimRefused sender t raw recovering) := by
  refine moves_bind (trace_statusBehindRefusal t) fun st => ?_
  split
  · exact moves_pure _
  · exact moves_bind (moves_require _ _) fun _ => moves_pure _

theorem trace_runBroadcastLoad (u : UserID) (t : TxID) :
    Moves (Trace W C) (runBroadcastLoad env u t) :=
  moves_bind (trace_read fun _ => moves_bind (moves_orThrow _ _) fun _ =>
    moves_bind (moves_orThrow _ _) fun _ => moves_bind (moves_require _ _) fun _ => moves_pure _)
    fun _ => moves_pure _

theorem trace_runAbort (u : UserID) (ref : Token) : Moves (Trace W C) (runAbort u ref) := by
  refine moves_bind (trace_metaQuery _) fun found => ?_
  rcases found with _ | row <;> exact moves_bind (moves_require _ _) fun _ => moves_pure _

theorem trace_runAbortByTxID (u : UserID) (t : TxID) : Moves (Trace W C) (runAbortByTxID u t) :=
  moves_bind (trace_read fun _ => moves_pure _) fun _ => moves_bind (moves_orThrow _ _) fun _ =>
    moves_bind (moves_require _ _) fun _ => moves_pure _

theorem trace_runSweepRef (ref : ReservationRef) : Moves (Trace W C) (runSweepRef ref) := by
  refine moves_bind (trace_metaQuery _) fun found => ?_
  rcases found with _ | row
  · exact moves_pure _
  · dsimp only
    split_ifs <;> exact moves_pure _

theorem trace_runSweepPins (ref : ReservationRef) (todo : List Outpoint) :
    Moves (Trace W C) (runSweepPins ref todo) := by
  cases todo with
  | nil => exact moves_pure _
  | cons op todo =>
    refine moves_bind (trace_utxoQuery fun _ _ => rfl) fun pinned => ?_
    split <;> exact moves_pure _

theorem trace_runRejectedSuspect (cfg : Reconcile) (k : KnownTx) (rec : TxRecord) :
    Moves (Trace W C) (runRejectedSuspect p cfg k rec) := by
  unfold runRejectedSuspect
  rcases k.verifiedRejectedAt with _ | at_
  · exact moves_pure _
  · refine moves_bind moves_now fun t => ?_
    split_ifs <;> exact moves_pure _

theorem trace_runSuspect (cfg : Reconcile) (k : KnownTx) :
    Moves (Trace W C) (runSuspect p env cfg k) := by
  unfold runSuspect
  rcases (env.getTx k.txid).record k.txid with _ | rec
  · exact moves_pure _
  · dsimp only
    split_ifs
    · exact moves_pure _
    · exact trace_runRejectedSuspect cfg k rec
    · exact moves_pure _
    · exact moves_pure _

theorem trace_planChange (t : TxID) : Moves (Trace W C) (Storage.planChange t) := by
  refine moves_bind (moves_attempt (trace_metaQuery _)) fun r => ?_
  cases r <;> exact moves_pure _

theorem trace_planRefs (t : TxID) : Moves (Trace W C) (Storage.planRefs t) := by
  refine moves_bind (moves_attempt (trace_metaQuery _)) fun r => ?_
  cases r <;> exact moves_pure _

theorem trace_runConflictLocal (cfg : Reconcile) (k : KnownTx) (rec : TxRecord) (todo : List TxID)
    (ans : ConflictAnswers) : Moves (Trace W C) (runConflictLocal p cfg k rec todo ans) := by
  cases todo with
  | nil =>
    unfold runConflictLocal
    dsimp only
    cases conflictRelease p k rec ans <;> exact moves_pure _
  | cons s todo => exact moves_bind (moves_attempt (trace_metaQuery _)) fun _ => moves_pure _

theorem trace_runPlanSource (draft : PlanDraft) : Moves (Trace W C) (runPlanSource draft) := by
  unfold runPlanSource
  split
  · exact moves_pure _
  · refine moves_bind (moves_bind (moves_attempt (trace_metaQuery _)) fun r => ?_) fun dead => ?_
    · cases r <;> exact moves_pure _
    · split <;> exact moves_pure _

theorem trace_runRepairOne (k : KnownTx) : Moves (Trace W C) (runRepairOne env k) := by
  unfold runRepairOne
  rcases storedProofRecord k with _ | rec
  · rcases env.getTx k.txid with _ | _ | found
    · exact moves_throw _
    · exact moves_pure _
    · dsimp only
      split_ifs <;> exact moves_pure _
  · exact moves_pure _

theorem trace_runDemote (height : ℕ) : Moves (Trace W C) (runDemote p height) := by
  unfold runDemote
  split
  · exact trace_read fun _ => moves_pure _
  · exact moves_pure _

theorem trace_runRepairFind (k : KnownTx) (spender : TxID) (proof : Proof) :
    Moves (Trace W C) (runRepairFind k spender proof) := by
  refine moves_bind (moves_bind (moves_attempt (trace_metaQuery _)) fun r => ?_) fun _ =>
      moves_pure _
  cases r <;> exact moves_pure _

end Looks

theorem traced_createReserve (u : UserID) (args : CreateActionArgs) (ref : Token)
    (provided : List ResolvedInput) (fa : FundArgs) :
    (Task.createReserve u args ref provided fa).Traced p env := by
  refine .of_moves (moves_bind (moves_attempt ?_) fun r => ?_)
  · exact trace_reserveProvidedInputs fun _ _ => .reserve
  · cases r <;> exact moves_pure _

theorem traced_createFund (u : UserID) (args : CreateActionArgs) (ref : Token)
    (provided : List ResolvedInput)
    (prog : Prog StoreCall StoreCall.Answer (Except FundErr FundResult)) :
    (Task.createFund u args ref provided prog).Traced p env := by
  refine .of_moves ?_
  cases prog with
  | done r =>
    cases r
    · exact moves_throw _
    · exact moves_pure _
  | call c k =>
    exact moves_bind (fun s => trace_call p.funding.prober (fun _ _ => .fund) s) fun _ =>
        moves_pure _

theorem traced_createPersist (u : UserID) (args : CreateActionArgs) (ref : Token)
    (provided : List ResolvedInput) (r : FundResult) :
    (Task.createPersist u args ref provided r).Traced p env := by
  refine .of_moves (moves_bind (moves_attempt (trace_doUnit ?_)) fun r => ?_)
  · exact trace_persistCreateAction writes_plain p env args provided r fun _ => .insert
  · cases r <;> exact moves_pure _

theorem traced_queueDelayed (t : TxID) : (Task.queueDelayed t).Traced p env := by
  refine .of_moves (moves_bind (moves_attempt (trace_write .queue)) fun r => ?_)
  rcases r with e | _
  · cases e with
    | notFound => exact moves_pure _
    | skipped => exact moves_pure _
    | _ => exact moves_throw _
  · exact moves_pure _

theorem traced_claim (sender : Sender) (t : TxID) (raw : RawTx) (st : ProvenTxReqStatus) :
    (Task.claim sender t raw st).Traced p env := by
  refine .of_moves (moves_bind (moves_attempt ?_) fun r => ?_)
  · unfold claimSend
    split
    · exact trace_write .claimStale
    · exact trace_write .claim
  · rcases r with e | _
    · cases e with
      | skipped => exact moves_pure _
      | _ => exact moves_throw _
    · exact moves_pure _

theorem traced_reclaim (sender : Sender) (t : TxID) (raw : RawTx) :
    (Task.reclaim sender t raw).Traced p env := by
  refine .of_moves (moves_bind (moves_attempt (trace_write .reclaim)) fun r => ?_)
  rcases r with e | _
  · cases e with
    | skipped => exact moves_pure _
    | _ => exact moves_throw _
  · exact moves_pure _

theorem traced_post (sender : Sender) (t : TxID) (raw : RawTx) :
    (Task.post sender t raw).Traced p env := by
  refine .of_moves ?_
  change Moves _ (runPost env sender t raw)
  unfold runPost
  rcases env.broadcast with _ | ⟨st, info⟩ | _
  · exact moves_pure _
  · cases sender <;> exact moves_pure _
  · exact moves_bind (trace_note .accepted) fun _ => moves_pure _

theorem traced_abortTx (u : UserID) (row : TxRow) : (Task.abortTx u row).Traced p env := by
  intro s
  change Trace _ (Handles p _ (runAbortTx p u row s).2.db.metadata _) s (runAbortTx p u row s).2
  unfold runAbortTx
  rcases p.mode with _ | _
  · have hrun : ((do abortDirect u row; return Next.go [] : Work (Next Task)) s).2
        = (abortDirect u row s).2 := by
      rw [bind_apply]
      rcases abortDirect u row s with ⟨e | _, s'⟩ <;> rfl
    dsimp only
    rw [hrun]
    exact trace_abortDirect writes_plain .fence s fun hf op hop => .abort hf hop
  · exact moves_bind (trace_abortEnqueue writes_plain .fence fun _ _ => .abortQueue)
      (fun _ => moves_pure _) s

theorem traced_inline (ops : List QueuedOp) : (Task.inline ops).Traced p env :=
  .of_moves (moves_bind (moves_attempt (trace_runInline steady_plain p.mode
    (fun _ hq _ hop _ _ => .inline hq hop) (fun _ _ _ => .inlineLog) (fun _ _ _ => .inlineCascade)
    (fun _ => .inlineDone) fun _ => .inlineError)) fun _ => moves_pure _)

theorem traced_status (rec : TxRecord) : (Task.status rec).Traced p env := by
  refine .of_moves (moves_bind ?_ fun found => ?_)
  · unfold statusLoad
    split
    · exact moves_pure _
    · refine moves_bind ?_ fun _ => trace_metaQuery _
      unfold noteIf
      split
      · exact trace_note (.saw ‹_›)
      · exact moves_pure _
  · rcases found with _ | k
    · exact moves_pure _
    · dsimp only
      cases statusRoute k rec <;> exact moves_pure _

theorem traced_mined (rec : TxRecord) : (Task.mined rec).Traced p env := by
  refine .of_moves (moves_bind (trace_verifyRecord p env .verified) fun r => ?_)
  cases r <;> exact moves_pure _

theorem traced_repair (rec : TxRecord) (k : KnownTx) : (Task.repair rec k).Traced p env := by
  refine .of_moves (moves_bind (moves_bind (moves_require _ _) fun _ =>
    trace_setArcadeStatus .repairRecord) fun _ =>
    moves_bind (trace_verifyRecord p env .repairVerified) fun r => ?_)
  cases r <;> exact moves_pure _

theorem traced_batch (recs : List TxRecord) : (Task.batch recs).Traced p env := by
  refine .of_moves (moves_bind (moves_bind (moves_forM _ fun r hr => ?_) fun _ => ?_) fun known =>
    moves_bind (moves_bind (moves_forM _ fun _ _ => trace_note .batchVerified) fun _ =>
        moves_pure _)
      fun _ => moves_pure _)
  · obtain ⟨hr, hs⟩ := List.mem_filter.mp hr
    rw [Bool.and_eq_true] at hs
    exact trace_note (.batchSaw hr hs.1)
  · split
    · exact moves_pure _
    · exact trace_metaQuery _

theorem traced_batchCommit (plan : BatchPlan) : (Task.batchCommit plan).Traced p env := by
  refine .of_moves ?_
  change Moves _ (runBatchCommit p plan)
  unfold runBatchCommit
  split
  · exact moves_pure _
  · exact trace_last (trace_applyBatch steady_plain p (writes_plain _ (Or.inl rfl))
      (writes_plain _ (Or.inr (Or.inr rfl))) .batchSeen (fun _ => .batchMined)
      (fun _ hr _ => .batchRejected hr) (fun _ => .batchRecord) (fun _ _ => .batchRemove)
          fun _ hr _ _ => .batchMined hr)

theorem traced_internalize (u : UserID) (args : InternalizeActionArgs) :
    (Task.internalize u args).Traced p env :=
  .of_moves (moves_bind (moves_bind (moves_require _ _) fun _ =>
      moves_bind (moves_require _ _) fun _ =>
    moves_bind (trace_noteIf .internalizeVerified) fun _ => trace_read fun _ => moves_pure _)
    fun _ => moves_pure _)

theorem traced_leave (cfg : Reconcile) (k : KnownTx) : (Task.leave cfg k).Traced p env := by
  refine .of_moves (moves_bind moves_now fun t => ?_)
  split
  · exact trace_last (trace_doUnit (moves_bind (trace_write .stuck) fun _ =>
      trace_failTransactions writes_plain _))
  · exact moves_pure _

theorem trace_freezeOps (hq : ∀ op : CoinOp, op.Plain → C op) (ops : List Outpoint) :
    Moves (Trace W C) (freezeOps ops) := by
  unfold freezeOps
  split
  · exact moves_pure _
  · exact moves_bind (moves_attempt (trace_coinOp _ (hq (.freeze ops) trivial) fun _ _ _ => rfl))
      fun _ => moves_pure _

theorem trace_unfreezeOps (hq : ∀ op : CoinOp, op.Plain → C op) (ops : List Outpoint) :
    Moves (Trace W C) (unfreezeOps ops) := by
  unfold unfreezeOps
  split
  · exact moves_pure _
  · exact moves_bind (moves_attempt (trace_coinOp _ (hq (.unfreeze ops) trivial) fun _ _ _ => rfl))
      fun _ => moves_pure _

theorem traced_demoteOne (k : KnownTx) : (Task.demoteOne k).Traced p env := by
  refine .of_moves ?_
  change Moves _ (runDemoteOne p env k)
  unfold runDemoteOne
  split
  · exact trace_last (trace_demoteProof writes_plain steady_plain p .demote)
  · exact moves_pure _

theorem traced_release (plan : ReleasePlan) : (Task.release plan).Traced p env := by
  intro s
  have h : Trace (Writes env (.release plan)) (fun op => ∀ m',
      Handles p s.db.metadata m' (.release plan) op)
      s (runRelease p env plan s).2 := by
    unfold runRelease
    rcases p.mode with _ | _
    · exact bind_at (trace_releaseDirect writes_plain (fun _ ho _ => .plain ho) s
        .finalize .finalized
        (fun _ _ => .releaseCascade) fun hk _ hop _ => .release hk hop) fun _ s' _ => refl_of _ s'
    · exact moves_bind (trace_releaseEnqueue writes_plain .finalize .finalized fun _ =>
        .releaseQueue)
        (fun _ => moves_pure _) s
  exact h.mono (fun _ ho => ho) fun _ ho => ho _

theorem traced_drain (limit : ℕ) : (Task.drain limit).Traced p env := by
  intro s
  have h : Trace (Writes env (.drain limit)) (fun op => ∀ m',
      Handles p s.db.metadata m' (.drain limit) op)
      s (last (drainOutbox env p.mode limit) s).2 :=
    bind_at (trace_drainOutbox (fun _ ho _ => .plain ho) p.mode limit s
      (fun _ he _ hop _ => .drain he hop) (fun _ _ => .drainLog) (fun _ _ _ => .drainCascade)
      (fun _ _ => .drainDone) fun _ _ => .drainError) fun _ s' _ => refl_of _ s'
  exact h.mono (fun _ ho => ho) fun _ ho => ho _

theorem traced_processCommit (u : UserID) (args : ProcessActionArgs) (ref : Token) (raw : RawTx)
    (row : TxRow) : (Task.processCommit u args ref raw row).Traced p env := by
  intro s
  have h : Trace (Writes env (.processCommit u args ref raw row))
      (fun op => ∀ m', Handles p s.db.metadata m' (.processCommit u args ref raw row) op)
      s (last (Storage.processCommit p u args ref raw row) s).2 :=
    bind_at (trace_processCommit p s .store (fun _ => .pin) fun hk _ _ => .mintChange hk)
      fun _ s' _ => refl_of _ s'
  exact h.mono (fun _ ho => ho) fun _ ho => ho _

end Storage

/-- Every task does what the two lists allow. -/
theorem Task.traced (p : Provider) (env : Env) : ∀ t : Task, t.Traced p env
  | .create _ _ => .of_moves (moves_pure _)
  | .createResolve u args ref todo done => .of_moves (trace_runCreateResolve u args ref todo done)
  | .createCount u args ref provided => .of_moves (trace_runCreateCount u args ref provided)
  | .createDirect _ args _ provided _ => .of_moves (trace_last (moves_bind
      (trace_createDirect writes_plain p env args provided (fun _ => .insertDirect)
        (fun _ _ => .reserveDirect) fun _ hc _ _ => .fundDirect hc) fun _ => moves_pure _))
  | .createReserve u args ref provided fa => traced_createReserve u args ref provided fa
  | .createFund u args ref provided prog => traced_createFund u args ref provided prog
  | .createPersist u args ref provided r => traced_createPersist u args ref provided r
  | .createRelease _ _ => .of_moves (trace_last (moves_bind (moves_attempt
      (trace_coinOp (.releaseReservation _ _) (fun _ _ => .createRelease) fun _ _ _ => rfl))
      fun _ => moves_pure _))
  | .process _ _ => .of_moves (moves_pure _)
  | .processFind u args => .of_moves (trace_runProcessFind u args)
  | .processValidate u args ref raw row => .of_moves (trace_runProcessValidate u args ref raw row)
  | .processCommit u args ref raw row => traced_processCommit u args ref raw row
  | .processSend u args => .of_moves (trace_runProcessSend u args)
  | .queueDelayed t => traced_queueDelayed t
  | .queueRefused t => .of_moves (moves_bind (trace_statusBehindRefusal t) fun _ =>
      moves_bind (moves_require _ _) fun _ => moves_pure _)
  | .broadcastLoad u t => .of_moves (trace_runBroadcastLoad u t)
  | .claim sender t raw st => traced_claim sender t raw st
  | .claimRefused sender t raw recovering =>
    .of_moves (trace_runClaimRefused sender t raw recovering)
  | .reclaim sender t raw => traced_reclaim sender t raw
  | .post sender t raw => traced_post sender t raw
  | .acceptFind _ _ =>
    .of_moves (moves_bind (trace_read fun _ => moves_orThrow _ _) fun _ => moves_pure _)
  | .acceptCommit _ _ _ => .of_moves (trace_last
      (trace_applyAcceptedBroadcast writes_plain p .accept fun _ _ => .accept))
  | .rejectFind _ _ _ => .of_moves (trace_read fun _ => moves_pure _)
  | .rejectCommit u _ _ row => .of_moves (trace_last
      (trace_commitRejected writes_plain p u row (fun _ => .reject) fun _ _ _ => .reject))
  | .rejectMark _ _ _ => .of_moves (moves_bind moves_now fun _ =>
      moves_bind (trace_tolerate (trace_write .rejectMark)) fun _ => moves_pure _)
  | .sendWaiting _ =>
    .of_moves (moves_bind (trace_metaStmt fun _ _ => Or.inl rfl) fun _ => moves_pure _)
  | .sendOne _ => .of_moves (moves_bind (moves_orThrow _ _) fun _ =>
      moves_bind (moves_require _ _) fun _ => moves_pure _)
  | .abort u ref => .of_moves (trace_runAbort u ref)
  | .abortByTxID u t => .of_moves (trace_runAbortByTxID u t)
  | .abortTx u row => traced_abortTx u row
  | .inline ops => traced_inline ops
  | .abortAbandoned _ _ => .of_moves (trace_read fun _ => moves_pure _)
  | .sweepStale _ _ => .of_moves (moves_bind (trace_utxoQuery fun _ _ => rfl) fun _ => moves_pure _)
  | .sweepRef ref => .of_moves (trace_runSweepRef ref)
  | .sweepPins ref todo => .of_moves (trace_runSweepPins ref todo)
  | .sweepOrphan _ => .of_moves (moves_bind
      (trace_coinOp (.releaseReservation _ _) (fun _ _ => .sweepOrphan) fun _ _ _ => rfl)
      fun _ => moves_pure _)
  | .healUnpin _ => .of_moves (moves_bind
      (trace_coinOp (.unpin _ _) (fun _ _ => .healUnpin) fun _ _ _ => rfl) fun _ => moves_pure _)
  | .healRelease _ => .of_moves (moves_bind
      (trace_coinOp (.releaseReservation _ _) (fun _ _ => .healRelease) fun _ _ _ => rfl)
      fun _ => moves_pure _)
  | .healDone _ =>
    .of_moves (moves_bind (moves_attempt (trace_markDone .healDone)) fun _ => moves_pure _)
  | .status rec => traced_status rec
  | .seen _ =>
    .of_moves (trace_last (trace_applySeen writes_plain steady_plain p .seen .seenRecord))
  | .mined rec => traced_mined rec
  | .minedCommit _ _ => .of_moves (trace_last
      (trace_applyMined writes_plain steady_plain p .mined .minedRecord fun _ _ => .mined))
  | .rejected _ => .of_moves (trace_last (trace_applyRejected fun _ => .rejected))
  | .record _ _ => .of_moves (trace_last (trace_setArcadeStatus .record))
  | .repair rec k => traced_repair rec k
  | .repairFind k spender proof => .of_moves (trace_runRepairFind k spender proof)
  | .repairCommit _ _ _ _ =>
    .of_moves (trace_last (trace_commitMinedRepair writes_plain steady_plain p
      .repair fun _ ho _ _ => .repair ho))
  | .batch recs => traced_batch recs
  | .batchCommit plan => traced_batchCommit plan
  | .internalize u args => traced_internalize u args
  | .internalizeCommit _ _ =>
    .of_moves (trace_last (trace_internalizeCommit writes_plain p .internalize
      .adopt fun _ hpl _ _ => .internalize hpl))
  | .reconcile _ _ =>
    .of_moves (moves_bind (trace_metaStmt fun _ _ => Or.inl rfl) fun _ => moves_pure _)
  | .suspect cfg k => .of_moves (trace_runSuspect cfg k)
  | .leave cfg k => traced_leave cfg k
  | .stamp _ => .of_moves (moves_bind moves_now fun _ =>
      moves_bind (trace_bulkWrite rfl .stamp) fun _ => moves_pure _)
  | .freezeFind t => .of_moves (moves_bind (trace_planChange t) fun _ => moves_pure _)
  | .freeze ops => .of_moves (trace_last (trace_freezeOps steady_plain ops))
  | .unfreezeFind t => .of_moves (moves_bind (trace_planChange t) fun _ => moves_pure _)
  | .unfreeze ops => .of_moves (trace_last (trace_unfreezeOps steady_plain ops))
  | .conflict _ _ _ => .of_moves (moves_pure _)
  | .conflictWinners _ _ _ _ => .of_moves (moves_pure _)
  | .conflictLocal cfg k rec todo ans => .of_moves (trace_runConflictLocal cfg k rec todo ans)
  | .planRefs draft => .of_moves (moves_bind (trace_planRefs draft.txid) fun _ => moves_pure _)
  | .planSource draft => .of_moves (trace_runPlanSource draft)
  | .planChange draft => .of_moves (moves_bind (trace_planChange draft.txid) fun _ => moves_pure _)
  | .release plan => traced_release plan
  | .drain limit => traced_drain limit
  | .pollFind _ _ _ => .of_moves (trace_read fun _ => moves_pure _)
  | .poll _ => .of_moves (moves_bind (moves_attempt (trace_bulkWrite rfl (writes_plain _ rfl)))
      fun _ => moves_pure _)
  | .pollApply _ => .of_moves (moves_pure _)
  | .repairBacklog _ => .of_moves (trace_read fun _ => moves_pure _)
  | .repairPolled _ =>
    .of_moves (moves_bind (moves_attempt (trace_bulkWrite rfl (writes_plain _ rfl)))
      fun _ => moves_pure _)
  | .repairOne k => .of_moves (trace_runRepairOne k)
  | .demote height => .of_moves (trace_runDemote height)
  | .demoteOne k => traced_demoteOne k
  | .relinquish u basket _ => .of_moves (trace_last
      (trace_relinquishOutput writes_plain p u basket fun _ _ => .relinquish))
  | .mark => .of_moves (moves_pure _)

end ArcadeToolbox
