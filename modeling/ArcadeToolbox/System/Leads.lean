import ArcadeToolbox.System.Lives

/-!
# What a task hands on

A task pushes the tasks its operation goes on with. `Leads` says which task may push which, and what
was true of the metadata when it did: a row that is carried along was read from its table, a
verdict of the oracle that is acted on has been noted. What is known of the tasks that wait in the
pool is derived from this list.
-/

namespace ArcadeToolbox

open Txn Uow Storage

/-- `m` and `m'` are the metadata before and after the first task. -/
inductive Leads (p : Provider) (env : Env) (m m' : Metadata) : Task → Task → Prop
  | mark {t} : Leads p env m m' t .mark
  -- CreateAction
  | create {u args} : Leads p env m m' (.create u args)
      (.createResolve u args env.reference args.inputs [])
  | resolve {u args ref todo done todo' done'} : Leads p env m m'
      (.createResolve u args ref todo done) (.createResolve u args ref todo' done')
  | count {u args ref todo done} : Leads p env m m' (.createResolve u args ref todo done)
      (.createCount u args ref done)
  | direct {u args ref provided fa count} : fundArgs p u ref args provided count = .ok fa →
      Leads p env m m' (.createCount u args ref provided) (.createDirect u args ref provided fa)
  | reserve {u args ref provided fa count} : fundArgs p u ref args provided count = .ok fa →
      Leads p env m m' (.createCount u args ref provided) (.createReserve u args ref provided fa)
  | fund {u args ref provided fa} : Leads p env m m' (.createReserve u args ref provided fa)
      (.createFund u args ref provided (fundProg p fa))
  | reserveFailed {u args ref provided fa} : Leads p env m m'
      (.createReserve u args ref provided fa)
      (.createRelease u ref)
  | fundNext {u args ref provided c k a} : Leads p env m m'
      (.createFund u args ref provided (.call c k)) (.createFund u args ref provided (k a))
  | persist {u args ref provided r} : Leads p env m m'
      (.createFund u args ref provided (.done (.ok r))) (.createPersist u args ref provided r)
  | persistFailed {u args ref provided r} : m' = m →
      Leads p env m m' (.createPersist u args ref provided r) (.createRelease u ref)
  -- ProcessAction
  | processFind {u args args'} : Leads p env m m' (.process u args) (.processFind u args')
  | processSend {u args args'} : Leads p env m m' (.process u args) (.processSend u args')
  | validate {u args ref raw row} : row ∈ m.transactions → row.userID = u → row.reference = ref →
      row.isOutgoing = true → (row.txid = none ∨ row.txid = some raw) →
      Leads p env m m' (.processFind u args) (.processValidate u args ref raw row)
  | commit {u args ref raw row} : Leads p env m m' (.processValidate u args ref raw row)
      (.processCommit u args ref raw row)
  | queue {u args t} : Leads p env m m' (.processSend u args) (.queueDelayed t)
  | load {u args t} : Leads p env m m' (.processSend u args) (.broadcastLoad u t)
  | queueRefused {t} : Leads p env m m' (.queueDelayed t) (.queueRefused t)
  | claim {u t raw k} : k ∈ m.knownTxs → k.txid = t → k.rawTx = some raw →
      Leads p env m m' (.broadcastLoad u t) (.claim (.user u) t raw k.status)
  | post {sender t raw st} : Leads p env m m' (.claim sender t raw st) (.post sender t raw)
  | claimRefused {sender t raw st b} : Leads p env m m' (.claim sender t raw st)
      (.claimRefused sender t raw b)
  | reclaim {sender t raw b} : Leads p env m m' (.claimRefused sender t raw b)
      (.reclaim sender t raw)
  | repost {sender t raw} : Leads p env m m' (.reclaim sender t raw) (.post sender t raw)
  | acceptFind {sender t raw} : .accepted t ∈ m'.audit →
      Leads p env m m' (.post sender t raw) (.acceptFind t raw)
  | rejectFind {u t raw info} : Leads p env m m' (.post (.user u) t raw) (.rejectFind u t info)
  | rejectMark {t raw st info} : Leads p env m m' (.post .sweep t raw) (.rejectMark t st info)
  | acceptCommit {t raw row} : row ∈ m.transactions → row.txid = some t →
      Leads p env m m' (.acceptFind t raw) (.acceptCommit t raw row)
  | rejectCommit {u t info row} : Leads p env m m' (.rejectFind u t info)
      (.rejectCommit u t info row)
  | sendOne {limit k} : k ∈ m.knownTxs → Leads p env m m' (.sendWaiting limit) (.sendOne k)
  | sweepClaim {k raw} : k.rawTx = some raw →
      Leads p env m m' (.sendOne k) (.claim .sweep k.txid raw k.status)
  -- aborts and the stale-reservation sweep
  | abortByTxID {u ref} : Leads p env m m' (.abort u ref) (.abortByTxID u ref)
  | abort {u ref row} : row ∈ m.transactions → row.userID = u →
      Leads p env m m' (.abort u ref) (.abortTx u row)
  | abortTxID {u t row} : row ∈ m.transactions → row.userID = u →
      Leads p env m m' (.abortByTxID u t) (.abortTx u row)
  | abandoned {olderThan limit row} : row ∈ m.transactions →
      Leads p env m m' (.abortAbandoned olderThan limit) (.abortTx row.userID row)
  | sweepAbort {ref row} : row ∈ m.transactions → row.userID = ref.userID →
      Leads p env m m' (.sweepRef ref) (.abortTx ref.userID row)
  | abortInline {u row change} : p.mode = .b → Fenced row m' →
      Leads p env m m' (.abortTx u row) (.inline (abortOps u row change))
  | sweepRef {olderThan limit ref} : Leads p env m m' (.sweepStale olderThan limit) (.sweepRef ref)
  | orphan {ref} : (∀ r ∈ m.transactions, r.userID = ref.userID → r.reference ≠ ref.reservation) →
      Leads p env m m' (.sweepRef ref) (.sweepPins ref ref.outpoints)
  | heal {ref row} : row ∈ m.transactions → row.userID = ref.userID →
      row.reference = ref.reservation → row.status = .aborted →
      Leads p env m m' (.sweepRef ref) (.healUnpin ref)
  | sweepPins {ref todo todo'} : Leads p env m m' (.sweepPins ref todo) (.sweepPins ref todo')
  | sweepOrphan {ref todo} : Leads p env m m' (.sweepPins ref todo) (.sweepOrphan ref)
  | healRelease {ref} : Leads p env m m' (.healUnpin ref) (.healRelease ref)
  | healDone {ref} : Leads p env m m' (.healRelease ref) (.healDone ref)
  -- status records
  | record {rec k} : k ∈ m.knownTxs → k.txid = rec.txid → statusRoute k rec = .recordOnly →
      Leads p env m m' (.status rec) (.record rec.txid rec.status)
  | seen {rec k} : k ∈ m.knownTxs → k.txid = rec.txid → statusRoute k rec = .seen →
      .seen rec.txid ∈ m'.audit → Leads p env m m' (.status rec) (.seen rec)
  | mined {rec k} : k ∈ m.knownTxs → k.txid = rec.txid → statusRoute k rec = .mined →
      Leads p env m m' (.status rec) (.mined rec)
  | repair {rec k} : k ∈ m.knownTxs → k.txid = rec.txid → statusRoute k rec = .repair →
      Leads p env m m' (.status rec) (.repair rec k)
  | rejected {rec k} : k ∈ m.knownTxs → k.txid = rec.txid → statusRoute k rec = .rejected →
      Leads p env m m' (.status rec) (.rejected rec)
  | minedCommit {rec proof} : env.verifyMined rec = some proof → .proven rec.txid ∈ m'.audit →
      Leads p env m m' (.mined rec) (.minedCommit rec proof)
  | repairFind {rec k proof} : env.verifyMined rec = some proof → .proven rec.txid ∈ m'.audit →
      Leads p env m m' (.repair rec k) (.repairFind k rec.txid proof)
  | repairCommit {k spender row proof} :
      (∀ r ∈ row, r ∈ m.transactions ∧ r.txid = some k.txid) →
      Leads p env m m' (.repairFind k spender proof) (.repairCommit k spender row proof)
  | batchCommit {recs known} : (∀ k ∈ known, k ∈ m.knownTxs) →
      (∀ rec ∈ recs, rec.status.isSeenClass = true → rec.txid ≠ "" → .seen rec.txid ∈ m'.audit) →
      (∀ pr ∈ (batchPlan p env known recs).verified, .proven pr.1.txid ∈ m'.audit) →
      Leads p env m m' (.batch recs) (.batchCommit (batchPlan p env known recs))
  | fallback {recs rec} : rec ∈ recs → Leads p env m m' (.batch recs) (.status rec)
  | internalizeCommit {u args plan} : plan.txid = args.tx → plan.proof = env.beefProof →
      plan.reference = env.reference → (plan.proof.isSome = true → .proven plan.txid ∈ m'.audit) →
      (∀ r ∈ plan.existing, r ∈ m.transactions ∧ r.userID = u ∧ r.txid = some plan.txid) →
      Leads p env m m' (.internalize u args) (.internalizeCommit u plan)
  -- the reconciler
  | suspect {cfg limit k} : k ∈ m.knownTxs → k.status = .suspectFailed →
      Leads p env m m' (.reconcile cfg limit) (.suspect cfg k)
  | leave {cfg k} : Leads p env m m' (.suspect cfg k) (.leave cfg k)
  | stamp {cfg k} : Leads p env m m' (.suspect cfg k) (.stamp k.txid)
  | conflict {cfg k rec} : Leads p env m m' (.suspect cfg k) (.conflict cfg k rec)
  | suspectPlan {cfg k st} : Leads p env m m' (.suspect cfg k)
      (.planRefs ⟨k.txid, st, [], txInputs p k, [], []⟩)
  | suspectFreeze {cfg k} : Leads p env m m' (.suspect cfg k) (.freezeFind k.txid)
  | recoveredUnfreeze {cfg k} : Leads p env m m' (.suspect cfg k) (.unfreezeFind k.txid)
  | recovered {cfg k rec} : Leads p env m m' (.suspect cfg k) (.status rec)
  | stampFreeze {t} : Leads p env m m' (.stamp t) (.freezeFind t)
  | freeze {t ops} : Leads p env m m' (.freezeFind t) (.freeze ops)
  | unfreeze {t ops} : Leads p env m m' (.unfreezeFind t) (.unfreeze ops)
  | winners {cfg k rec} : Leads p env m m' (.conflict cfg k rec)
      (.conflictWinners cfg k rec env.getTx)
  | locals {cfg k rec first todo ans} : Leads p env m m' (.conflictWinners cfg k rec first)
      (.conflictLocal cfg k rec todo ans)
  | localNext {cfg k rec todo ans todo' ans'} : Leads p env m m'
      (.conflictLocal cfg k rec todo ans) (.conflictLocal cfg k rec todo' ans')
  | deferFreeze {cfg k rec todo ans} : Leads p env m m' (.conflictLocal cfg k rec todo ans)
      (.freezeFind k.txid)
  | deferLeave {cfg k rec todo ans} : Leads p env m m' (.conflictLocal cfg k rec todo ans)
      (.leave cfg k)
  | conflictPlan {cfg k rec ans release} : conflictRelease p k rec ans = .ok release →
      Leads p env m m' (.conflictLocal cfg k rec [] ans)
        (.planRefs ⟨k.txid, ⟨.doubleSpend, rfl⟩, [], release, [], []⟩)
  | planRefs {draft refs} : (∀ r ∈ refs, ∃ row ∈ m.transactions, row.txid = some draft.txid
        ∧ row.reference = r) →
      Leads p env m m' (.planRefs draft) (.planSource { draft with refs := refs })
  | planSource {draft op todo phantom real} : draft.todo = op :: todo →
      (phantom = draft.phantomInputs ∧ real = draft.realInputs ++ [op]
        ∨ phantom = draft.phantomInputs ++ [op] ∧ real = draft.realInputs
          ∧ ∃ k ∈ m.knownTxs, k.txid = op.txid ∧ isDeadSource k = true) →
      Leads p env m m' (.planSource draft)
        (.planSource { draft with todo := todo, phantomInputs := phantom, realInputs := real })
  | planChange {draft} : Leads p env m m' (.planSource draft) (.planChange draft)
  | release {draft plan} : plan.txid = draft.txid → plan.terminalKnown = draft.terminalKnown →
      plan.refs = draft.refs →
      plan.realInputs = draft.realInputs → plan.phantomInputs = draft.phantomInputs →
      (∀ op ∈ plan.changeOps, op.txid = plan.txid) →
      Leads p env m m' (.planChange draft) (.release plan)
  | releaseInline {plan} : p.mode = .b →
      (∃ k ∈ m.knownTxs, k.txid = plan.txid ∧ k.status = .suspectFailed) →
      Leads p env m m' (.release plan) (.inline (outboxOps plan))
  -- the polls and reorganisations
  | poll {cutoff limit statuses kts} : Leads p env m m' (.pollFind cutoff limit statuses)
      (.poll kts)
  | pollApply {kts} : Leads p env m m' (.poll kts) (.pollApply kts)
  | pollBatch {kts recs} : Leads p env m m' (.pollApply kts) (.batch recs)
  | repairPolled {limit kts} : Leads p env m m' (.repairBacklog limit) (.repairPolled kts)
  | repairOne {kts k} : Leads p env m m' (.repairPolled kts) (.repairOne k)
  | repairStored {k rec} : storedProofRecord k = some rec →
      Leads p env m m' (.repairOne k) (.repair rec k)
  | repairFound {k found} : storedProofRecord k = none → env.getTx k.txid = .found found →
      found.status.isMinedClass = true → Leads p env m m' (.repairOne k)
        (.repair (if found.txid = "" then { found with txid := k.txid } else found) k)
  | repairRecord {k found} : storedProofRecord k = none → env.getTx k.txid = .found found →
      found.status.isMinedClass = false →
          Leads p env m m' (.repairOne k) (.record k.txid found.status)
  | demoteOne {height k} : k ∈ m.knownTxs → k.status = .completed →
      Leads p env m m' (.demote height) (.demoteOne k)

variable {p : Provider} {env : Env} {s s' : Session Db} {next : Next Task} {t t' : Task}

def Task.Hands (p : Provider) (env : Env) (t : Task) : Prop :=
  ∀ {s next s' t'}, t.run p env s = (.ok next, s') → t' ∈ next.pushed →
    Leads p env s.db.metadata s'.db.metadata t t'

theorem Leads.one {m m' : Metadata} {x : Task} (ht : t' ∈ [x]) (h : Leads p env m m' t x) :
    Leads p env m m' t t' :=
  List.mem_singleton.mp ht ▸ h

theorem mem_items {α : Type} {f : α → Task} {l : List α} (h : t' ∈ (Task.items f l).pushed) :
    t' = .mark ∨ ∃ a ∈ l, t' = f a := by
  obtain ⟨a, ha, h⟩ := List.mem_flatMap.mp h
  rcases List.mem_cons.mp h with rfl | h
  · exact Or.inr ⟨a, ha, rfl⟩
  · exact Or.inl (List.mem_singleton.mp h)

namespace Storage

/-- A read that succeeded, with what follows it. -/
theorem read_ok {α β : Type} {f : Metadata → α} {g : α → Work β} {b : β}
    (h : (metaQuery f >>= g) s = (.ok b, s')) :
    ∃ s1, Waits s s1 ∧ g (f s.db.metadata) s1 = (.ok b, s') := by
  obtain ⟨a, s1, h1, h⟩ := bind_ok h
  obtain ⟨hw, rfl⟩ := metaQuery_ok h1
  exact ⟨s1, hw, h⟩

theorem pushed_last {x : Work Unit} (h : last x s = (.ok next, s')) (ht : t' ∈ next.pushed) :
    False := by
  obtain ⟨_, s1, -, h⟩ := bind_ok h
  cases h
  cases ht

section Create

variable {u : UserID} {args : CreateActionArgs} {ref : Token} {provided : List ResolvedInput}

theorem leads_createResolve {todo : List CreateActionInput} :
    Task.Hands p env (.createResolve u args ref todo provided) := by
  intro s next s' t' h ht
  cases todo with
  | nil =>
    cases h
    exact .one ht .count
  | cons i todo =>
    obtain ⟨ri, s1, -, h⟩ := bind_ok h
    cases h
    exact .one ht .resolve

theorem leads_createCount : Task.Hands p env (.createCount u args ref provided) := by
  intro s next s' t' h ht
  obtain ⟨count, s1, -, h⟩ := bind_ok h
  rcases hf : fundArgs p u ref args provided count with e | fa <;> simp only [hf] at h
  · cases h
  · cases hm : p.mode <;> simp only [hm] at h <;> cases h <;> cases List.mem_singleton.mp ht
    · exact .direct hf
    · exact .reserve hf

theorem leads_createReserve {fa : FundArgs} :
    Task.Hands p env (.createReserve u args ref provided fa) := by
  intro s next s' t' h ht
  obtain ⟨r, s1, -, h⟩ := bind_ok h
  cases r <;> cases h <;> cases List.mem_singleton.mp ht
  · exact .reserveFailed
  · exact .fund

theorem leads_createFund {prog : Prog StoreCall StoreCall.Answer (Except FundErr FundResult)} :
    Task.Hands p env (.createFund u args ref provided prog) := by
  intro s next s' t' h ht
  cases prog with
  | done r =>
    cases r <;> cases h
    exact .one ht .persist
  | call c k =>
    obtain ⟨a, s1, -, h⟩ := bind_ok h
    cases h
    exact .one ht .fundNext

theorem leads_createPersist {r : FundResult} :
    Task.Hands p env (.createPersist u args ref provided r) := by
  intro s next s' t' h ht
  obtain ⟨r, s1, h1, h⟩ := bind_ok h
  cases r <;> cases h
  · exact .one ht (.persistFailed (metadata_of_doUnit_error (attempt_ok h1)))
  · cases ht

end Create

variable {u : UserID} {args : ProcessActionArgs}

theorem leads_process : Task.Hands p env (.process u args) := by
  intro s next s' t' h ht
  cases h
  rcases List.mem_append.mp ht with ht | ht
  · by_cases hn : (if p.immediateBroadcast = true then { args with isDelayed := false }
      else args).isNewTx = true
    · rw [if_pos hn] at ht
      exact .one ht .processFind
    · rw [if_neg hn] at ht
      cases ht
  · exact .one ht .processSend

theorem mem_of_findByReference {ref : Token} {m : Metadata} {row : TxRow}
    (h : (m.transactions.select fun r => r.userID = u && r.reference = ref).head? = some row) :
    row ∈ m.transactions ∧ row.userID = u ∧ row.reference = ref := by
  have := Table.mem_select.mp (List.mem_of_head? h)
  simpa using this

theorem leads_processFind : Task.Hands p env (.processFind u args) := by
  intro s next s' t' h ht
  obtain ⟨⟨ref, raw, row⟩, s1, h1, h⟩ := bind_ok h
  cases h
  cases List.mem_singleton.mp ht
  obtain ⟨ref', -, h1⟩ := bind_orThrow_ok h1
  obtain ⟨t, -, h1⟩ := bind_orThrow_ok h1
  obtain ⟨raw', -, h1⟩ := bind_orThrow_ok h1
  obtain ⟨-, h1⟩ := bind_require_ok h1
  obtain ⟨s6, -, h1⟩ := read_ok h1
  obtain ⟨row', hrow, h1⟩ := bind_orThrow_ok h1
  obtain ⟨hout, h1⟩ := bind_require_ok h1
  obtain ⟨-, h1⟩ := bind_require_ok h1
  obtain ⟨hraw, h1⟩ := bind_require_ok h1
  cases h1
  obtain ⟨hmem, hu, href⟩ := mem_of_findByReference hrow
  refine .validate hmem hu href hout ?_
  rcases hx : row.txid with _ | x
  · exact Or.inl rfl
  · rw [hx] at hraw
    exact Or.inr (congrArg some (by simpa using hraw))

theorem leads_processSend : Task.Hands p env (.processSend u args) := by
  intro s next s' t' h ht
  dsimp only [Task.run, runProcessSend] at h
  split_ifs at h <;> cases h
  · cases ht
  · obtain ⟨t, -, rfl⟩ := List.mem_map.mp ht
    exact .queue
  · obtain ⟨t, -, rfl⟩ := List.mem_map.mp ht
    exact .load

variable {t : TxID}

theorem leads_queueDelayed : Task.Hands p env (.queueDelayed t) := by
  intro s next s' t' h ht
  obtain ⟨r, s1, -, h⟩ := bind_ok h
  rcases r with e | _
  · cases e <;> cases h
    · cases ht
    · exact .one ht .queueRefused
  · cases h
    cases ht

theorem leads_broadcastLoad : Task.Hands p env (.broadcastLoad u t) := by
  intro s next s' t' h ht
  obtain ⟨⟨st, raw⟩, s1, h1, h⟩ := bind_ok h
  cases h
  cases List.mem_singleton.mp ht
  obtain ⟨s2, -, h1⟩ := read_ok h1
  obtain ⟨k, hk, h1⟩ := bind_orThrow_ok h1
  obtain ⟨raw', hraw, h1⟩ := bind_orThrow_ok h1
  obtain ⟨-, h1⟩ := bind_require_ok h1
  cases h1
  obtain ⟨hmem, hkt⟩ := Table.get?_eq_some.mp hk
  exact .claim hmem hkt hraw

variable {sender : Sender} {raw : RawTx}

theorem leads_claim {st : ProvenTxReqStatus} :
    Task.Hands p env (.claim sender t raw st) := by
  intro s next s' t' h ht
  obtain ⟨r, s1, -, h⟩ := bind_ok h
  rcases r with e | _
  · cases e <;> cases h
    exact .one ht .claimRefused
  · cases h
    exact .one ht .post

theorem leads_claimRefused {b : Bool} :
    Task.Hands p env (.claimRefused sender t raw b) := by
  intro s next s' t' h ht
  obtain ⟨st, s1, -, h⟩ := bind_ok h
  split at h
  · cases h
    cases ht
  · obtain ⟨_, s2, -, h⟩ := bind_ok h
    cases h
    dsimp only [Next.pushed] at ht
    split at ht
    · cases ht
    · exact .one ht .reclaim

theorem leads_reclaim : Task.Hands p env (.reclaim sender t raw) := by
  intro s next s' t' h ht
  obtain ⟨r, s1, -, h⟩ := bind_ok h
  rcases r with e | _
  · cases e <;> cases h
    cases ht
  · cases h
    exact .one ht .repost

theorem leads_post : Task.Hands p env (.post sender t raw) := by
  intro s next s' t' h ht
  dsimp only [Task.run, runPost] at h
  rcases hb : env.broadcast with _ | ⟨st, info⟩ | _ <;> simp only [hb] at h
  · cases h
    cases ht
  · cases sender <;> cases h <;> cases List.mem_singleton.mp ht
    · exact .rejectFind
    · exact .rejectMark
  · obtain ⟨_, s1, h1, h⟩ := bind_ok h
    cases h
    cases List.mem_singleton.mp ht
    rw [note_ok h1]
    exact .acceptFind (List.mem_append_right _ List.mem_cons_self)

theorem leads_acceptFind : Task.Hands p env (.acceptFind t raw) := by
  intro s next s' t' h ht
  obtain ⟨row, s1, h1, h⟩ := bind_ok h
  cases h
  cases List.mem_singleton.mp ht
  obtain ⟨s2, -, h1⟩ := read_ok h1
  obtain ⟨hrow, -⟩ := orThrow_ok h1
  have hmem : row ∈ (s.db.metadata.transactions.select fun r => r.txid = some t).reverse := by
    rcases Option.or_eq_some_iff.mp hrow with h | ⟨-, h⟩
    · exact List.mem_of_find?_eq_some h
    · exact List.mem_of_head? h
  obtain ⟨hr, hx⟩ := Table.mem_select.mp (List.mem_reverse.mp hmem)
  exact .acceptCommit hr (of_decide_eq_true hx)

theorem leads_sendWaiting {limit : ℕ} : Task.Hands p env (.sendWaiting limit) := by
  intro s next s' t' h ht
  obtain ⟨ks, s1, h1, h⟩ := bind_ok h
  cases h
  obtain ⟨th, hth, ht⟩ := List.mem_flatten.mp ht
  obtain ⟨k, hk, rfl⟩ := List.mem_map.mp hth
  cases List.mem_singleton.mp ht
  have hw := (metaStmt_wrote (by simp) h1).answer
  cases Except.ok.inj hw
  have := (List.mem_insertionSort _).mp (List.mem_of_mem_take hk)
  exact .sendOne (Table.mem_select.mp this).1

variable {k : KnownTx}

theorem leads_sendOne : Task.Hands p env (.sendOne k) := by
  intro s next s' t' h ht
  obtain ⟨raw, hraw, h⟩ := bind_orThrow_ok h
  obtain ⟨-, h⟩ := bind_require_ok h
  cases h
  exact .one ht (.sweepClaim hraw)

theorem leads_abort {ref : Token} : Task.Hands p env (.abort u ref) := by
  intro s next s' t' h ht
  dsimp only [Task.run, runAbort, abortFind, TransactionsRepo.findByReference] at h
  obtain ⟨s1, -, h⟩ := read_ok h
  rcases hrow : (s.db.metadata.transactions.select fun r =>
    r.userID = u && r.reference = ref).head? with _ | row <;> simp only [hrow] at h <;>
    obtain ⟨_, s2, h2, h⟩ := bind_ok h <;> cases h <;> cases List.mem_singleton.mp ht
  · exact .abortByTxID
  · obtain ⟨hr, hu, -⟩ := mem_of_findByReference hrow
    exact .abort hr hu

theorem mem_of_findByTxID {m : Metadata} {row : TxRow}
    (h : (m.transactions.select fun r => r.userID = u && r.txid = some t).reverse.head?
      = some row) :
    row ∈ m.transactions ∧ row.userID = u ∧ row.txid = some t := by
  have := Table.mem_select.mp (List.mem_reverse.mp (List.mem_of_head? h))
  simpa using this

theorem leads_abortByTxID : Task.Hands p env (.abortByTxID u t) := by
  intro s next s' t' h ht
  obtain ⟨found, s1, h1, h⟩ := bind_ok h
  obtain ⟨s2, -, h1⟩ := read_ok h1
  cases h1
  obtain ⟨row, hrow, h⟩ := bind_orThrow_ok h
  obtain ⟨-, h⟩ := bind_require_ok h
  cases h
  cases List.mem_singleton.mp ht
  obtain ⟨hr, hu, -⟩ := mem_of_findByTxID hrow
  exact .abortTxID hr hu

theorem leads_abortTx {row : TxRow} : Task.Hands p env (.abortTx u row) := by
  intro s next s' t' h ht
  dsimp only [Task.run, runAbortTx] at h
  cases hm : p.mode <;> simp only [hm] at h <;> obtain ⟨ops, s1, h1, h⟩ := bind_ok h <;> cases h
  · cases ht
  · cases List.mem_singleton.mp ht
    obtain ⟨⟨change, rfl⟩, hf, -⟩ := abortEnqueue_ok h1
    exact .abortInline hm hf

theorem leads_abortAbandoned {olderThan : Time} {limit : ℕ} :
    Task.Hands p env (.abortAbandoned olderThan limit) := by
  intro s next s' t' h ht
  obtain ⟨s1, -, h⟩ := read_ok h
  cases h
  rcases mem_items ht with rfl | ⟨row, hrow, rfl⟩
  · exact .mark
  · have := (List.mem_insertionSort _).mp (List.mem_of_mem_take hrow)
    exact .abandoned (Table.mem_select.mp this).1

theorem leads_sweepRef {ref : ReservationRef} : Task.Hands p env (.sweepRef ref) := by
  intro s next s' t' h ht
  obtain ⟨s1, -, h⟩ := read_ok h
  rcases hrow : (s.db.metadata.transactions.select fun r =>
    r.userID = ref.userID && r.reference = ref.reservation).head? with _ | row <;>
    simp only [hrow] at h
  · cases h
    cases List.mem_singleton.mp ht
    refine .orphan fun r hr hu href => ?_
    have : r ∈ s.db.metadata.transactions.select fun r =>
        r.userID = ref.userID && r.reference = ref.reservation :=
      Table.mem_select.mpr ⟨hr, by simp [hu, href]⟩
    rw [List.head?_eq_none_iff.mp hrow] at this
    cases this
  · obtain ⟨hr, hu, href⟩ := mem_of_findByReference hrow
    split_ifs at h with h1 h2 <;> cases h
    · exact .one ht (.sweepAbort hr hu)
    · exact .one ht (.heal hr hu href h2)
    · cases ht

theorem leads_sweepPins {ref : ReservationRef} {todo : List Outpoint} :
    Task.Hands p env (.sweepPins ref todo) := by
  intro s next s' t' h ht
  cases todo with
  | nil =>
    cases h
    exact .one ht .sweepOrphan
  | cons op todo =>
    obtain ⟨pinned, s1, -, h⟩ := bind_ok h
    split at h <;> cases h
    · cases ht
    · exact .one ht .sweepPins

variable {rec : TxRecord}

theorem leads_status : Task.Hands p env (.status rec) := by
  intro s next s' t' h ht
  obtain ⟨found, s1, h1, h⟩ := bind_ok h
  unfold statusLoad at h1
  split at h1
  · cases h1
    cases h
    cases ht
  · obtain ⟨_, s2, h2, h1⟩ := bind_ok h1
    obtain ⟨hk, -, hseen⟩ := noteIf_ok h2
    obtain ⟨hw, rfl⟩ := metaQuery_ok h1
    rw [hk] at h
    rcases hg : s.db.metadata.knownTxs.get? rec.txid with _ | k <;> simp only [hg] at h
    · cases h
      cases ht
    · obtain ⟨hmem, hkt⟩ := Table.get?_eq_some.mp hg
      rcases hr : statusRoute k rec <;> simp only [hr] at h <;> cases h
      · cases ht
      all_goals cases List.mem_singleton.mp ht
      · exact .record hmem hkt hr
      · refine .seen hmem hkt hr ?_
        rw [hw.db]
        exact hseen (seenClass_of_route hr)
      · exact .mined hmem hkt hr
      · exact .repair hmem hkt hr
      · exact .rejected hmem hkt hr

theorem verifyRecord_ok {proof : Option Proof} (h : verifyRecord p env rec s = (.ok proof, s')) :
    proof = env.verifyMined rec ∧ (proof.isSome = true →
      .proven rec.txid ∈ s'.db.metadata.audit) := by
  obtain ⟨_, s1, h1, h⟩ := bind_ok h
  obtain ⟨_, s2, h2, h⟩ := bind_ok h
  cases h
  exact ⟨rfl, (noteIf_ok h2).2.2⟩

theorem leads_mined : Task.Hands p env (.mined rec) := by
  intro s next s' t' h ht
  obtain ⟨proof, s1, h1, h⟩ := bind_ok h
  obtain ⟨hv, hn⟩ := verifyRecord_ok h1
  rcases proof with _ | proof <;> cases h
  · cases ht
  · exact .one ht (.minedCommit hv.symm (hn rfl))

theorem leads_repair : Task.Hands p env (.repair rec k) := by
  intro s next s' t' h ht
  obtain ⟨_, s0, -, h⟩ := bind_ok h
  obtain ⟨proof, s1, h1, h⟩ := bind_ok h
  obtain ⟨hv, hn⟩ := verifyRecord_ok h1
  rcases proof with _ | proof <;> cases h
  · cases ht
  · exact .one ht (.repairFind hv.symm (hn rfl))

theorem leads_repairFind {spender : TxID} {proof : Proof} :
    Task.Hands p env (.repairFind k spender proof) := by
  intro s next s' t' h ht
  obtain ⟨row, s1, h1, h⟩ := bind_ok h
  cases h
  cases List.mem_singleton.mp ht
  refine .repairCommit fun r hr => ?_
  obtain ⟨x, s2, h2, h1⟩ := bind_ok h1
  rcases x with e | rows <;> cases h1
  · cases hr
  · obtain ⟨-, rfl⟩ := metaQuery_ok (attempt_ok h2)
    have hmem : r ∈ (s.db.metadata.transactions.select fun r => r.txid = some k.txid).reverse := by
      rcases Option.or_eq_some_iff.mp hr with h | ⟨-, h⟩
      · exact List.mem_of_find?_eq_some h
      · exact List.mem_of_head? h
    obtain ⟨hr, hx⟩ := Table.mem_select.mp (List.mem_reverse.mp hmem)
    exact ⟨hr, of_decide_eq_true hx⟩

theorem notes_ok {α : Type} {f : α → Event} : ∀ {l : List α} {s s' : Session Db} {a : Unit},
    (l.forM fun x => note (f x)) s = (.ok a, s') →
    s'.db.metadata.knownTxs = s.db.metadata.knownTxs ∧ (∀ e ∈ s.db.metadata.audit,
      e ∈ s'.db.metadata.audit)
      ∧ ∀ x ∈ l, f x ∈ s'.db.metadata.audit
  | [], s, s', a, h => by
    cases h
    exact ⟨rfl, fun _ he => he, fun _ hx => nomatch hx⟩
  | x :: l, s, s', a, h => by
    obtain ⟨_, s1, h1, h⟩ := bind_ok h
    obtain ⟨hk, ha, hl⟩ := notes_ok h
    have hd := note_ok h1
    rw [hd] at hk ha
    refine ⟨hk, fun e he => ha e (List.mem_append_left _ he), fun y hy => ?_⟩
    rcases List.mem_cons.mp hy with rfl | hy
    · exact ha _ (List.mem_append_right _ List.mem_cons_self)
    · exact hl y hy

theorem mem_recs_of_fallback {known : List KnownTx} {recs : List TxRecord}
    (h : rec ∈ (batchPlan p env known recs).fallback) : rec ∈ recs := by
  obtain ⟨t, -, h⟩ := List.mem_flatMap.mp h
  split at h
  · cases h
  · split at h
    · exact (List.mem_filter.mp h).1
    · cases h

theorem leads_batch {recs : List TxRecord} : Task.Hands p env (.batch recs) := by
  intro s next s' t' h ht
  obtain ⟨known, s1, h1, h⟩ := bind_ok h
  obtain ⟨plan, s2, h2, h⟩ := bind_ok h
  obtain ⟨_, s3, h3, h2⟩ := bind_ok h2
  cases h2
  cases h
  obtain ⟨_, s4, h4, h1⟩ := bind_ok h1
  obtain ⟨hk, -, hseen⟩ := notes_ok h4
  have hload : s1.db = s4.db ∧ ∀ k ∈ known, k ∈ s.db.metadata.knownTxs := by
    split at h1
    · cases h1
      exact ⟨rfl, fun _ hk => nomatch hk⟩
    · obtain ⟨hw, rfl⟩ := metaQuery_ok h1
      refine ⟨hw.db, fun k hk' => ?_⟩
      rw [hk] at hk'
      exact (Table.mem_select.mp hk').1
  obtain ⟨-, hkeep, hproven⟩ := notes_ok h3
  rcases List.mem_cons.mp ht with rfl | ht
  · refine .batchCommit hload.2 (fun rec hrec hs hne => hkeep _ ?_) hproven
    rw [hload.1]
    exact hseen rec (List.mem_filter.mpr ⟨hrec, by simp [hs, hne]⟩)
  · obtain ⟨rec, hrec, rfl⟩ := List.mem_map.mp ht
    exact .fallback (mem_recs_of_fallback hrec)

theorem leads_internalize {args : InternalizeActionArgs} :
    Task.Hands p env (.internalize u args) := by
  intro s next s' t' h ht
  obtain ⟨plan, s1, h1, h⟩ := bind_ok h
  cases h
  cases List.mem_singleton.mp ht
  obtain ⟨-, h1⟩ := bind_require_ok h1
  obtain ⟨-, h1⟩ := bind_require_ok h1
  obtain ⟨_, s4, h4, h1⟩ := bind_ok h1
  obtain ⟨-, htx, hn⟩ := noteIf_ok h4
  obtain ⟨s5, hw, h1⟩ := read_ok h1
  cases h1
  refine .internalizeCommit rfl rfl rfl (by rw [hw.db]; exact hn) fun r hr => ?_
  rw [← htx]
  exact mem_of_findByTxID hr

variable {cfg : Reconcile}

theorem leads_reconcile {limit : ℕ} : Task.Hands p env (.reconcile cfg limit) := by
  intro s next s' t' h ht
  obtain ⟨ks, s1, h1, h⟩ := bind_ok h
  cases h
  rcases mem_items ht with rfl | ⟨k, hk, rfl⟩
  · exact .mark
  · have hw := (metaStmt_wrote (by simp) h1).answer
    cases Except.ok.inj hw
    have := (List.mem_insertionSort _).mp (List.mem_of_mem_take hk)
    obtain ⟨hmem, hsel⟩ := Table.mem_select.mp this
    rw [Bool.and_eq_true] at hsel
    exact .suspect hmem (of_decide_eq_true hsel.1)

theorem leads_rejectedSuspect
    (h : runRejectedSuspect p cfg k rec s = (.ok next, s')) (ht : t' ∈ next.pushed) :
    Leads p env s.db.metadata s'.db.metadata (.suspect cfg k) t' := by
  unfold runRejectedSuspect at h
  rcases hv : k.verifiedRejectedAt with _ | time <;> simp only [hv] at h
  · cases h
    exact .one ht .stamp
  · obtain ⟨t, s1, -, h⟩ := bind_ok h
    split_ifs at h <;> cases h <;> cases List.mem_singleton.mp ht
    · exact .conflict
    · exact .suspectPlan
    · exact .suspectFreeze

theorem leads_suspect : Task.Hands p env (.suspect cfg k) := by
  intro s next s' t' h ht
  dsimp only [Task.run, runSuspect] at h
  rcases hr : (env.getTx k.txid).record k.txid with _ | rec <;> simp only [hr] at h
  · cases h
    exact .one ht .leave
  · split_ifs at h
    · cases h
      rcases List.mem_cons.mp ht with rfl | ht
      · exact .recoveredUnfreeze
      · exact .one ht .recovered
    · exact leads_rejectedSuspect h ht
    · cases h
      exact .one ht .conflict
    · cases h
      exact .one ht .leave

theorem leads_conflictLocal {todo : List TxID} {ans : ConflictAnswers} :
    Task.Hands p env (.conflictLocal cfg k rec todo ans) := by
  intro s next s' t' h ht
  cases todo with
  | nil =>
    dsimp only [Task.run, runConflictLocal] at h
    rcases hc : conflictRelease p k rec ans with e | release <;> simp only [hc] at h <;> cases h
    · rcases List.mem_cons.mp ht with rfl | ht
      · exact .deferFreeze
      · exact .one ht .deferLeave
    · exact .one ht (.conflictPlan hc)
  | cons x todo =>
    obtain ⟨r, s1, -, h⟩ := bind_ok h
    cases h
    exact .one ht .localNext

theorem leads_planRefs {draft : PlanDraft} : Task.Hands p env (.planRefs draft) := by
  intro s next s' t' h ht
  obtain ⟨refs, s1, h1, h⟩ := bind_ok h
  cases h
  cases List.mem_singleton.mp ht
  refine .planRefs fun r hr => ?_
  obtain ⟨x, s2, h2, h1⟩ := bind_ok h1
  rcases x with e | rows <;> cases h1
  · cases hr
  · obtain ⟨-, rfl⟩ := metaQuery_ok (attempt_ok h2)
    obtain ⟨row, hrow, rfl⟩ := List.mem_map.mp hr
    obtain ⟨hmem, hx⟩ := Table.mem_select.mp (List.mem_reverse.mp hrow)
    exact ⟨row, hmem, of_decide_eq_true hx, rfl⟩

theorem leads_planSource {draft : PlanDraft} : Task.Hands p env (.planSource draft) := by
  intro s next s' t' h ht
  dsimp only [Task.run, runPlanSource] at h
  rcases htodo : draft.todo with _ | ⟨op, todo⟩ <;> simp only [htodo] at h
  · cases h
    exact .one ht .planChange
  · obtain ⟨dead, s1, h1, h⟩ := bind_ok h
    cases dead <;> cases h <;> cases List.mem_singleton.mp ht
    · exact .planSource htodo (Or.inl ⟨rfl, rfl⟩)
    · refine .planSource htodo (Or.inr ⟨rfl, rfl, ?_⟩)
      obtain ⟨x, s2, h2, h1⟩ := bind_ok h1
      rcases x with e | found
      · cases h1
      · obtain ⟨-, rfl⟩ := metaQuery_ok (attempt_ok h2)
        have hany := Except.ok.inj (Prod.mk.inj h1).1
        rcases hg : s.db.metadata.knownTxs.get? op.txid with _ | k
        · rw [hg] at hany
          cases hany
        · rw [hg] at hany
          obtain ⟨hk, hkt⟩ := Table.get?_eq_some.mp hg
          exact ⟨k, hk, hkt, hany⟩

theorem mem_txids_of_change {m : Metadata} {txids : List TxID} {o : OutputRow × TxID}
    (h : o ∈ (m.outputs.select fun o => o.change).filterMap fun o =>
      (m.outputTxID o).bind fun t => if t ∈ txids then some (o, t) else none) : o.2 ∈ txids := by
  obtain ⟨r, -, hr⟩ := List.mem_filterMap.mp h
  obtain ⟨t, -, hr⟩ := Option.bind_eq_some_iff.mp hr
  split at hr
  · cases hr
    assumption
  · cases hr

theorem leads_planChange {draft : PlanDraft} : Task.Hands p env (.planChange draft) := by
  intro s next s' t' h ht
  obtain ⟨ops, s1, h1, h⟩ := bind_ok h
  cases h
  cases List.mem_singleton.mp ht
  refine .release rfl rfl rfl rfl rfl fun op hop => ?_
  obtain ⟨x, s2, h2, h1⟩ := bind_ok h1
  rcases x with e | rows <;> cases h1
  · cases hop
  · obtain ⟨-, rfl⟩ := metaQuery_ok (attempt_ok h2)
    obtain ⟨o, ho, rfl⟩ := List.mem_map.mp hop
    exact List.mem_singleton.mp (mem_txids_of_change (List.mem_filter.mp ho).1)

theorem leads_release {plan : ReleasePlan} : Task.Hands p env (.release plan) := by
  intro s next s' t' h ht
  dsimp only [Task.run, runRelease] at h
  cases hm : p.mode <;> simp only [hm] at h <;> obtain ⟨_, s1, h1, h⟩ := bind_ok h <;> cases h
  · cases ht
  · cases List.mem_singleton.mp ht
    obtain ⟨_, s2, h2, -⟩ := bind_ok (doUnit_ok h1)
    exact .releaseInline hm (gate_ok h2)

theorem leads_repairOne : Task.Hands p env (.repairOne k) := by
  intro s next s' t' h ht
  dsimp only [Task.run, runRepairOne] at h
  rcases hp : storedProofRecord k with _ | rec <;> simp only [hp] at h
  · rcases hg : env.getTx k.txid with _ | _ | found <;> simp only [hg] at h
    · cases h
    · cases h
      cases ht
    · have hst : (if found.txid = "" then { found with txid := k.txid } else found).status
        = found.status := by
        split <;> rfl
      by_cases hm : found.status.isMinedClass = true
      · rw [if_pos (by rwa [hst])] at h
        cases h
        exact .one ht (.repairFound hp hg hm)
      · rw [if_neg (by rwa [hst]), hst] at h
        cases h
        exact .one ht (.repairRecord hp hg (by simpa using hm))
  · cases h
    exact .one ht (.repairStored hp)

theorem leads_demote {height : ℕ} : Task.Hands p env (.demote height) := by
  intro s next s' t' h ht
  dsimp only [Task.run, runDemote] at h
  split at h
  · obtain ⟨s1, -, h⟩ := read_ok h
    cases h
    rcases mem_items ht with rfl | ⟨k, hk, rfl⟩
    · exact .mark
    · have := (List.mem_insertionSort _).mp (List.mem_of_mem_take hk)
      obtain ⟨hmem, hc⟩ := Table.mem_select.mp this
      simp only [KnownTx.provenFrom, Bool.and_eq_true, decide_eq_true_eq] at hc
      exact .demoteOne hmem hc.1
  · cases h
    cases ht

end Storage

theorem Task.leads_run (h : t.run p env s = (.ok next, s')) (ht : t' ∈ next.pushed) :
    Leads p env s.db.metadata s'.db.metadata t t' := by
  cases t with
  | createResolve u args ref todo done => exact leads_createResolve h ht
  | createCount u args ref provided => exact leads_createCount h ht
  | createReserve u args ref provided fa => exact leads_createReserve h ht
  | createFund u args ref provided prog => exact leads_createFund h ht
  | createPersist u args ref provided r => exact leads_createPersist h ht
  | process u args => exact leads_process h ht
  | processFind u args => exact leads_processFind h ht
  | processSend u args => exact leads_processSend h ht
  | queueDelayed t => exact leads_queueDelayed h ht
  | queueRefused t =>
    obtain ⟨_, s1, -, h⟩ := bind_ok h
    obtain ⟨-, h⟩ := bind_require_ok h
    cases h
    cases ht
  | broadcastLoad u t => exact leads_broadcastLoad h ht
  | claim sender t raw st => exact leads_claim h ht
  | claimRefused sender t raw b => exact leads_claimRefused h ht
  | reclaim sender t raw => exact leads_reclaim h ht
  | post sender t raw => exact leads_post h ht
  | acceptFind t raw => exact leads_acceptFind h ht
  | rejectMark t st info =>
    obtain ⟨_, s1, -, h⟩ := bind_ok h
    obtain ⟨_, s2, -, h⟩ := bind_ok h
    cases h
    cases ht
  | sendWaiting limit => exact leads_sendWaiting h ht
  | sendOne k => exact leads_sendOne h ht
  | abort u ref => exact leads_abort h ht
  | abortByTxID u t => exact leads_abortByTxID h ht
  | abortTx u row => exact leads_abortTx h ht
  | abortAbandoned olderThan limit => exact leads_abortAbandoned h ht
  | sweepStale olderThan limit =>
    obtain ⟨refs, s1, -, h⟩ := bind_ok h
    cases h
    rcases mem_items ht with rfl | ⟨ref, -, rfl⟩
    · exact .mark
    · exact .sweepRef
  | sweepRef ref => exact leads_sweepRef h ht
  | sweepPins ref todo => exact leads_sweepPins h ht
  | status rec => exact leads_status h ht
  | mined rec => exact leads_mined h ht
  | repair rec k => exact leads_repair h ht
  | repairFind k spender proof => exact leads_repairFind h ht
  | batch recs => exact leads_batch h ht
  | batchCommit plan =>
    simp only [Task.run, runBatchCommit] at h
    split_ifs at h
    · cases h
      cases ht
    · exact (pushed_last h ht).elim
  | internalize u args => exact leads_internalize h ht
  | reconcile cfg limit => exact leads_reconcile h ht
  | suspect cfg k => exact leads_suspect h ht
  | leave cfg k =>
    obtain ⟨_, s1, -, h⟩ := bind_ok h
    split_ifs at h
    · exact (pushed_last h ht).elim
    · cases h
      cases ht
  | stamp t =>
    obtain ⟨_, s1, -, h⟩ := bind_ok h
    obtain ⟨_, s2, -, h⟩ := bind_ok h
    cases h
    exact .one ht .stampFreeze
  | conflictLocal cfg k rec todo ans => exact leads_conflictLocal h ht
  | planRefs draft => exact leads_planRefs h ht
  | planSource draft => exact leads_planSource h ht
  | planChange draft => exact leads_planChange h ht
  | release plan => exact leads_release h ht
  | poll kts =>
    obtain ⟨_, s1, -, h⟩ := bind_ok h
    cases h
    dsimp only [Next.pushed] at ht
    split at ht
    · cases ht
    · exact .one ht .pollApply
  | repairPolled kts =>
    obtain ⟨_, s1, -, h⟩ := bind_ok h
    cases h
    rcases mem_items ht with rfl | ⟨k, -, rfl⟩
    · exact .mark
    · exact .repairOne
  | repairOne k => exact leads_repairOne h ht
  | demote height => exact leads_demote h ht
  | demoteOne k =>
    simp only [Task.run, runDemoteOne] at h
    split_ifs at h
    · exact (pushed_last h ht).elim
    · cases h
      cases ht
  | mark =>
    cases h
    cases ht
  | create | conflict | conflictWinners | pollApply =>
    cases h
    exact .one ht (by constructor)
  | processValidate | rejectFind | healUnpin | healRelease | freezeFind | unfreezeFind | pollFind
  | repairBacklog =>
    obtain ⟨_, s1, -, h⟩ := bind_ok h
    cases h
    exact .one ht (by constructor)
  | inline | sweepOrphan | healDone =>
    obtain ⟨_, s1, -, h⟩ := bind_ok h
    cases h
    cases ht
  | createDirect | createRelease | processCommit | acceptCommit | rejectCommit | seen | minedCommit
  | rejected | record | repairCommit | internalizeCommit | freeze | unfreeze | drain | relinquish =>
    exact (pushed_last h ht).elim

theorem exec_leads (p : Provider) (env : Env) (t : Task) (s : Shared)
    (ht : t' ∈ (t.exec p env s).2.pushed) :
    Leads p env s.db.metadata (t.exec p env s).1.db.metadata t t' := by
  unfold Task.exec at ht ⊢
  rcases h : t.run p env ⟨s.db, s.now, env.beats, env.busy⟩ with ⟨e | next, s'⟩ <;> rw [h] at ht
  · cases ht
  · exact t.leads_run h ht

end ArcadeToolbox
