import ArcadeToolbox.System.Aborts
import ArcadeToolbox.System.Cycles

/-!
# The operations of a release

A release in Mode B commits its operations as rows of the outbox. A row that is there stays as it
is: where an earlier release of the same transaction has left one behind under the same key, what
was to be enqueued is lost. A row is also taken off by whoever runs another operation under its key.

Where at the commit of every release its keys are free, or stand for the very same operation without
a failed attempt, each operation stays on the outbox until it has been executed.
-/

namespace ArcadeToolbox

open Txn Uow Storage

/-- The outbox has a row for an operation under a key. -/
def Metadata.Queued (key : OutboxKey) (pl : OutboxPayload) (m : Metadata) : Prop :=
  ∃ e ∈ m.outbox, e.key = key ∧ e.payload = pl

/-- Somewhere in a run of several operations, one is executed with success. -/
def RunsOp {α : Type} (env : Env) (f : α → Work Unit) (payload : α → OutboxPayload)
    (pl : OutboxPayload) :
    List α → Session Db → Prop
  | [], _ => False
  | a :: as, s => (payload a = pl ∧ ∃ s', executeOutboxOp env pl s = (.ok (), s'))
      ∨ ∃ s', f a s = (.ok (), s') ∧ RunsOp env f payload pl as s'

/-- The inline unit and the drain execute operations. -/
def Task.Executes (env : Env) (pl : OutboxPayload) (s : Session Db) : Task → Prop
  | .inline ops => RunsOp env (runInlineOp env) (·.payload) pl ops s
  | .drain limit => ∃ pending s₁, OutboxRepo.fetchPending limit s = (.ok pending, s₁)
      ∧ RunsOp env (drainOp env) (·.payload) pl pending s₁
  | _ => False

def Task.inlined : Task → List QueuedOp
  | .inline ops => ops
  | _ => []

variable {env : Env} {key : OutboxKey} {pl : OutboxPayload} {m : Metadata} {now : Time} {α : Type}

theorem queued_congr {m' : Metadata} (he : m'.outbox = m.outbox) (h : m.Queued key pl) :
    m'.Queued key pl := by
  unfold Metadata.Queued
  rwa [he]

/-- Only the bookkeeping under its own key takes a row off. -/
theorem queued_apply {op : MetaOp} (hop : op ≠ .markDone key) (h : m.Queued key pl) :
    (op.apply now m).Queued key pl := by
  rcases hon : op.onOutbox with _ | _
  · exact queued_congr (outbox_apply hon) h
  obtain ⟨e, he, hk, hp⟩ := h
  cases op with
  | enqueue q => exact ⟨e, Table.mem_insert.mpr (Or.inl he), hk, hp⟩
  | markDone key' =>
    refine ⟨e, Table.mem_delete.mpr ⟨he, decide_eq_false fun hk' => hop ?_⟩, hk, hp⟩
    rw [← hk', hk]
  | recordError key' =>
    have hmem := (@Table.mem_update _ _ _ m.outbox (fun e => e.key = key')
      (fun e => { e with attempts := e.attempts + 1 }) OutboxEntry.key_attempt _).mpr ⟨e, he, rfl⟩
    refine ⟨_, hmem, ?_, ?_⟩ <;> split <;> assumption
  | _ => cases hon

section Units

variable {s : Session Db} {W : MetaOp → Prop} {C : CoinOp → Prop}

theorem queued_trace {x : Work α} (hx : Moves (Trace W C) x) (hW : ¬ W (.markDone key))
    (h : s.db.metadata.Queued key pl) : (x s).2.db.metadata.Queued key pl := by
  refine (hx s).writes.keeps (I := Metadata.Queued key pl) ?_ h
  rintro _ m _ ⟨op, hop, -, rfl⟩ hm
  exact queued_apply (fun he => hW (he ▸ hop)) hm

theorem queued_executeOutboxOp (env : Env) (pl' : OutboxPayload) (h : s.db.metadata.Queued key pl) :
    (executeOutboxOp env pl' s).2.db.metadata.Queued key pl :=
  queued_trace (W := fun op => ∃ parent since child earlier,
      op = .cascade parent since child earlier)
    (C := fun _ => True) (trace_executeOutboxOp (fun _ _ => trivial) (fun _ _ => trivial)
      (fun _ => trivial) fun parent since child => ⟨parent, since, child, _, rfl⟩)
    (by rintro ⟨_, _, _, _, he⟩; cases he) h

/-- An operation that is run under the key is the one of the row, and has succeeded if the row is
taken off. -/
theorem queued_attemptOp {pl' : OutboxPayload} {key' : OutboxKey} {f : Except Err Unit → Work Unit}
    (hok : ∀ a, f (.ok a) = OutboxRepo.markDone key')
    (herr : ∀ e, Moves (Trace (fun op => op = .recordError key') fun _ => True) (f (.error e)))
    (hkey : key' = key → pl' = pl) (h : s.db.metadata.Queued key pl) :
    (pl' = pl ∧ ∃ s', executeOutboxOp env pl s = (.ok (), s'))
    ∨ ((attempt (executeOutboxOp env pl') >>= f) s).2.db.metadata.Queued key pl := by
  by_cases hdone : pl' = pl ∧ ∃ s', executeOutboxOp env pl s = (.ok (), s')
  · exact Or.inl hdone
  · right
    have hafter := queued_executeOutboxOp env pl' h
    rw [bind_apply]
    unfold attempt
    rcases hx : executeOutboxOp env pl' s with ⟨e | a, s1⟩ <;> rw [hx] at hafter
    · exact queued_trace (herr e) (by simp) hafter
    · have hne : key' ≠ key := by
        intro hk
        obtain rfl := hkey hk
        exact hdone ⟨rfl, s1, hx⟩
      have hmark : (OutboxRepo.markDone key' s1).2.db.metadata.Queued key pl :=
        queued_trace (W := fun op => op = .markDone key') (C := fun _ => True) (trace_markDone rfl)
          (fun he => hne (MetaOp.markDone.inj he).symm) hafter
      rw [← hok a] at hmark
      exact hmark

theorem queued_runInlineOp (q : QueuedOp) (hq : q.key = key → q.payload = pl)
    (h : s.db.metadata.Queued key pl) :
    (q.payload = pl ∧ ∃ s', executeOutboxOp env pl s = (.ok (), s'))
    ∨ (runInlineOp env q s).2.db.metadata.Queued key pl :=
  queued_attemptOp (fun _ => rfl)
    (fun _ => moves_bind (moves_attempt (trace_recordError rfl)) fun _ => moves_pure _) hq h

theorem queued_drainOp (e : OutboxEntry) (he : e.key = key → e.payload = pl)
    (h : s.db.metadata.Queued key pl) :
    (e.payload = pl ∧ ∃ s', executeOutboxOp env pl s = (.ok (), s'))
    ∨ (drainOp env e s).2.db.metadata.Queued key pl :=
  queued_attemptOp (fun _ => rfl) (fun _ => trace_recordError rfl) he h

theorem queued_forM {f : α → Work Unit} {payload : α → OutboxPayload} {keyOf : α → OutboxKey}
    (hf : ∀ a (s : Session Db), (keyOf a = key → payload a = pl) → s.db.metadata.Queued key pl →
      (payload a = pl ∧ ∃ s', executeOutboxOp env pl s = (.ok (), s'))
        ∨ (f a s).2.db.metadata.Queued key pl) :
    ∀ (as : List α) (s : Session Db), (∀ a ∈ as, keyOf a = key → payload a = pl) →
      s.db.metadata.Queued key pl →
      RunsOp env f payload pl as s ∨ (as.forM f s).2.db.metadata.Queued key pl
  | [], _, _, h => Or.inr h
  | a :: as, s, has, h => by
    obtain ⟨ha, has⟩ := List.forall_mem_cons.mp has
    rcases hf a s ha h with hrun | hkept
    · exact Or.inl (Or.inl hrun)
    · change _ ∨ ((f a >>= fun _ => as.forM f) s).2.db.metadata.Queued key pl
      rw [bind_apply]
      rcases hx : f a s with ⟨e | _, s1⟩ <;> rw [hx] at hkept
      · exact Or.inr hkept
      · exact (queued_forM hf as s1 has hkept).imp (fun hr => Or.inr ⟨s1, hx, hr⟩) id

theorem queued_doUnit {mode : Mode} {x : Work α} (h : s.db.metadata.Queued key pl)
    (hx : (x s).2.db.metadata.Queued key pl) : (doUnit mode x s).2.db.metadata.Queued key pl := by
  unfold doUnit Uow.atomically
  rcases hxs : x s with ⟨e | a, s'⟩ <;> rw [hxs] at hx
  · cases mode <;> exact h
  · exact hx

theorem queued_runInline {mode : Mode} {ops : List QueuedOp}
    (hops : ∀ q ∈ ops, q.key = key → q.payload = pl) (h : s.db.metadata.Queued key pl) :
    RunsOp env (runInlineOp env) (·.payload) pl ops s
      ∨ (runInline env mode ops s).2.db.metadata.Queued key pl :=
  (queued_forM (fun q _ => queued_runInlineOp q) ops s hops h).imp id (queued_doUnit h)

theorem queued_drainOutbox {mode : Mode} {limit : ℕ} (h : s.db.metadata.Queued key pl) :
    (Task.drain limit).Executes env pl s
      ∨ (drainOutbox env mode limit s).2.db.metadata.Queued key pl := by
  have hfetch : (OutboxRepo.fetchPending limit s).2.db.metadata.Queued key pl :=
    queued_trace (W := fun _ => False) (C := fun _ => True) (trace_metaQuery _) id h
  by_cases hex : (Task.drain limit).Executes env pl s
  · exact Or.inl hex
  · refine Or.inr (queued_doUnit h ?_)
    rw [bind_apply]
    rcases hx : OutboxRepo.fetchPending limit s with ⟨e | pending, s1⟩ <;> rw [hx] at hfetch
    · exact hfetch
    -- what was fetched under the key is the row itself
    have hpending : ∀ e ∈ pending, e.key = key → e.payload = pl := by
      intro e he hek
      obtain ⟨-, rfl⟩ := metaQuery_ok hx
      obtain ⟨e0, he0, hk0, hp0⟩ := h
      have hmem := (Table.mem_select.mp ((List.mem_insertionSort _).mp (List.mem_of_mem_take he))).1
      rw [Table.eq_of_key hmem he0 (hek.trans hk0.symm), hp0]
    rcases queued_forM (fun e _ => queued_drainOp e) pending s1 hpending hfetch with hrun | hkept
    · exact absurd ⟨pending, s1, hx, hrun⟩ hex
    · dsimp only
      rw [bind_apply]
      rcases hy : pending.forM (drainOp env) s1 with ⟨e | _, s2⟩ <;> rw [hy] at hkept
      · exact hkept
      · exact queued_trace (W := fun _ => False) (C := fun _ => True) (s := s2)
          (x := OutboxRepo.countParked >>= fun _ => pure ())
          (moves_bind (trace_metaQuery _) fun _ => moves_pure _) id hkept

/-- No row stands in the way of an operation. -/
def Metadata.Free (q : QueuedOp) (m : Metadata) : Prop :=
  ∀ e ∈ m.outbox, e.key = q.key → e.payload = q.payload ∧ e.attempts = 0

/-- The operation has a row on which nothing has failed yet. -/
def Metadata.Enqueued (q : QueuedOp) (m : Metadata) : Prop :=
  ∃ e ∈ m.outbox, e.key = q.key ∧ e.payload = q.payload ∧ e.attempts = 0

theorem enqueued_enqueue {q q' : QueuedOp} {s' : Session Db} {a : Unit}
    (h : OutboxRepo.enqueue q'.owner q'.chunk q'.payload s = (.ok a, s'))
    (hsame : q'.key = q.key → q' = q) (hfree : s.db.metadata.Free q) :
    s'.db.metadata.Free q ∧ (s.db.metadata.Enqueued q ∨ q' = q → s'.db.metadata.Enqueued q) := by
  have hout : s'.db.metadata.outbox = s.db.metadata.outbox.insert
      ⟨q'.owner, q'.chunk, q'.payload, 0, s'.now⟩ := by
    rw [(metaStmt_wrote (by simp) h).metadata]
  refine ⟨fun e he hk => ?_, ?_⟩
  · rw [hout] at he
    rcases Table.mem_insert.mp he with he | ⟨rfl, -⟩
    · exact hfree e he hk
    · rw [← hsame hk]
      exact ⟨rfl, rfl⟩
  · unfold Metadata.Enqueued
    rw [hout]
    rintro (⟨e, he, hk, hp⟩ | rfl)
    · exact ⟨e, Table.mem_insert.mpr (Or.inl he), hk, hp⟩
    · by_cases hex : ∃ e ∈ s.db.metadata.outbox, e.key = q'.key
      · obtain ⟨e, he, hk⟩ := hex
        exact ⟨e, Table.mem_insert.mpr (Or.inl he), hk, hfree e he hk⟩
      · refine ⟨_, Table.mem_insert.mpr (Or.inr ⟨rfl, ?_⟩), rfl, rfl, rfl⟩
        exact Table.get?_eq_none.mpr fun e he hk => hex ⟨e, he, hk⟩

theorem enqueued_enqueueAll {q : QueuedOp} :
    ∀ {ops : List QueuedOp} {s s' : Session Db} {a : Unit}, enqueueAll ops s = (.ok a, s') →
      (∀ q' ∈ ops, q'.key = q.key → q' = q) → s.db.metadata.Free q →
      s.db.metadata.Enqueued q ∨ q ∈ ops → s'.db.metadata.Enqueued q
  | [], s, s', _, h, _, _, hq => by
    cases h
    rcases hq with hq | hq
    · exact hq
    · cases hq
  | q' :: ops, s, s', _, h, hsame, hfree, hq => by
    obtain ⟨_, s1, h1, h⟩ := bind_ok (f := fun _ => enqueueAll ops) h
    obtain ⟨hsame', hsame⟩ := List.forall_mem_cons.mp hsame
    obtain ⟨hfree, henq⟩ := enqueued_enqueue h1 hsame' hfree
    refine enqueued_enqueueAll h hsame hfree ?_
    rcases hq with hq | hq
    · exact Or.inl (henq (Or.inl hq))
    · rcases List.mem_cons.mp hq with rfl | hq
      · exact Or.inl (henq (Or.inr rfl))
      · exact Or.inr hq

theorem outboxOps_key {plan : ReleasePlan} {q q' : QueuedOp} (hq : q ∈ outboxOps plan)
    (hq' : q' ∈ outboxOps plan) (hk : q'.key = q.key) : q' = q := by
  rcases mem_outboxOps hq with rfl | ⟨i, r, hr, rfl⟩ | rfl | rfl <;>
    rcases mem_outboxOps hq' with rfl | ⟨i', r', hr', rfl⟩ | rfl | rfl <;>
    first | rfl | (cases hk; done) | skip
  cases hk
  rw [hr] at hr'
  cases hr'
  rfl

theorem outbox_gate {plan : ReleasePlan} (s : Session Db) :
    (gateAndFinalizeStatuses plan s).2.db.metadata.outbox = s.db.metadata.outbox := by
  refine (trace_gate (W := fun op => op.onOutbox = false) (C := fun _ => True) ?_ rfl rfl
      s).writes.keeps
    (I := fun m => m.outbox = s.db.metadata.outbox) ?_ rfl
  · intro op hp
    cases op <;> first | rfl | exact hp.elim
  · rintro _ m _ ⟨op, hop, -, rfl⟩ hm
    rw [outbox_apply hop, hm]

theorem enqueued_release {plan : ReleasePlan} {q : QueuedOp} {s' : Session Db} {a : Unit}
    (h : releaseEnqueue plan s = (.ok a, s')) (hq : q ∈ outboxOps plan)
    (hfree : s.db.metadata.Free q) :
    s'.db.metadata.Enqueued q := by
  obtain ⟨_, s1, h1, h⟩ := bind_ok (doUnit_ok h)
  have hout := @outbox_gate plan s
  rw [h1] at hout
  refine enqueued_enqueueAll h (fun q' hq' => outboxOps_key hq hq') ?_ (Or.inr hq)
  unfold Metadata.Free
  rwa [hout]

end Units

theorem markDone_of_writes {t : Task} (h : Writes env t (.markDone key)) :
    (∃ ops, t = .inline ops) ∨ (∃ limit, t = .drain limit) ∨ ∃ ref, key.owner = .abort ref := by
  cases h with
  | plain hp => exact hp.elim
  | inlineDone => exact Or.inl ⟨_, rfl⟩
  | drainDone => exact Or.inr (Or.inl ⟨_, rfl⟩)
  | healDone => exact Or.inr (Or.inr ⟨_, rfl⟩)

/-- A task keeps the row of an operation, or executes the operation. -/
theorem queued_exec {t : Task} {p : Provider} {env : Env} {s : Shared}
    (howner : ∀ ref, key.owner ≠ .abort ref) (ht : ∀ q ∈ t.inlined, q.key = key → q.payload = pl)
    (h : s.db.metadata.Queued key pl) :
    t.Executes env pl ⟨s.db, s.now, env.beats, env.busy⟩
      ∨ (t.exec p env s).1.db.metadata.Queued key pl := by
  by_cases hw : Writes env t (.markDone key)
  · rw [exec_fst]
    rcases markDone_of_writes hw with ⟨ops, rfl⟩ | ⟨limit, rfl⟩ | ⟨ref, href⟩
    · exact queued_runInline ht h
    · change _ ∨ (last (drainOutbox env p.mode limit) _).2.db.metadata.Queued key pl
      rw [last_snd]
      exact queued_drainOutbox h
    · exact absurd href (howner ref)
  · right
    refine (exec_writes p env t s).keeps (I := Metadata.Queued key pl) ?_ h
    rintro _ m _ ⟨op, hop, -, rfl⟩ hm
    exact queued_apply (fun he => hw (he ▸ hop)) hm

/-- What a task has still to run under the key of an operation is that operation. -/
def Task.Agrees (q : QueuedOp) (t : Task) : Prop := ∀ q' ∈ t.inlined, q'.key = q.key →
    q'.payload = q.payload

def Task.releases : Task → Option ReleasePlan
  | .release plan => some plan
  | _ => none

/-- The release whose first unit a step commits. -/
def committedRelease (p : Provider) (s : System) : Step → Option ReleasePlan
  | .spawn _ => none
  | .run i env => (Code.top s (.run i env : Step)).bind fun t =>
      if (t.exec p env s.shared).2.pushed.isEmpty then none else t.releases

/-- A release of `T` runs while no row of the outbox stands in the way of its operations, and no
other operation waits to be run under their keys. -/
def IntentStep (T : TxID) (s : System) : Step → Prop
  | .spawn _ => True
  | .run i env => ∀ plan ∈ (Code.top s (.run i env : Step)).bind Task.releases, plan.txid = T →
      ∀ q ∈ outboxOps plan, s.shared.db.metadata.Free q ∧ ∀ th ∈ s.threads, ∀ t ∈ th, t.Agrees q

/-- An operation is executed in the course of a run. -/
def Executed (p : Provider) (s : System) (ls : List Step) (pl : OutboxPayload) : Prop :=
  ∃ ls₁ l ls₂, ls = ls₁ ++ l :: ls₂ ∧ ∃ env t, Code.Runs ((wallet p).runs s ls₁) l env t
    ∧ t.Executes env pl ⟨((wallet p).runs s ls₁).shared.db, ((wallet p).runs s ls₁).shared.now,
        env.beats,
      env.busy⟩

/-- The failures recorded on the row of a key. -/
def Metadata.attemptsOn (key : OutboxKey) (m : Metadata) : ℕ :=
  ((m.outbox.get? key).map (·.attempts)).getD 0

/-- Since `s`, an operation has been executed, or its row is handed out to the drain, or it has used
up its own attempts. -/
def Covered (p : Provider) (s : System) (ls : List Step) (q : QueuedOp) : Prop :=
  Executed p s ls q.payload
  ∨ ∃ e ∈ ((wallet p).runs s ls).shared.db.metadata.outbox, e.key = q.key ∧ e.payload = q.payload
    ∧ (e.attempts < maxOutboxAttempts
      ∨ maxOutboxAttempts ≤ e.attempts - s.shared.db.metadata.attemptsOn q.key)

variable {p : Provider} {s : System} {l : Step} {ls : List Step} {plan : ReleasePlan} {q : QueuedOp}
  {t t' : Task} {env : Env}

theorem owner_of_mem_outboxOps (hq : q ∈ outboxOps plan) : q.owner = .tx plan.txid := by
  rcases mem_outboxOps hq with rfl | ⟨i, r, -, rfl⟩ | rfl | rfl <;> rfl

theorem key_ne_of_mem_abortOps {u : UserID} {row : TxRow} {change : List Outpoint} {q' : QueuedOp}
    (hq : q ∈ outboxOps plan) (hq' : q' ∈ abortOps u row change) : q'.key ≠ q.key := by
  have hop : q'.payload.op = .abortRelease ∨ q'.payload.op = .abortRemoveChange := by
    rcases List.mem_cons.mp hq' with rfl | hq'
    · exact Or.inl rfl
    · split at hq'
      · cases hq'
      · split at hq'
        · cases hq'
        · cases List.mem_singleton.mp hq'
          exact Or.inr rfl
  intro hk
  have hop' : q'.payload.op = q.payload.op := congrArg OutboxKey.op hk
  rcases mem_outboxOps hq with rfl | ⟨i, r, -, rfl⟩ | rfl | rfl <;> rw [hop'] at hop <;>
    rcases hop with hop | hop <;> cases hop

/-- What goes on to be run under the key of a row is the operation of the row. -/
theorem agrees_pushed (hq : q ∈ outboxOps plan) (hr : Code.Runs s l env t)
    (hok : IntentStep plan.txid s l) (h : s.shared.db.metadata.Queued q.key q.payload)
    (ht' : t' ∈ (t.exec p env s.shared).2.pushed) : t'.Agrees q := by
  have hl := exec_leads p env t s.shared ht'
  cases hl with
  | abortInline => exact fun q' hq' hk => absurd hk (key_ne_of_mem_abortOps hq hq')
  | releaseInline =>
    rename_i plan' _ _
    intro q' hq' hk
    have htx : plan'.txid = plan.txid := by
      have howner : q'.owner = q.owner := congrArg OutboxKey.owner hk
      rw [owner_of_mem_outboxOps hq, owner_of_mem_outboxOps hq'] at howner
      exact OutboxOwner.tx.inj howner
    have htop := hr.top
    obtain ⟨i, rest, rfl, -⟩ := hr
    obtain ⟨e, he, hek, hep⟩ := h
    have hfree := (hok plan' (by simp [htop, Task.releases]) htx q' hq').1
    exact (hfree e he (hek.trans hk.symm)).1.symm.trans hep
  | _ =>
    intro q' hq'
    cases hq'

theorem inlined_start (op : Operation) : ∀ t ∈ op.start, t.inlined = [] := by
  intro t ht
  cases op with
  | checkProofs =>
    simp only [Operation.start, List.mem_cons, List.not_mem_nil, or_false] at ht
    rcases ht with rfl | rfl | rfl <;> rfl
  | _ =>
    cases List.mem_singleton.mp ht
    rfl

theorem agrees_start (op : Operation) : ∀ t ∈ op.start, t.Agrees q := by
  intro t ht q' hq'
  rw [inlined_start op t ht] at hq'
  cases hq'

/-- A step executes the operation, or keeps its row and what waits to be run under its key. -/
theorem queued_step (hq : q ∈ outboxOps plan) (hok : IntentStep plan.txid s l)
    (h : s.shared.db.metadata.Queued q.key q.payload)
    (hA : Code.Waiting (fun _ => Task.Agrees q) s) :
    (∃ env t, Code.Runs s l env t ∧ t.Executes env q.payload ⟨s.shared.db, s.shared.now,
      env.beats, env.busy⟩)
    ∨ ((wallet p).step s l).shared.db.metadata.Queued q.key q.payload
      ∧ Code.Waiting (fun _ => Task.Agrees q) ((wallet p).step s l) := by
  by_cases hex : ∃ env t, Code.Runs s l env t
      ∧ t.Executes env q.payload ⟨s.shared.db, s.shared.now, env.beats, env.busy⟩
  · exact Or.inl hex
  · right
    have howner : ∀ ref, q.key.owner ≠ .abort ref := by
      intro ref href
      rw [show q.key.owner = q.owner from rfl, owner_of_mem_outboxOps hq] at href
      cases href
    refine @Code.waiting_step _ _ _ _ (wallet p) s l (fun d => d.db.metadata.Queued q.key q.payload)
      (fun d => d.db.metadata.Queued q.key q.payload) _ (fun _ => Task.Agrees q) h hA id
      (fun _ => id) (fun op _ => agrees_start op) fun env t hr => ⟨?_, ?_, hA.others l⟩
    · exact (queued_exec howner (hr.waiting hA) h).resolve_left fun hrun => hex ⟨env, t, hr, hrun⟩
    · exact fun t' => agrees_pushed hq hr hok h

theorem Executed.concat (l : Step) {pl : OutboxPayload} (h : Executed p s ls pl) :
    Executed p s (ls ++ [l]) pl := by
  obtain ⟨ls1, l1, ls2, rfl, hrun⟩ := h
  exact ⟨ls1, l1, ls2 ++ [l], by simp, hrun⟩

theorem queued_runs (hq : q ∈ outboxOps plan) (hok : (wallet p).Along (IntentStep plan.txid) s ls)
    (h : s.shared.db.metadata.Queued q.key q.payload)
    (hA : Code.Waiting (fun _ => Task.Agrees q) s) :
    Executed p s ls q.payload
    ∨ ((wallet p).runs s ls).shared.db.metadata.Queued q.key q.payload
      ∧ Code.Waiting (fun _ => Task.Agrees q) ((wallet p).runs s ls) := by
  induction ls using List.reverseRecOn with
  | nil => exact Or.inr ⟨h, hA⟩
  | append_singleton ls l ih =>
    obtain ⟨hls, hl⟩ := Code.along_concat.mp hok
    rcases ih hls with hex | ⟨hrow, hwait⟩
    · exact Or.inl (hex.concat l)
    · rw [Code.runs_concat]
      exact (queued_step hq hl hrow hwait).imp (fun hex => ⟨ls, l, [], rfl, hex⟩) id

theorem runs_of_committedRelease (hp : p.mode = .b) (h : committedRelease p s l = some plan) :
    ∃ env s', Code.Runs s l env (.release plan)
      ∧ releaseEnqueue plan ⟨s.shared.db, s.shared.now, env.beats, env.busy⟩ = (.ok (), s')
      ∧ ((wallet p).step s l).shared.db = s'.db := by
  rcases l with op | ⟨i, env⟩
  · cases h
  obtain ⟨t, htop, h⟩ := Option.bind_eq_some_iff.mp h
  split at h
  · cases h
  rename_i hpush
  obtain ⟨env', hr⟩ := Code.runs_of_top htop
  obtain rfl : env' = env := by
    obtain ⟨_, _, he, -⟩ := hr
    cases he
    rfl
  cases t with
  | release plan' =>
    cases h
    have hrun : (Task.release plan).run p env' = releaseEnqueue plan >>= fun _ =>
        pure (.go [.inline (outboxOps plan)]) := by
      simp only [Task.run, runRelease, hp]
    have hshared := hr.step_shared (c := wallet p)
    change ((wallet p).step s (.run i env')).shared = ((Task.release plan).exec p env' s.shared).1
        at hshared
    rw [exec_fst, hrun, bind_apply] at hshared
    unfold Task.exec at hpush
    rw [hrun, bind_apply] at hpush
    rcases hx : releaseEnqueue plan ⟨s.shared.db, s.shared.now, env'.beats, env'.busy⟩
      with ⟨e | _, s'⟩ <;> rw [hx] at hpush hshared
    · exact absurd rfl hpush
    · exact ⟨env', s', hr, hx, by rw [hshared]; rfl⟩
  | _ => cases h

/-- Once a release has committed in Mode B, each of its operations is executed or stays on the
outbox at every later point, whatever runs and crashes in between, if every release of the
transaction finds the keys of its operations free. -/
theorem release_covered (p : Provider) (hp : p.mode = .b) (s : System) (l : Step) (ls : List Step)
    (plan : ReleasePlan) (hcommit : committedRelease p s l = some plan)
    (hok : (wallet p).Along (IntentStep plan.txid) s (l :: ls)) :
    ∀ q ∈ outboxOps plan, Covered p ((wallet p).step s l) ls q := by
  intro q hq
  obtain ⟨env, s', hr, hx, hdb⟩ := runs_of_committedRelease hp hcommit
  have hstep : s.shared.db.metadata.Free q ∧ ∀ th ∈ s.threads, ∀ t ∈ th, t.Agrees q := by
    have htop := hr.top
    have hl := hok.1
    obtain ⟨i, rest, rfl, -⟩ := hr
    exact hl plan (by simp [htop, Task.releases]) rfl q hq
  obtain ⟨e, he, hk, hpay, hzero⟩ := enqueued_release hx hq hstep.1
  rw [← hdb] at he
  have hrow : ((wallet p).step s l).shared.db.metadata.Queued q.key q.payload := ⟨e, he, hk, hpay⟩
  have hwait : Code.Waiting (fun _ => Task.Agrees q) ((wallet p).step s l) := by
    have hA : Code.Waiting (fun _ => Task.Agrees q) s := hstep.2
    refine (@Code.waiting_step _ _ _ _ (wallet p) s l (fun _ => True) (fun _ => True) _
      (fun _ => Task.Agrees q) trivial hA id (fun _ => id) (fun op _ => agrees_start op)
      fun env' t hr' => ⟨trivial, fun t' ht' => ?_, hA.others l⟩).2
    obtain rfl : Task.release plan = t := Option.some.inj (hr.top.symm.trans hr'.top)
    have hl := exec_leads p env' (.release plan) s.shared ht'
    intro q' hq' hk
    cases hl with
    | releaseInline => exact congrArg QueuedOp.payload (outboxOps_key hq hq' hk)
    | mark => cases hq'
  rcases queued_runs hq hok.2 hrow hwait with hex | ⟨⟨e', he', hk', hp'⟩, -⟩
  · exact Or.inl hex
  · refine Or.inr ⟨e', he', hk', hp', ?_⟩
    have hon : ((wallet p).step s l).shared.db.metadata.attemptsOn q.key = 0 := by
      unfold Metadata.attemptsOn
      rw [Table.get?_eq_some.mpr ⟨he, hk⟩, Option.map_some, Option.getD_some, hzero]
    rw [hon]
    exact Nat.lt_or_ge _ _

instance (q : QueuedOp) (m : Metadata) : Decidable (m.Free q) :=
  inferInstanceAs (Decidable (∀ e ∈ m.outbox.rows, _))

instance (q : QueuedOp) (t : Task) : Decidable (t.Agrees q) :=
  inferInstanceAs (Decidable (∀ q' ∈ t.inlined, _))

instance (T : TxID) (s : System) : ∀ l : Step, Decidable (IntentStep T s l)
  | .spawn _ => isTrue trivial
  | .run i env => inferInstanceAs (Decidable (∀ plan ∈ (Code.top s (.run i env : Step)).bind _, _))

/-- The outpoints that an operation is about. -/
def OutboxPayload.outpoints : OutboxPayload → List Outpoint
  | .unspend _ ops | .release _ ops | .removePhantom ops | .removeMinted _ ops
  | .abortRemoveChange _ ops => ops
  | .abortRelease _ _ => []

/-- A user is paid by an output of a transaction without a proof. -/
def giftSteps (u : UserID) (vout thread : ℕ) (reference : Token) : List Step :=
  .spawn (.internalizeAction u ⟨"gift", [⟨vout, .walletPayment⟩]⟩) ::
    List.replicate 2 (.run thread { Env.quiet with reference := reference })

def giftRejectedSteps (thread : ℕ) : List Step :=
  .spawn (.applyStatusUpdate ⟨"gift", .rejected, 0, "", [], none⟩) ::
    List.replicate 2 (.run thread Env.quiet)

/-- The transaction is rejected, and two passes bring it to its release. -/
def giftReleaseSteps : List Step :=
  giftSteps 1 0 0 "payment" ++ giftRejectedSteps 1 ++ passSteps 2 "gift" 6 ++ passSteps 3 "gift" 6

/-- The release commits and its operations are not run; another user is paid by the transaction, it
is rejected again, and comes to a second release. -/
def secondReleaseSteps : List Step :=
  giftReleaseSteps ++ [.run 3 (Env.rejecting "gift")] ++ giftSteps 2 1 4 "second"
    ++ giftRejectedSteps 5 ++ passSteps 6 "gift" 6 ++ passSteps 7 "gift" 6

theorem invalidTx_terminal : ProvenTxReqStatus.invalidTx.isTerminalFailure = true := rfl

def secondPlan : ReleasePlan :=
  { txid := "gift", terminalKnown := ⟨.invalidTx, invalidTx_terminal⟩,
    refs := ["second", "payment"],
    realInputs := [⟨"parent", 0⟩], phantomInputs := [], changeOps := [⟨"gift", 0⟩, ⟨"gift", 1⟩] }

/-- The outbox and the coins after the second release. -/
theorem second_release_uncovered :
    committedRelease (paidProvider .b)
      ((wallet (paidProvider .b)).runs System.initial secondReleaseSteps)
      (.run 7 Env.quiet) = some secondPlan
    ∧ (∃ q ∈ outboxOps secondPlan, ⟨"gift", 1⟩ ∈ q.payload.outpoints)
    ∧ (∀ e ∈ ((wallet (paidProvider .b)).runs System.initial
        (secondReleaseSteps ++ [.run 7 Env.quiet])).shared.db.metadata.outbox.rows,
      ⟨"gift", 1⟩ ∉ e.payload.outpoints)
    ∧ ((wallet (paidProvider .b)).runs System.initial (secondReleaseSteps
        ++ [.run 7 Env.quiet, .spawn (.drainOutbox 10),
          .run 8 Env.quiet])).shared.db.metadata.outbox.rows = []
    ∧ ∃ r ∈ ((wallet (paidProvider .b)).runs System.initial (secondReleaseSteps
        ++ [.run 7 Env.quiet, .spawn (.drainOutbox 10),
          .run 8 Env.quiet])).shared.db.utxo.rows.rows,
      r.outpoint = ⟨"gift", 1⟩ := by
  decide +kernel

def firstPlan : ReleasePlan :=
  { secondPlan with refs := ["payment"], changeOps := [⟨"gift", 0⟩] }

theorem release_covered_first :
    Covered (paidProvider .b)
      ((wallet (paidProvider .b)).step ((wallet (paidProvider .b)).runs System.initial
        giftReleaseSteps)
        (.run 3 Env.quiet)) [.spawn (.drainOutbox 1), .run 4 Env.quiet]
      ⟨.tx "gift", 0, .removeMinted "gift" [⟨"gift", 0⟩]⟩ :=
  release_covered (paidProvider .b) rfl
    ((wallet (paidProvider .b)).runs System.initial giftReleaseSteps) (.run 3 Env.quiet)
    [.spawn (.drainOutbox 1), .run 4 Env.quiet] firstPlan (by decide +kernel) (by decide +kernel) _
    (by decide)

end ArcadeToolbox
