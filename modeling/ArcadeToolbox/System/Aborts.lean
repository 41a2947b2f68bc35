import ArcadeToolbox.System.Replays

/-!
# Aborts through the outbox

In Mode B an abort commits the aborted row together with an `ABORT_RELEASE` row of the outbox, and
only then gives the coins back. Whoever does so acts on a row of the outbox or on a row that it read
as aborted, so wherever a coin of the action is given back, its transactions row was durably aborted
before.
-/

namespace ArcadeToolbox

open Txn Uow Storage

variable {m : Metadata} {now : Time} {u : UserID} {ref : Token}

def Metadata.HasRow (m : Metadata) (id : TransactionID) (u : UserID) (ref : Token) : Prop :=
  ∃ r ∈ m.transactions, r.transactionID = id ∧ r.userID = u ∧ r.reference = ref

/-- What no write takes from a row that meets its guard. -/
def TxRow.Keeps (P : TxRow → Prop) : Prop := ∀ (w : TxWrite) (r : TxRow), w.guard r = true →
    P r → P (w.edit r)

section Keeps

variable {P : TxRow → Prop}

theorem exists_row_writeTx (hP : TxRow.Keeps P) (h : ∃ r ∈ m.transactions, P r) (w : TxWrite)
    (sel : TxRow → Bool) : ∃ r ∈ (m.writeTx w sel).transactions, P r := by
  obtain ⟨r, hr, hPr⟩ := h
  refine ⟨_, Metadata.mem_writeTx.mpr ⟨r, hr, rfl⟩, ?_⟩
  split
  · rename_i hg
    exact hP w r (Bool.and_eq_true_iff.mp hg).2 hPr
  · exact hPr

theorem exists_row_insertTx (h : ∃ r ∈ m.transactions, P r) (tx : NewTx) :
    ∃ r ∈ (m.insertTx tx now).2.transactions, P r := by
  obtain ⟨r, hr, hPr⟩ := h
  unfold Metadata.insertTx
  split
  · exact ⟨r, hr, hPr⟩
  · exact ⟨r, Table.mem_insert.mpr (Or.inl hr), hPr⟩

/-- A row is never deleted, and a write changes it only under its guard. -/
theorem exists_row_apply (hP : TxRow.Keeps P) (h : ∃ r ∈ m.transactions, P r) (op : MetaOp) :
    ∃ r ∈ (op.apply now m).transactions, P r := by
  cases op with
  | known | cascade =>
    rw [MetaOp.apply, Metadata.writeKnownOne_transactions]
    exact h
  | credit t proof =>
    rw [MetaOp.apply, upsertKnown_transactions]
    exact h
  | txStatus st expected ts => exact exists_row_writeTx hP h _ _
  | insertTx tx => exact exists_row_insertTx h tx
  | adopt tx t => exact exists_row_writeTx hP (exists_row_insertTx h tx) _ _
  | fence row =>
    rw [fence_transactions]
    exact exists_row_writeTx hP h _ _
  | store id t sts =>
    simp only [MetaOp.apply, Metadata.record, Metadata.log, upsertKnown_transactions]
    exact exists_row_writeTx hP (exists_row_writeTx hP h _ _) _ _
  | knownAll | note | outputs | enqueue | markDone | recordError => exact h

end Keeps

theorem hasRow_apply {id : TransactionID} (h : m.HasRow id u ref) (op : MetaOp) :
    (op.apply now m).HasRow id u ref :=
  exists_row_apply (fun w _ _ h => by cases w <;> exact h) h op

theorem upsertKnown_outbox (kt : NewKnownTx) (skip : List ProvenTxReqStatus) :
    (m.upsertKnown kt skip now).2.outbox = m.outbox := by
  rcases Metadata.upsertKnown_cases kt skip now m with ⟨-, h⟩ | ⟨-, -, -, ⟨-, h⟩ | ⟨-, h⟩⟩ <;>
    exact congrArg (fun x => x.2.outbox) h

theorem writeKnownOne_outbox (w : KnownWrite) (t : TxID) :
    (m.writeKnownOne w t now).2.outbox = m.outbox := by
  rcases Metadata.writeKnownOne_cases w t now m with ⟨-, -, -, -, h⟩ | ⟨-, -, -, -, h⟩ | ⟨-, h⟩ <;>
    exact congrArg (fun x => x.2.outbox) h

theorem insertTx_outbox (tx : NewTx) : (m.insertTx tx now).2.outbox = m.outbox := by
  unfold Metadata.insertTx
  split <;> rfl

def MetaOp.onOutbox : MetaOp → Bool
  | .enqueue _ | .markDone _ | .recordError _ => true
  | _ => false

theorem outbox_apply {op : MetaOp} (h : op.onOutbox = false) :
    (op.apply now m).outbox = m.outbox := by
  cases op with
  | known | cascade => exact writeKnownOne_outbox _ _
  | credit => exact upsertKnown_outbox _ _
  | insertTx | adopt => exact insertTx_outbox _
  | fence row =>
    simp only [MetaOp.apply]
    rcases row.txid with _ | t
    · rfl
    · exact writeKnownOne_outbox _ _
  | store =>
    simp only [MetaOp.apply, Metadata.record, Metadata.log, upsertKnown_outbox]
    rfl
  | enqueue | markDone | recordError => cases h
  | knownAll | note | txStatus | outputs => rfl

/-- Where a row comes from that is in the outbox after a write. -/
inductive Metadata.EntryAfter (now : Time) (m : Metadata) : MetaOp → OutboxEntry → Prop
  | kept {op : MetaOp} {e : OutboxEntry} : e ∈ m.outbox → EntryAfter now m op e
  | enqueued {q : QueuedOp} : EntryAfter now m (.enqueue q) ⟨q.owner, q.chunk, q.payload, 0, now⟩
  | failed {e : OutboxEntry} : e ∈ m.outbox →
      EntryAfter now m (.recordError e.key) { e with attempts := e.attempts + 1 }

theorem entryAfter_apply {op : MetaOp} {e : OutboxEntry} (h : e ∈ (op.apply now m).outbox) :
    m.EntryAfter now op e := by
  rcases hop : op.onOutbox with _ | _
  · rw [outbox_apply hop] at h
    exact .kept h
  cases op with
  | enqueue q =>
    rcases Table.mem_insert.mp h with h | ⟨rfl, -⟩
    · exact .kept h
    · exact .enqueued
  | markDone key => exact .kept (Table.mem_delete.mp h).1
  | recordError key =>
    obtain ⟨e0, he0, rfl⟩ := (@Table.mem_update _ _ _ m.outbox _ _ OutboxEntry.key_attempt e).mp h
    split
    · rename_i hk
      rw [← of_decide_eq_true hk]
      exact .failed he0
    · exact .kept he0
  | _ => cases hop

/-- The rows of the outbox after a task: those of before, and what the task enqueued. -/
theorem outbox_exec (p : Provider) (env : Env) (t : Task) (s : Shared) :
    ∀ e ∈ (t.exec p env s).1.db.metadata.outbox,
      (∃ e0 ∈ s.db.metadata.outbox, e0.payload = e.payload)
      ∨ ∃ q, Writes env t (.enqueue q) ∧ q.payload = e.payload := by
  refine (exec_writes p env t s).keeps
    (I := fun m => ∀ e ∈ m.outbox, (∃ e0 ∈ s.db.metadata.outbox, e0.payload = e.payload)
      ∨ ∃ q, Writes env t (.enqueue q) ∧ q.payload = e.payload) ?_ fun e he => Or.inl ⟨e, he, rfl⟩
  rintro now m _ ⟨op, hw, -, rfl⟩ hI e he
  cases entryAfter_apply he with
  | kept h => exact hI e h
  | enqueued => exact Or.inr ⟨_, hw, rfl⟩
  | failed h =>
    have hpay := hI _ h
    exact hpay

theorem abortTx_coins {p : Provider} (hp : p.mode = .b) (env : Env) (row : TxRow) (s : Shared) :
    ((Task.abortTx u row).exec p env s).1.db.utxo = s.db.utxo := by
  have hmoves : Moves (Trace (fun _ => True) fun _ => False) (runAbortTx p u row) := by
    unfold runAbortTx
    rw [hp]
    exact moves_bind (trace_abortEnqueue (fun _ _ => trivial) trivial fun _ _ _ => trivial)
      fun _ => moves_pure _
  rw [exec_fst]
  exact (hmoves ⟨s.db, s.now, env.beats, env.busy⟩).coins.keeps
    (I := fun st : Stock => st.1 = s.db.utxo) (fun ⟨_, hop, _⟩ _ => hop.elim) rfl

theorem abortTx_fenced {p : Provider} (hp : p.mode = .b) (env : Env) (row : TxRow) (s : Shared) :
    ((Task.abortTx u row).exec p env s).1.db.metadata = s.db.metadata
    ∨ Fenced row ((Task.abortTx u row).exec p env s).1.db.metadata := by
  rw [exec_fst]
  rcases h : (Task.abortTx u row).run p env ⟨s.db, s.now, env.beats, env.busy⟩ with ⟨e | next, s'⟩
  · left
    change runAbortTx p u row _ = _ at h
    unfold runAbortTx at h
    simp only [hp, bind_apply] at h
    split at h
    · cases h
    · rename_i hx
      cases h
      exact metadata_of_doUnit_error hx
  · right
    change runAbortTx p u row _ = _ at h
    unfold runAbortTx at h
    simp only [hp] at h
    obtain ⟨ops, s1, h1, h⟩ := bind_ok h
    cases h
    exact (abortEnqueue_ok h1).2.1

/-- The transactions row of the action is aborted. -/
def WasAborted (u : UserID) (ref : Token) (d : Shared) : Prop :=
  ∃ r ∈ d.db.metadata.transactions, r.userID = u ∧ r.reference = ref ∧ r.status = .aborted

theorem wasAborted_of_fenced {row : TxRow} {d : Shared} (hf : Fenced row d.db.metadata)
    (hrow : d.db.metadata.HasRow row.transactionID u row.reference) :
    WasAborted u row.reference d := by
  obtain ⟨r, hr, hid, hst⟩ := hf
  obtain ⟨r', hr', hid', hu, href⟩ := hrow
  have : r' = r := Table.eq_of_key hr' hr (hid'.trans hid.symm)
  subst this
  exact ⟨r', hr', hu, href, hst⟩

section Runs

variable (p : Provider)

/-- Every abort on the outbox is of an action that was aborted. -/
def QueuedAborts (ls : List Step) (d : Shared) : Prop :=
  ∀ e ∈ d.db.metadata.outbox, ∀ u ref, e.payload = .abortRelease u ref →
    (wallet p).Once System.initial (WasAborted u ref) ls

/-- The same for what waits to be run inline or healed, and an abort that waits knows its row. -/
def Task.AbortKnown (ls : List Step) (d : Shared) : Task → Prop
  | .abortTx u row => d.db.metadata.HasRow row.transactionID u row.reference
  | .inline ops => ∀ q ∈ ops, ∀ u ref, q.payload = .abortRelease u ref →
      (wallet p).Once System.initial (WasAborted u ref) ls
  | .healUnpin ref | .healRelease ref =>
      (wallet p).Once System.initial (WasAborted ref.userID ref.reservation) ls
  | _ => True

end Runs

variable {p : Provider} {ls : List Step} {d : Shared} {t t' : Task} {env : Env}

theorem abortRelease_mem_abortOps {row : TxRow} {change : List Outpoint} {q : QueuedOp} {v : UserID}
    (hq : q ∈ abortOps v row change) (h : q.payload = .abortRelease u ref) :
    u = v ∧ ref = row.reference := by
  rcases List.mem_cons.mp hq with rfl | hq
  · cases h
    exact ⟨rfl, rfl⟩
  · split at hq
    · cases hq
    · split at hq
      · cases hq
      · cases List.mem_singleton.mp hq
        cases h

theorem abortRelease_not_mem_outboxOps {plan : ReleasePlan} {q : QueuedOp}
    (hq : q ∈ outboxOps plan) :
    q.payload ≠ .abortRelease u ref := by
  intro h
  rcases mem_outboxOps hq with rfl | ⟨i, r, -, rfl⟩ | rfl | rfl <;> cases h

theorem Task.AbortKnown.mono (l : Step) (h : t.AbortKnown p ls d) :
    t.AbortKnown p (ls ++ [l]) d := by
  cases t with
  | inline ops => exact fun q hq u ref he => (h q hq u ref he).concat l
  | healUnpin ref => exact Code.Once.concat l h
  | healRelease ref => exact Code.Once.concat l h
  | _ => exact h

theorem Task.AbortKnown.exec (h : t'.AbortKnown p ls d) (env : Env) (t : Task) :
    t'.AbortKnown p ls (t.exec p env d).1 := by
  cases t' with
  | abortTx u row =>
    exact (exec_writes p env t d).keeps (I := fun m => m.HasRow row.transactionID u row.reference)
      (fun ⟨op, _, _, he⟩ hr => he ▸ hasRow_apply hr op) h
  | _ => exact h

theorem hasRow_exec {id : TransactionID} (h : d.db.metadata.HasRow id u ref)
    (env : Env) (t : Task) :
    (t.exec p env d).1.db.metadata.HasRow id u ref :=
  (exec_writes p env t d).keeps (I := fun m => m.HasRow id u ref)
    (fun ⟨op, _, _, he⟩ hr => he ▸ hasRow_apply hr op) h

theorem queuedAborts_exec (hp : p.mode = .b) {l : Step} (hJ : QueuedAborts p ls d)
    (hA : t.AbortKnown p ls d)
    (hnow : (t.exec p env d).1 = ((wallet p).runs System.initial (ls ++ [l])).shared) :
    QueuedAborts p (ls ++ [l]) (t.exec p env d).1 := by
  intro e he u ref hpay
  have hold : ∀ e0 ∈ d.db.metadata.outbox, e0.payload = e.payload →
      (wallet p).Once System.initial (WasAborted u ref) (ls ++ [l]) := fun e0 he0 hp0 =>
    (hJ e0 he0 u ref (hp0.trans hpay)).concat l
  rcases outbox_exec p env t d e he with ⟨e0, he0, hp0⟩ | ⟨q, hw, hq⟩
  · exact hold e0 he0 hp0
  · cases hw with
    | plain h => exact h.elim
    | releaseQueue hmem => exact absurd (hq.trans hpay) (abortRelease_not_mem_outboxOps hmem)
    | abortQueue hmem =>
      obtain ⟨rfl, rfl⟩ := abortRelease_mem_abortOps hmem (hq.trans hpay)
      rename_i row _
      rcases abortTx_fenced (u := u) hp env row d with hm | hf
      · rw [hm] at he
        exact hold e he rfl
      · refine .now ?_
        rw [← hnow]
        exact wasAborted_of_fenced hf (hasRow_exec hA env _)

theorem abortKnown_of_leads {l : Step} (hA : t.AbortKnown p ls d)
    (hnow : (t.exec p env d).1 = ((wallet p).runs System.initial (ls ++ [l])).shared)
    (hd : d = ((wallet p).runs System.initial ls).shared)
    (ht : t' ∈ (t.exec p env d).2.pushed) : t'.AbortKnown p (ls ++ [l]) (t.exec p env d).1 := by
  have hl := exec_leads p env t d ht
  cases hl with
  | abort hr hu | abortTxID hr hu | sweepAbort hr hu =>
    exact hasRow_exec ⟨_, hr, rfl, hu, rfl⟩ env _
  | abandoned hr => exact hasRow_exec ⟨_, hr, rfl, rfl, rfl⟩ env _
  | abortInline _ hf =>
    intro q hq u ref hpay
    obtain ⟨rfl, rfl⟩ := abortRelease_mem_abortOps hq hpay
    refine .now ?_
    rw [← hnow]
    exact wasAborted_of_fenced hf (hasRow_exec hA env _)
  | releaseInline =>
    intro q hq u ref hpay
    exact absurd hpay (abortRelease_not_mem_outboxOps hq)
  | heal hr hu href hst =>
    refine Code.Once.concat l (.now ?_)
    rw [← hd]
    exact ⟨_, hr, hu, href, hst⟩
  | healRelease => exact Code.Once.concat l hA
  | _ => trivial

theorem abortKnown_start (op : Operation) : ∀ t ∈ op.start, t.AbortKnown p ls d := by
  intro t ht
  cases op with
  | checkProofs =>
    simp only [Operation.start, List.mem_cons, List.not_mem_nil, or_false] at ht
    rcases ht with rfl | rfl | rfl <;> trivial
  | _ =>
    cases List.mem_singleton.mp ht
    trivial

theorem aborts_recorded (hp : p.mode = .b) (ls : List Step) :
    QueuedAborts p ls ((wallet p).runs System.initial ls).shared
    ∧ Code.Waiting (Task.AbortKnown p ls) ((wallet p).runs System.initial ls) := by
  refine Code.runs_recorded (J := QueuedAborts p) (A := Task.AbortKnown p) ?_ (fun _ l _ h =>
      h.mono l) (fun _ op _ _ => abortKnown_start op) ?_ ⟨?_, ?_⟩ ls
    (Code.along_true ls _)
  · exact fun ls l hJ e he u ref hpay => (hJ e he u ref hpay).concat l
  · intro ls l env t _ hr hJ hA
    have hnow : (t.exec p env ((wallet p).runs System.initial ls).shared).1
        = ((wallet p).runs System.initial (ls ++ [l])).shared := by
      rw [Code.runs_concat, hr.step_shared]
      rfl
    refine ⟨queuedAborts_exec hp hJ (hr.waiting hA) hnow, fun t' ht' => ?_, fun th hth t' ht' => ?_⟩
    · exact abortKnown_of_leads (hr.waiting hA) hnow rfl ht'
    · exact ((hA.others l th hth t' ht').exec env t).mono l
  · intro e he
    cases he
  · intro th hth
    cases hth

theorem kept_doAbortRelease (u : UserID) (ref : Token) :
    Moves (Kept fun r => ¬(r.userID = u ∧ r.reservedBy = ref)) (doAbortRelease u ref) :=
  moves_bind (kept_unpin fun _ h => h) fun _ => moves_bind (kept_releaseReservation fun _ h => h)
    fun _ => moves_pure _

theorem unpin_ok {s s' : Session Db} {n : ℕ} (h : UtxoStore.unpin u ref s = (.ok n, s')) :
    ∀ r ∈ s'.db.utxo.rows, Inventory.heldBy r u ref = true → r.pinned = false := by
  obtain ⟨s1, -, ha, rfl⟩ := utxoStmt_ok h
  intro r hr hheld
  simp only [liftUtxo, Inventory.unpin, Inventory.setPinned] at ha hr
  split at hr
  · rename_i hv
    simp [hv] at ha
  · obtain ⟨r0, -, rfl⟩ := Inventory.mem_modify.mp hr
    split at hheld
    · rename_i hp
      rw [if_pos hp]
    · rename_i hp
      rw [if_neg hp]
      simpa [hheld] using hp

theorem releaseReservation_ok {s s' : Session Db} {n : ℕ}
    (h : UtxoStore.releaseReservation u ref s = (.ok n, s'))
    (hs : ∀ r ∈ s.db.utxo.rows, Inventory.heldBy r u ref = true → r.pinned = false) :
    ∀ r ∈ s'.db.utxo.rows, Inventory.heldBy r u ref = false := by
  obtain ⟨s1, hw, ha, rfl⟩ := utxoStmt_ok h
  intro r hr
  simp only [liftUtxo, Inventory.releaseReservation] at ha hr
  split at hr <;> rename_i hv
  · simp [hv] at ha
  · obtain ⟨r0, hr0, rfl⟩ := Inventory.mem_modify.mp hr
    have href : ref ≠ "" := by
      rintro rfl
      simp [validateReservation] at hv
    split
    · simp [Inventory.heldBy, href.symm]
    · rename_i hp
      -- a row that was not released was not held, or was pinned
      by_contra hh
      have hheld := Bool.eq_true_of_not_eq_false hh
      rw [hw.db] at hr0
      simp [hheld, hs r0 hr0 hheld] at hp

theorem doAbortRelease_ok {s s' : Session Db} {a : Unit}
    (h : doAbortRelease u ref s = (.ok a, s')) :
    ∀ r ∈ s'.db.utxo.rows, Inventory.heldBy r u ref = false := by
  obtain ⟨_, s1, h1, h⟩ := bind_ok h
  obtain ⟨_, s2, h2, h⟩ := bind_ok h
  cases h
  exact releaseReservation_ok h2 (unpin_ok h1)

/-- A task that acts on the coins of an abort of the action, in a state. -/
def Task.AbortsUnder (u : UserID) (ref : Token) (m : Metadata) : Task → Prop
  | .abortTx v row => v = u ∧ row.reference = ref
  | .inline ops => ∃ q ∈ ops, q.payload = .abortRelease u ref
  | .drain _ => ∃ e ∈ m.outbox, e.payload = .abortRelease u ref
  | .healUnpin r | .healRelease r => r.userID = u ∧ r.reservation = ref
  | _ => False

theorem aborted_before_release (hp : p.mode = .b) (ls : List Step) {l : Step}
    (htop : Code.top ((wallet p).runs System.initial ls) l = some t)
    (ht : t.AbortsUnder u ref ((wallet p).runs System.initial ls).shared.db.metadata)
    (hr : ∃ r ∈ ((wallet p).runs System.initial ls).shared.db.utxo.rows,
      r ∉ ((wallet p).runs System.initial (ls ++ [l])).shared.db.utxo.rows) :
    (wallet p).Once System.initial (WasAborted u ref) ls := by
  obtain ⟨hJ, hA⟩ := aborts_recorded hp ls
  obtain ⟨env, hruns⟩ := Code.runs_of_top htop
  have hknown := hruns.waiting hA
  cases t with
  | abortTx v row =>
    obtain ⟨r, hmem, hnot⟩ := hr
    rw [Code.runs_concat, hruns.step_shared] at hnot
    exact absurd ((abortTx_coins hp env row _).symm ▸ hmem) hnot
  | inline ops =>
    obtain ⟨q, hq, hpay⟩ := ht
    exact hknown q hq u ref hpay
  | drain limit =>
    obtain ⟨e, he, hpay⟩ := ht
    exact hJ e he u ref hpay
  | healUnpin r | healRelease r =>
    obtain ⟨rfl, rfl⟩ := ht
    exact hknown
  | _ => exact ht.elim

/-- In Mode B, whatever fails and wherever a run is cut off: a step of an abort changes a coin of
the action only after the transactions row was durably aborted; the operation, whenever it runs,
leaves the coins under any other user or reference as they are; and where it runs without an error,
no unspent coin is held under the reference. -/
theorem abort_release_safe (p : Provider) (hp : p.mode = .b) (u : UserID) (ref : Token) :
    (∀ (ls : List Step) (l : Step) (t : Task),
      Code.top ((wallet p).runs System.initial ls) l = some t →
      t.AbortsUnder u ref ((wallet p).runs System.initial ls).shared.db.metadata →
      (∃ r ∈ ((wallet p).runs System.initial ls).shared.db.utxo.rows,
        Inventory.heldBy r u ref = true
        ∧ r ∉ ((wallet p).runs System.initial (ls ++ [l])).shared.db.utxo.rows) →
      ∃ n, ∃ row ∈ ((wallet p).runs System.initial (ls.take n)).shared.db.metadata.transactions,
        row.userID = u ∧ row.reference = ref ∧ row.status = .aborted)
    ∧ (∀ (env : Env) (s : Session Db), ∀ r ∈ s.db.utxo.rows, ¬(r.userID = u ∧ r.reservedBy = ref) →
      r ∈ (executeOutboxOp env (.abortRelease u ref) s).2.db.utxo.rows)
    ∧ ∀ (env : Env) (s s' : Session Db), executeOutboxOp env
      (.abortRelease u ref) s = (.ok (), s') →
      ∀ r ∈ s'.db.utxo.rows, ¬(r.userID = u ∧ r.reservedBy = ref ∧ r.spentBy = none) := by
  refine ⟨fun ls l t htop ht ⟨r, hr, _, hnot⟩ => ?_, fun env s r hr hne => ?_,
      fun env s s' h r hr hheld => ?_⟩
  · exact aborted_before_release hp ls htop ht ⟨r, hr, hnot⟩
  · exact kept_doAbortRelease u ref s r hr hne
  · have hfree := doAbortRelease_ok h r hr
    simp [Inventory.heldBy, hheld.1, hheld.2.1, hheld.2.2] at hfree

/-- An action is created and aborted; what the abort queued has not run yet. -/
def abortCallSteps : List Step :=
  paidSteps ++ createCallSteps ++ [.spawn (.abortAction 1 "ref"), .run 2 Env.quiet,
      .run 2 Env.quiet]

theorem abort_release_safe_inline :
    (∃ r ∈ ((wallet (paidProvider .b)).runs System.initial abortCallSteps).shared.db.utxo.rows.rows,
      Inventory.heldBy r 1 "ref" = true
      ∧ r ∉ ((wallet (paidProvider .b)).runs System.initial
        (abortCallSteps ++ [.run 2 Env.quiet])).shared.db.utxo.rows.rows)
    ∧ (∀ (ls : List Step) (l : Step) (t : Task),
      Code.top ((wallet (paidProvider .b)).runs System.initial ls) l = some t →
      t.AbortsUnder 1 "ref" ((wallet (paidProvider .b)).runs System.initial ls).shared.db.metadata →
      (∃ r ∈ ((wallet (paidProvider .b)).runs System.initial ls).shared.db.utxo.rows,
        Inventory.heldBy r 1 "ref" = true
        ∧ r ∉ ((wallet (paidProvider .b)).runs System.initial (ls ++ [l])).shared.db.utxo.rows) →
      ∃ n, ∃ row ∈ ((wallet (paidProvider .b)).runs System.initial
          (ls.take n)).shared.db.metadata.transactions,
        row.userID = 1 ∧ row.reference = "ref" ∧ row.status = .aborted) :=
  ⟨by decide +kernel, (abort_release_safe (paidProvider .b) rfl 1 "ref").1⟩

end ArcadeToolbox
