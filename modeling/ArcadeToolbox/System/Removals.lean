import ArcadeToolbox.System.Intents

/-!
# Coins that the outbox takes away

An operation of the outbox that takes coins away looks at no status when it runs. A proof may have
completed its transaction since it was queued, and then it takes away coins that are on the chain.
Where no proof of a transaction is stored as long as an operation against its coins is pending, and
no release calls an output of a completed transaction a phantom, the coins taken away are never
those of a completed transaction.
-/

namespace ArcadeToolbox

open Txn Uow Storage

/-- The transactions whose coins an operation takes away. -/
def OutboxPayload.strips : OutboxPayload → List TxID
  | .removePhantom ops => ops.map (·.txid)
  | .removeMinted t _ | .abortRemoveChange t _ => [t]
  | .unspend _ _ | .release _ _ | .abortRelease _ _ => []

/-- The operation takes away no coin of a completed transaction. -/
def Metadata.Spares (m : Metadata) (pl : OutboxPayload) : Prop := ∀ T ∈ pl.strips,
    m.isCompleted T = false

/-- If the transactions of `K` are not completed they stay so, and what is taken away meanwhile is
no coin of a completed transaction. -/
def Clean (K : TxID → Prop) (s s' : Session Db) : Prop :=
  (∀ T, K T → s.db.metadata.isCompleted T = false) →
    (∀ T, K T → s'.db.metadata.isCompleted T = false)
      ∧ ∀ r ∈ s'.db.removals, r ∈ s.db.removals ∨ r.completed = false

variable {K : TxID → Prop} {α : Type} {env : Env} {W : MetaOp → Prop} {C : CoinOp → Prop} {T : TxID}

instance : IsPreorder (Session Db) (Clean K) where
  refl _ h := ⟨h, fun _ hr => Or.inl hr⟩
  trans _ _ _ h h' hK := by
    obtain ⟨hK, hr⟩ := h hK
    obtain ⟨hK, hr'⟩ := h' hK
    exact ⟨hK, fun r hmem => (hr' r hmem).elim (hr r) Or.inr⟩

theorem isCompleted_eq_false {m : Metadata} : m.isCompleted T = false
    ↔ ¬ (m.life T).isCompleted := by
  rw [← completes_iff (d := ⟨m, Inventory.empty, []⟩), Bool.not_eq_true]
  rfl

/-- A write that completes nothing. -/
def MetaOp.Idle (op : MetaOp) : Prop := ∀ T o, op.On T o → o.Lawful ∧ o.Attested fun _ => False

theorem uncompleted_writes {s s' : Session Db} (hW : ∀ op, W op → op.Idle)
    (h : Follows Db.metadata (MetaOp.Step W) s s') (hT : s.db.metadata.isCompleted T = false) :
    s'.db.metadata.isCompleted T = false := by
  refine h.keeps (I := fun m => m.isCompleted T = false) ?_ hT
  intro now m m' hstep hm
  rw [isCompleted_eq_false] at hm ⊢
  rcases step_life (T := T) hstep with he | hl
  · rwa [he]
  · refine fun hc => hm (hc.of_step ?_ hl)
    rintro o ⟨op, hop, ho⟩
    exact hW op hop T o ho

theorem removals_coins {s s' : Session Db} (hC : ∀ es, ¬ C (.logged es))
    (h : Follows Db.stock (CoinOp.Step C) s s') : s'.db.removals = s.db.removals := by
  refine h.keeps (I := fun st : Stock => st.2 = s.db.removals) ?_ rfl
  rintro now st _ ⟨op, hop, rfl⟩ hst
  cases op with
  | logged es => exact absurd hop (hC es)
  | _ => exact hst

theorem clean_trace {x : Work α} (hx : Moves (Trace W C) x) (hW : ∀ op, W op → op.Idle)
    (hC : ∀ es, ¬ C (.logged es)) : Moves (Clean K) x := by
  intro s hK
  refine ⟨fun T hT => uncompleted_writes hW (hx s).writes (hK T hT), fun r hr => Or.inl ?_⟩
  rwa [removals_coins hC (hx s).coins] at hr

/-- What has been taken away is recorded as it was taken. -/
theorem clean_auditRemovals {x : Work α} (hx : Moves (Trace W C) x) (hW : ∀ op, W op → op.Idle)
    (hC : ∀ op, C op → ∀ now i (o : Outpoint), ¬ K o.txid →
      (op.onInventory now i).get o = none → i.get o = none)
    (hl : ∀ es, ¬ C (.logged es)) : Moves (Clean K) (auditRemovals x) := by
  intro s hK
  obtain ⟨hafter, hrem⟩ := clean_trace (K := K) hx hW hl s hK
  refine ⟨hafter, fun r hr => ?_⟩
  rcases List.mem_append.mp hr with hr | hr
  · exact hrem r hr
  · obtain ⟨row, hrow, rfl⟩ := List.mem_map.mp hr
    obtain ⟨hmem, hgone⟩ := List.mem_filter.mp hrow
    right
    refine hafter _ ?_
    -- a coin of another transaction would still be there
    by_contra hno
    have hnone : s.db.utxo.get row.outpoint = none := by
      have hpath := (hx s).coins.keeps (I := fun st : Stock =>
        st.1.get row.outpoint = none → s.db.utxo.get row.outpoint = none) (by
          rintro now st _ ⟨op, hop, rfl⟩ hst hg
          exact hst (hC op hop now st.1 row.outpoint hno hg)) id
      exact hpath (Option.isNone_iff_eq_none.mp hgone)
    exact Table.get?_eq_none.mp hnone row hmem rfl

theorem get_of_drop {i : Inventory} {q : Row → Bool} {o : Outpoint}
    (hq : ∀ r, r.outpoint = o → q r = false) (h : (i.drop q).get o = none) : i.get o = none := by
  rw [Inventory.get_drop] at h
  rcases hg : i.get o with _ | r
  · rfl
  · rw [hg, Option.filter_some, hq r (Inventory.get_eq_some.mp hg).2] at h
    cases h

theorem get_of_removeByMintTx {i : Inventory} {t : TxID} {ops : List Outpoint} {o : Outpoint}
    (ho : o.txid ≠ t) (h : (i.removeByMintTx t ops).2.get o = none) : i.get o = none := by
  unfold Inventory.removeByMintTx at h
  rcases hv : validateMintOutpoints t ops with _ | e <;> rw [hv] at h
  · refine get_of_drop (fun r hr => ?_) h
    subst hr
    have hmem : r.outpoint ∉ ops := fun hmem => ho (validateMintOutpoints_eq_none.mp hv _ hmem)
    simp [hmem]
  · exact h

theorem idle_cascade {op : MetaOp} (h : ∃ parent since child earlier,
    op = .cascade parent since child earlier) : op.Idle := by
  obtain ⟨parent, since, child, earlier, rfl⟩ := h
  rintro T o ⟨-, rfl⟩
  exact ⟨rfl, rfl, by rintro _ ⟨⟩⟩

theorem clean_executeOutboxOp {pl : OutboxPayload} (h : ∀ T ∈ pl.strips, K T) :
    Moves (Clean K) (executeOutboxOp env pl) := by
  have hno : ∀ op : MetaOp, False → op.Idle := fun _ => False.elim
  cases pl with
  | unspend t ops =>
    exact clean_trace (C := fun op => op.Plain ∨ op = .unspend t ops)
      (trace_doUnspend (fun _ => Or.inl) (Or.inr rfl)) hno (by rintro _ (h | h) <;> cases h)
  | release r ops =>
    exact clean_trace (C := fun op => op = .releaseOutpoints r ops)
        (trace_doReleaseOutpoints rfl) hno
      fun _ h => by cases h
  | abortRelease u r =>
    exact clean_trace (C := fun op => op = .unpin u r ∨ op = .releaseReservation u r)
      (trace_doAbortRelease (Or.inl rfl) (Or.inr rfl)) hno (by rintro _ (h | h) <;> cases h)
  | removePhantom ops =>
    refine clean_auditRemovals (C := fun op => op = .remove ops true)
        (trace_doRemovePhantom rfl) hno ?_
      fun _ h => by cases h
    rintro _ rfl now i o ho
    refine get_of_drop fun r hr => ?_
    subst hr
    have hmem : r.outpoint ∉ ops := fun hmem => ho (h _ (List.mem_map_of_mem hmem))
    simp [hmem]
  | removeMinted t ops =>
    refine clean_auditRemovals (C := fun op => op = .removeByMintTx t ops)
      (trace_doRemoveMinted rfl fun since child => ⟨t, since, child, _, rfl⟩) (fun _ =>
          idle_cascade) ?_
      fun _ h => by cases h
    rintro _ rfl now i o ho
    exact get_of_removeByMintTx fun he => ho (h _ (List.mem_singleton.mpr he))
  | abortRemoveChange t ops =>
    refine clean_auditRemovals (C := fun op => op = .removeByMintTx t ops)
      (trace_doAbortRemoveChange rfl) hno ?_ fun _ h => by cases h
    rintro _ rfl now i o ho
    exact get_of_removeByMintTx fun he => ho (h _ (List.mem_singleton.mpr he))

theorem clean_bookkeeping {x : Work α}
    (hx : Moves (Trace (fun op => op.onOutbox = true) fun _ => False) x) : Moves (Clean K) x := by
  refine clean_trace hx (fun op hop T o ho => ?_) fun _ => id
  cases op with
  | enqueue | markDone | recordError => exact ho.elim
  | _ => cases hop

theorem clean_doUnit {mode : Mode} {x : Work α} {s : Session Db} (hx : Clean K s (x s).2) :
    Clean K s (doUnit mode x s).2 := by
  unfold doUnit atomically
  rcases hxs : x s with ⟨e | a, s'⟩ <;> rw [hxs] at hx
  · intro hK
    refine ⟨?_, ?_⟩
    · change ∀ T, K T → (rollback mode s.db s'.db).metadata.isCompleted T = false
      rwa [rollback_metadata]
    · cases mode with
      | a => exact fun _ => Or.inl
      | b => exact (hx hK).2
  · exact hx

theorem clean_runInline {mode : Mode} {ops : List QueuedOp}
    (h : ∀ q ∈ ops, ∀ T ∈ q.payload.strips, K T) :
    Moves (Clean K) (runInline env mode ops) := by
  refine fun s => clean_doUnit (moves_forM ops (fun q hq => ?_) s)
  refine moves_bind (moves_attempt (clean_executeOutboxOp (h q hq))) fun r => ?_
  cases r
  · exact clean_bookkeeping (moves_bind (moves_attempt (trace_recordError rfl)) fun _ =>
      moves_pure _)
  · exact clean_bookkeeping (trace_markDone rfl)

theorem clean_drainOutbox {mode : Mode} {limit : ℕ} {s : Session Db}
    (h : ∀ e ∈ s.db.metadata.outbox, ∀ T ∈ e.payload.strips, K T) :
    Clean K s (drainOutbox env mode limit s).2 := by
  have hquery : ∀ {β : Type} (f : Metadata → β), Moves (Clean K) (metaQuery f) := fun f =>
    clean_trace (W := fun _ => False) (C := fun _ => False) (trace_metaQuery f)
        (fun _ => False.elim)
      fun _ => id
  refine clean_doUnit (bind_at (hquery _ s) fun pending s1 hf => ?_)
  refine moves_bind (moves_forM pending fun e he => ?_)
    (fun _ => moves_bind (hquery _) fun _ => moves_pure _) s1
  refine moves_bind (moves_attempt (clean_executeOutboxOp (h e (mem_fetchPending hf e he).1)))
      fun r => ?_
  cases r
  · exact clean_bookkeeping (trace_recordError rfl)
  · exact clean_bookkeeping (trace_markDone rfl)

/-- The transactions a task may complete. -/
def Task.proves : Task → List TxID
  | .minedCommit rec _ => [rec.txid]
  | .repairCommit k _ _ _ => [k.txid]
  | .batchCommit plan => plan.verified.map (·.1.txid)
  | .internalizeCommit _ plan => if plan.proof.isSome then [plan.txid] else []
  | _ => []

variable {p : Provider} {env : Env} {t t' : Task} {s : Shared}

theorem proves_of_not_mem (h : T ∉ t.proves) : t.Proves (fun _ => False) T := by
  cases t with
  | minedCommit rec proof => exact fun ht => h (List.mem_singleton.mpr ht.symm)
  | repairCommit k spender row proof => exact fun ht => h (List.mem_singleton.mpr ht.symm)
  | batchCommit plan => exact fun pr hpr ht => h (List.mem_map.mpr ⟨pr, hpr, ht⟩)
  | internalizeCommit u plan =>
    intro ht pr hpr
    simp only [Task.proves, Option.mem_def.mp hpr, Option.isSome_some, if_true] at h
    exact h (List.mem_singleton.mpr ht.symm)
  | _ => trivial

theorem uncompleted_exec (h : T ∉ t.proves) (hT : s.db.metadata.isCompleted T = false) :
    (t.exec p env s).1.db.metadata.isCompleted T = false := by
  rw [isCompleted_eq_false] at hT ⊢
  exact fun hc => hT (isCompleted_of_exec (proves_of_not_mem h) s hc)

theorem not_coins_logged {pl : OutboxPayload} {es : List Removal} :
    ¬ OutboxPayload.Coins pl (.logged es) := by
  intro h
  cases h

/-- Only the inline unit and the drain take coins away and record it. -/
theorem removals_exec (ht : ∀ q ∈ t.inlined, s.db.metadata.Spares q.payload)
    (hout : ∀ e ∈ s.db.metadata.outbox, s.db.metadata.Spares e.payload) :
    ∀ r ∈ (t.exec p env s).1.db.removals, r ∈ s.db.removals ∨ r.completed = false := by
  by_cases hlog : ∃ m m' es, Handles p m m' t (.logged es)
  · obtain ⟨m, m', es, hlog⟩ := hlog
    rw [exec_fst]
    cases hlog with
    | plain hp => exact hp.elim
    | inlineLog =>
      rename_i ops
      exact ((clean_runInline (K := fun T => ∃ q ∈ ops, T ∈ q.payload.strips)
        (fun q hq T hT => ⟨q, hq, hT⟩) _) fun T ⟨q, hq, hT⟩ => ht q hq T hT).2
    | drainLog =>
      rename_i limit
      change ∀ r ∈ (last (drainOutbox env p.mode limit) _).2.db.removals, _
      rw [last_snd]
      exact (clean_drainOutbox (K := fun T => ∃ e ∈ s.db.metadata.outbox, T ∈ e.payload.strips)
        (s := ⟨s.db, s.now, env.beats, env.busy⟩) (fun e he T hT => ⟨e, he, hT⟩)
        fun T ⟨e, he, hT⟩ => hout e he T hT).2
    | abort _ hc => cases hc
    | inline _ hc => exact (not_coins_logged hc).elim
    | drain _ hc => exact (not_coins_logged hc).elim
    | repair hc => cases hc
    | release _ hc => cases hc
  · have hrem := (exec_coins p env t s).keeps (I := fun st : Stock => st.2 = s.db.removals) (by
      rintro now st _ ⟨op, hop, rfl⟩ hst
      cases op with
      | logged es => exact absurd ⟨_, _, es, hop⟩ hlog
      | _ => exact hst) rfl
    intro r hr
    rw [show (t.exec p env s).1.db.removals = s.db.removals from hrem] at hr
    exact Or.inl hr

theorem uncompleted_of_status {m : Metadata}
    (h : ∀ k ∈ m.knownTxs, k.txid = T → k.status ≠ .completed) :
    m.isCompleted T = false := by
  rw [isCompleted_eq_false]
  rintro ⟨k, hk, hst⟩
  obtain ⟨hmem, ht⟩ := Table.get?_eq_some.mp hk
  exact h k hmem ht hst

theorem strips_abortOps {u : UserID} {row : TxRow} {change : List Outpoint} {q : QueuedOp}
    (hq : q ∈ abortOps u row change) (hT : T ∈ q.payload.strips) : row.txid = some T := by
  rcases List.mem_cons.mp hq with rfl | hq
  · cases hT
  · split at hq
    · cases hq
    · rename_i t ht
      split at hq
      · cases hq
      · cases List.mem_singleton.mp hq
        rw [ht, List.mem_singleton.mp hT]

theorem strips_outboxOps {plan : ReleasePlan} {q : QueuedOp} (hq : q ∈ outboxOps plan)
    (hT : T ∈ q.payload.strips) : T = plan.txid ∨ ∃ op ∈ plan.phantomInputs, op.txid = T := by
  rcases mem_outboxOps hq with rfl | ⟨i, r, -, rfl⟩ | rfl | rfl
  · cases hT
  · cases hT
  · exact Or.inr (List.mem_map.mp hT)
  · exact Or.inl (List.mem_singleton.mp hT)

/-- The first unit of an abort or a release commits against transactions that are not completed, or
it leaves nothing behind. -/
theorem spares_enqueued (hp : p.mode = .b)
    (hphantom : ∀ plan ∈ t.releases, ∀ op ∈ plan.phantomInputs,
      s.db.metadata.isCompleted op.txid = false) :
    ((t.exec p env s).1.db.metadata = s.db.metadata ∧ (t.exec p env s).2.pushed = [])
    ∨ ∀ q, Writes env t (.enqueue q) → s.db.metadata.Spares q.payload := by
  cases t with
  | abortTx u row =>
    have hrun : (Task.abortTx u row).run p env
        = abortEnqueue u row >>= fun ops => pure (.go [.inline ops]) := by
      simp only [Task.run, runAbortTx, hp]
    unfold Task.exec
    rw [hrun, bind_apply]
    rcases hx : abortEnqueue u row ⟨s.db, s.now, env.beats, env.busy⟩ with ⟨e | ops, s'⟩
    · exact Or.inl ⟨metadata_of_doUnit_error hx, rfl⟩
    right
    intro q hw T hT
    have hpre := (abortEnqueue_ok hx).2.2
    cases hw with
    | plain h => exact h.elim
    | abortQueue hq =>
      refine uncompleted_of_status fun k hk ht hst => ?_
      have hfenced := hpre k hk ((strips_abortOps hq hT).trans (congrArg some ht.symm))
      rw [hst] at hfenced
      exact absurd hfenced (by decide)
  | release plan =>
    have hrun : (Task.release plan).run p env
        = releaseEnqueue plan >>= fun _ => pure (.go [.inline (outboxOps plan)]) := by
      simp only [Task.run, runRelease, hp]
    unfold Task.exec
    rw [hrun, bind_apply]
    rcases hx : releaseEnqueue plan ⟨s.db, s.now, env.beats, env.busy⟩ with ⟨e | _, s'⟩
    · exact Or.inl ⟨metadata_of_doUnit_error hx, rfl⟩
    right
    intro q hw T hT
    obtain ⟨_, s1, hgate, -⟩ := bind_ok (doUnit_ok hx)
    obtain ⟨k, hk, ht, hst⟩ := gate_ok hgate
    cases hw with
    | plain h => exact h.elim
    | releaseQueue hq =>
      rcases strips_outboxOps hq hT with rfl | ⟨op, hop, rfl⟩
      · refine uncompleted_of_status fun k' hk' ht' hst' => ?_
        rw [Table.eq_of_key hk' hk (ht'.trans ht.symm), hst] at hst'
        cases hst'
      · exact hphantom plan rfl op hop
  | _ =>
    right
    intro q hw
    cases hw
    rename_i h
    exact h.elim

theorem writes_of_inlined {m m' : Metadata} {q : QueuedOp} (h : Leads p env m m' t t')
    (hq : q ∈ t'.inlined) : Writes env t (.enqueue q) := by
  cases h with
  | abortInline => exact .abortQueue hq
  | releaseInline => exact .releaseQueue hq
  | _ => cases hq

theorem proves_of_enqueue {q : QueuedOp} (h : Writes env t (.enqueue q)) : t.proves = [] := by
  cases h with
  | plain h => exact h.elim
  | abortQueue | releaseQueue => rfl

theorem spares_exec {pl : OutboxPayload} (hpl : ∀ T ∈ pl.strips, T ∉ t.proves)
    (h : s.db.metadata.Spares pl) : (t.exec p env s).1.db.metadata.Spares pl :=
  fun T hT => uncompleted_exec (hpl T hT) (h T hT)

/-- The transactions against whose coins something is pending. -/
def System.stripped (s : System) : List TxID :=
  s.shared.db.metadata.outbox.rows.flatMap (·.payload.strips)
    ++ s.threads.flatten.flatMap fun t => t.inlined.flatMap (·.payload.strips)

/-- No proof of a transaction is stored while an operation against its coins is pending, and no
release takes an output of a completed transaction for a phantom. -/
def RemovalStep (s : System) : Step → Prop
  | .spawn _ => True
  | .run i env => ∀ t ∈ Code.top s (.run i env : Step), (∀ T ∈ t.proves, T ∉ s.stripped)
      ∧ ∀ plan ∈ t.releases, ∀ op ∈ plan.phantomInputs,
          s.shared.db.metadata.isCompleted op.txid = false

/-- What has been taken away is no coin of a completed transaction, and what is on the outbox takes
away none. -/
def RemovalInv (d : Db) : Prop :=
  (∀ r ∈ d.removals, r.completed = false) ∧ ∀ e ∈ d.metadata.outbox, d.metadata.Spares e.payload

def Task.InlineSpares (d : Shared) (t : Task) : Prop := ∀ q ∈ t.inlined,
    d.db.metadata.Spares q.payload

/-- In Mode B, in every run in which no proof of a transaction is stored while an operation against
its coins is pending and no release takes an output of a completed transaction for a phantom, the
outbox takes away no coin of a transaction that is completed at that moment, however often its
operations fail and are run again. -/
theorem outbox_spares_completed (p : Provider) (hp : p.mode = .b) (ls : List Step)
    (h : (wallet p).Along RemovalStep System.initial ls) :
    ∀ r ∈ ((wallet p).runs System.initial ls).shared.db.removals, r.completed = false := by
  refine (Code.runs_waiting (J := fun d : Shared => RemovalInv d.db) (A := Task.InlineSpares)
    (fun s op _ _ t ht q hq => by rw [inlined_start op t ht] at hq; cases hq) ?_ ls System.initial h
    ⟨⟨by rintro _ ⟨⟩, by rintro _ ⟨⟩⟩, by rintro _ ⟨⟩⟩).1.1
  rintro s l env t hok hr ⟨hrem, hout⟩ hA
  have ht := hr.waiting hA
  have htop := hr.top
  obtain ⟨i, rest, rfl, -⟩ := hr
  obtain ⟨hproves, hphantom⟩ := hok t htop
  have hnew := @spares_enqueued p env t s.shared hp hphantom
  refine ⟨⟨fun r hmem => ?_, fun e he => ?_⟩, fun t' ht' q hq => ?_, fun th hth t' ht' q hq => ?_⟩
  · exact (removals_exec ht hout r hmem).elim (hrem r) id
  · rcases outbox_exec p env t s.shared e he with ⟨e₀, he₀, hpay⟩ | ⟨q, hw, hpay⟩
    · rw [← hpay]
      refine spares_exec (fun T hT hmem => hproves T hmem ?_) (hout e₀ he₀)
      exact List.mem_append_left _ (List.mem_flatMap.mpr ⟨e₀, he₀, hT⟩)
    · rcases hnew with ⟨hm, -⟩ | hnew
      · change ((t.exec p env s.shared).1.db.metadata).Spares e.payload
        change e ∈ (t.exec p env s.shared).1.db.metadata.outbox at he
        rw [hm] at he ⊢
        exact hout e he
      · rw [← hpay]
        exact spares_exec (by simp [proves_of_enqueue hw]) (hnew q hw)
  · have hw := writes_of_inlined (exec_leads p env t s.shared ht') hq
    rcases hnew with ⟨-, hno⟩ | hnew
    · change t' ∈ (t.exec p env s.shared).2.pushed at ht'
      rw [hno] at ht'
      cases ht'
    · exact spares_exec (by simp [proves_of_enqueue hw]) (hnew q hw)
  · refine spares_exec (fun T hT hmem => hproves T hmem ?_) (hA th hth t' ht' q hq)
    exact List.mem_append_right _ (List.mem_flatMap.mpr
      ⟨t', List.mem_flatten.mpr ⟨th, hth, ht'⟩, List.mem_flatMap.mpr ⟨q, hq, hT⟩⟩)

instance (s : System) : ∀ l : Step, Decidable (RemovalStep s l)
  | .spawn _ => isTrue trivial
  | .run i env => inferInstanceAs (Decidable (∀ t ∈ Code.top s (.run i env : Step), _ ∧ _))

/-- The release of a transaction commits and is not run any further; then the transaction is mined,
and repaired; then the outbox is drained. -/
def minedAfterReleaseSteps : List Step :=
  giftReleaseSteps ++ [.run 3 Env.quiet,
      .spawn (.applyStatusUpdate ⟨"gift", .mined, 0, "", [], none⟩)]
    ++ List.replicate 5 (.run 4 Env.mining) ++ [.spawn (.drainOutbox 10), .run 5 Env.quiet]

theorem drain_removes_completed :
    ⟨⟨"gift", 0⟩, true⟩
      ∈ ((wallet (paidProvider .b)).runs System.initial
        minedAfterReleaseSteps).shared.db.removals := by
  decide +kernel

/-- The operations of a release fail when they are run inline, and the drain runs them. -/
def retriedReleaseSteps : List Step :=
  giftReleaseSteps ++ [.run 3 Env.quiet,
      .run 3 { Env.quiet with beats := [⟨0, true⟩, ⟨0, false⟩, ⟨0, true⟩] },
    .spawn (.drainOutbox 10), .run 4 Env.quiet]

theorem outbox_spares_completed_retried :
    ((wallet (paidProvider .b)).runs System.initial retriedReleaseSteps).shared.db.removals
      = [⟨⟨"gift", 0⟩, false⟩]
    ∧ ∀ r ∈ ((wallet (paidProvider .b)).runs System.initial retriedReleaseSteps).shared.db.removals,
      r.completed = false :=
  ⟨by decide +kernel,
      outbox_spares_completed (paidProvider .b) rfl retriedReleaseSteps (by decide +kernel)⟩

end ArcadeToolbox
