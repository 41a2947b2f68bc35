import ArcadeToolbox.System.Units

/-!
# Units that decide by what they find

The fence of an abort, the storing of a signed transaction, the crediting of a foreign one and the
drain of the outbox: what they write, or which coins they touch, depends on the rows they meet.
Each is inverted statement by statement.
-/

namespace ArcadeToolbox

open Txn Uow

namespace Storage

variable {W : MetaOp → Prop} {C : CoinOp → Prop} {env : Env}

variable {s s' : Session Db}

theorem follows_op {op : MetaOp} (hop : W op) (hle : s.now ≤ s'.now)
    (he : op.Enabled s.db.metadata) (hm : s'.db.metadata = op.apply s'.now s.db.metadata) :
    Follows Db.metadata (MetaOp.Step W) s s' := by
  unfold Follows
  rw [hm]
  exact (TimedPath.later hle).step ⟨op, hop, he, rfl⟩

variable {a : Unit}

theorem updateStatus_ok {id : TransactionID} {st : TxStatus} {expected : List TxStatus}
    (hne : expected ≠ []) (h : TransactionsRepo.updateStatus id st expected s = (.ok a, s')) :
    s.now ≤ s'.now ∧ s'.db.utxo = s.db.utxo
      ∧ (∃ r ∈ s.db.metadata.transactions, r.transactionID = id ∧ r.status ∈ expected)
      ∧ s'.db.metadata
        = s.db.metadata.writeTx (.updateStatus st expected) fun r => r.transactionID = id := by
  have hw := metaStmt_wrote (by simp) h
  obtain ⟨⟨r, hr, hid, hg⟩, hm⟩ := Metadata.writeTxOr_ok hw.answer
  refine ⟨hw.le, hw.utxo, ⟨r, hr, by simpa using hid, ?_⟩, hw.metadata.trans hm⟩
  simpa [TxWrite.guard, hne] using hg

theorem transitionToAborted_run {t : TxID} {r : Except Err Unit}
    (hr : r = .ok () ∨ r = .error .notFound) (h : KnownTxRepo.transitionToAborted t s = (r, s')) :
    s.now ≤ s'.now
      ∧ (∀ k ∈ s.db.metadata.knownTxs, k.txid = t →
          k.status ∈ ProvenTxReqStatus.preBroadcast ∧ k.wasBroadcast = false)
      ∧ s'.db.metadata = (s.db.metadata.writeKnownOne (.casFromPreBroadcast .aborted) t
        s'.now).2 := by
  have hw : Wrote _ r s s' := metaStmt_wrote (by rcases hr with rfl | rfl <;> simp) h
  refine ⟨hw.le, fun k hk ht => ?_, hw.metadata⟩
  have ha := hw.answer
  rcases Metadata.writeKnownOne_cases (.casFromPreBroadcast .aborted) t s'.now s.db.metadata with
    ⟨k', hk', ht', hg, -⟩ | ⟨-, -, -, -, he⟩ | ⟨hno, -⟩
  · rw [Table.eq_of_key hk hk' (ht.trans ht'.symm)]
    simpa [KnownWrite.guard] using hg
  · rw [he] at ha
    rcases hr with rfl | rfl <;> cases ha
  · exact absurd ht (hno k hk)

/-- Where a fence succeeds, the row is aborted. -/
def Fenced (row : TxRow) (m : Metadata) : Prop :=
  ∃ r ∈ m.transactions, r.transactionID = row.transactionID ∧ r.status = .aborted

variable {row : TxRow}

theorem fenced_writeTx {m : Metadata}
    (h : ∃ r ∈ m.transactions, r.transactionID = row.transactionID ∧ r.status ∈ abortableStatuses) :
    Fenced row (m.writeTx (.updateStatus .aborted abortableStatuses)
      fun r => r.transactionID = row.transactionID) := by
  obtain ⟨r, hr, hid, hst⟩ := h
  refine ⟨_, Metadata.mem_writeTx.mpr ⟨r, hr, rfl⟩, ?_⟩
  simp [hid, hst, TxWrite.guard, TxWrite.edit]

theorem coins_fenceAborted (row : TxRow) :
    Moves (Follows Db.stock (CoinOp.Step C)) (fenceAborted row) := by
  refine moves_bind (moves_attempt (coins_metaStmt _)) fun r => ?_
  rcases r with e | _
  · cases e <;> exact moves_throw _
  · rcases row.txid with _ | t
    · exact moves_pure _
    · refine moves_bind (moves_attempt (coins_metaStmt _)) fun r => ?_
      rcases r with e | _
      · cases e with
        | notFound => exact coins_metaStmt _
        | _ => exact moves_throw _
      · exact coins_metaStmt _

theorem writes_fenceAborted (hp : ∀ op : MetaOp, op.Plain → W op) (hf : W (.fence row))
    (h : fenceAborted row s = (.ok a, s')) :
    Follows Db.metadata (MetaOp.Step W) s s' ∧ Fenced row s'.db.metadata
      ∧ ∀ k ∈ s.db.metadata.knownTxs, row.txid = some k.txid →
        k.status ∈ ProvenTxReqStatus.preBroadcast ∧ k.wasBroadcast = false := by
  obtain ⟨r, s1, hu, h⟩ := bind_ok h
  have hu := attempt_ok hu
  rcases r with e | _
  · cases e <;> cases h
  obtain ⟨hle, -, hrow, hm⟩ := updateStatus_ok (by decide) hu
  rcases ht : row.txid with _ | t <;> simp only [ht] at h
  · cases h
    refine ⟨follows_op hf hle ⟨hrow, by simp [ht]⟩ (by simp [MetaOp.apply, ht, hm]), ?_, by simp⟩
    rw [hm]
    exact fenced_writeTx hrow
  obtain ⟨r, s2, hk, h⟩ := bind_ok h
  have hk := attempt_ok hk
  have hr : (r = .ok () ∨ r = .error .notFound)
      ∧ OutputsRepo.clearSpentBy row.transactionID s2 = (.ok a, s') := by
    rcases r with e | _
    · cases e with
      | notFound => exact ⟨Or.inr rfl, h⟩
      | _ => cases h
    · exact ⟨Or.inl rfl, h⟩
  obtain ⟨hle2, hg, hm2⟩ := transitionToAborted_run hr.1 hk
  -- the two statements are one write, at the time of the second
  rw [hm] at hg hm2
  have hpre : ∀ k ∈ s.db.metadata.knownTxs, row.txid = some k.txid →
      k.status ∈ ProvenTxReqStatus.preBroadcast ∧ k.wasBroadcast = false := by
    intro k hk' ht'
    rw [ht, Option.some.injEq] at ht'
    exact hg k hk' ht'.symm
  have hfence : Follows Db.metadata (MetaOp.Step W) s s2 :=
    follows_op hf (hle.trans hle2) ⟨hrow, hpre⟩ (by simp [MetaOp.apply, ht, hm2])
  refine ⟨trans_of _ hfence
    (Moves.run (R := Trace W fun _ => False) (trace_clearSpentBy hp _) hr.2).writes, ?_, ht ▸ hpre⟩
  have hlast := (metaStmt_wrote (by simp) hr.2).metadata
  rw [hlast]
  change Fenced row s2.db.metadata
  rw [hm2, Fenced, Metadata.writeKnownOne_transactions]
  exact fenced_writeTx hrow

/-- What an abort does to the coins. -/
inductive AbortCoins (u : UserID) (row : TxRow) : CoinOp → Prop
  | unpin : AbortCoins u row (.unpin u row.reference)
  | release : AbortCoins u row (.releaseReservation u row.reference)
  | remove {t : TxID} {ops : List Outpoint} : row.txid = some t →
      AbortCoins u row (.removeByMintTx t ops)

variable {u : UserID}

theorem trace_abortCoins (hc : ∀ op, AbortCoins u row op → C op) :
    Moves (Trace W C) (abortCoins u row) := by
  refine moves_bind (trace_doAbortRelease (hc _ .unpin) (hc _ .release)) fun _ => ?_
  rcases ht : row.txid with _ | t
  · exact moves_pure _
  · exact moves_bind (trace_changeOutpoints _ _ _) fun ops =>
      trace_doAbortRemoveChange (hc _ (.remove ht))

/-- Mode A: coins move only where the fence holds. -/
theorem trace_abortDirect (hp : ∀ op : MetaOp, op.Plain → W op)
    (hf : W (.fence row)) (s : Session Db)
    (hc : Fenced row (abortDirect u row s).2.db.metadata → ∀ op, AbortCoins u row op → C op) :
    Trace W C s (abortDirect u row s).2 := by
  refine trace_doUnit_a ?_ fun a s' h => ?_
  · refine (moves_bind (coins_fenceAborted (C := fun _ => True) row) (fun _ => ?_) s).le
    exact (trace_abortCoins (W := W) fun _ _ => trivial).mono fun _ _ h => h.coins
  · have hrun : (abortDirect u row s).2 = s' := by
      unfold abortDirect doUnit atomically
      rw [h]
    obtain ⟨_, s1, hfence, hrest⟩ := bind_ok h
    obtain ⟨hwrites, hfenced, -⟩ := writes_fenceAborted hp hf hfence
    have hquiet := metadata_eq_of_trace
      ((trace_abortCoins (C := fun _ => True) fun _ _ => trivial).run hrest)
    have hC := hc (by rw [hrun, hquiet]; exact hfenced)
    exact trans_of _ ⟨hwrites, (coins_fenceAborted row).run hfence⟩
        ((trace_abortCoins hC).run hrest)

theorem trace_enqueueAll {ops : List QueuedOp} (h : ∀ q ∈ ops, W (.enqueue q)) :
    Moves (Trace W C) (enqueueAll ops) :=
  moves_forM ops fun q hq => trace_enqueue (h q hq)

theorem trace_abortChange (u : UserID) (row : TxRow) : Moves (Trace W C) (abortChange u row) := by
  unfold abortChange
  split
  · exact moves_pure _
  · exact trace_changeOutpoints _ _ _

theorem trace_abortQueue (he : ∀ change, ∀ q ∈ abortOps u row change, W (.enqueue q)) :
    Moves (Trace W C) (abortQueue u row) :=
  moves_bind (trace_abortChange u row) fun change =>
    moves_bind (trace_enqueueAll (he change)) fun _ => moves_pure _

theorem trace_abortEnqueue (hp : ∀ op : MetaOp, op.Plain → W op)
    (hf : W (.fence row)) (he : ∀ change, ∀ q ∈ abortOps u row change, W (.enqueue q)) :
    Moves (Trace W C) (abortEnqueue u row) := by
  intro s
  refine trace_doUnit_of_ok ?_ fun a s' h => ?_
  · exact moves_bind (coins_fenceAborted row)
      (fun _ => (trace_abortQueue he).mono fun _ _ h => h.coins) s
  · obtain ⟨_, s1, hfence, hr⟩ := bind_ok h
    exact trans_of _ (writes_fenceAborted hp hf hfence).1
      ((trace_abortQueue (C := C) he).run hr).writes

/-- Where the first unit of an abort succeeds, the raw transaction was not broadcast, the row is
aborted and the operations are queued. -/
theorem abortEnqueue_ok {ops : List QueuedOp} (h : abortEnqueue u row s = (.ok ops, s')) :
    (∃ change, ops = abortOps u row change) ∧ Fenced row s'.db.metadata
      ∧ ∀ k ∈ s.db.metadata.knownTxs, row.txid = some k.txid →
        k.status ∈ ProvenTxReqStatus.preBroadcast := by
  obtain ⟨_, s1, hfence, h⟩ := bind_ok (doUnit_ok h)
  obtain ⟨change, s2, hch, h⟩ := bind_ok h
  obtain ⟨_, s3, henq, h⟩ := bind_ok h
  cases h
  obtain ⟨-, hfenced, hpre⟩ := writes_fenceAborted (W := fun _ => True) (fun _ _ =>
      trivial) trivial hfence
  refine ⟨⟨change, rfl⟩, ?_, fun k hk ht => (hpre k hk ht).1⟩
  have h2 := metadata_eq_of_trace ((trace_abortChange (C := fun _ => True) u row).run hch)
  have h3 := TimedPath.keeps (I := Fenced row) ((trace_enqueueAll (C := fun _ => True)
    (W := fun op => ∃ q, op = .enqueue q) fun q _ => ⟨q, rfl⟩).run henq).writes
    (fun ⟨_, ⟨_, hop⟩, _, hm⟩ hI => by rw [hm, hop]; exact hI) (by rw [h2]; exact hfenced)
  exact h3

theorem setTxID_ok {id : TransactionID} {t : TxID}
    (h : TransactionsRepo.setTxID id t s = (.ok a, s')) :
    s.now ≤ s'.now ∧ s'.db.utxo = s.db.utxo
      ∧ (∃ r ∈ s.db.metadata.transactions, r.transactionID = id ∧ (r.txid = none ∨ r.txid = some t))
      ∧ s'.db.metadata = s.db.metadata.writeTx (.setTxID t) fun r => r.transactionID = id := by
  have hw := metaStmt_wrote (by simp) h
  obtain ⟨⟨r, hr, hid, hg⟩, hm⟩ := Metadata.writeTxOr_ok hw.answer
  refine ⟨hw.le, hw.utxo, ⟨r, hr, by simpa using hid, ?_⟩, hw.metadata.trans hm⟩
  simpa [TxWrite.guard] using hg

theorem upsert_ok {kt : NewKnownTx} {skip : List ProvenTxReqStatus}
    (h : KnownTxRepo.upsert kt skip s = (.ok a, s')) :
    s.now ≤ s'.now ∧ s'.db.utxo = s.db.utxo
      ∧ (∀ k ∈ s.db.metadata.knownTxs, k.txid = kt.txid → k.status ∉ skip)
      ∧ s'.db.metadata = (s.db.metadata.upsertKnown kt skip s'.now).2 := by
  have hw := metaStmt_wrote (by simp) h
  refine ⟨hw.le, hw.utxo, fun k hk ht => ?_, hw.metadata⟩
  have ha := hw.answer
  rcases Metadata.upsertKnown_cases kt skip s'.now s.db.metadata with
    ⟨hno, -⟩ | ⟨k', hk', ht', ⟨-, he⟩ | ⟨hs, -⟩⟩
  · exact absurd ht (hno k hk)
  · rw [he] at ha
    cases ha
  · rwa [Table.eq_of_key hk hk' (ht.trans ht'.symm)]

theorem storeSigned_ok {args : ProcessActionArgs} {t : RawTx}
    (h : storeSigned args t row s = (.ok a, s')) :
    s.now ≤ s'.now ∧ s'.db.utxo = s.db.utxo
      ∧ (MetaOp.store row.transactionID t (newTxStatuses args)).Enabled s.db.metadata
      ∧ s'.db.metadata
        = (MetaOp.store row.transactionID t (newTxStatuses args)).apply s'.now s.db.metadata := by
  obtain ⟨_, s1, h1, h⟩ := bind_ok h
  obtain ⟨_, s2, h2, h⟩ := bind_ok h
  obtain ⟨_, s3, h3, h⟩ := bind_ok h
  cases h
  obtain ⟨hle1, hu1, ⟨r, hr, hid, ht⟩, hm1⟩ := setTxID_ok h1
  obtain ⟨hle2, hu2, ⟨r', hr', hid', hst⟩, hm2⟩ := updateStatus_ok (by decide) h2
  obtain ⟨hle3, hu3, hk, hm3⟩ := upsert_ok h3
  rw [hm1] at hr' hm2
  rw [hm2] at hk hm3
  refine ⟨(hle1.trans hle2).trans hle3, (hu3.trans hu2).trans hu1, ⟨⟨r, hr, hid, ht, ?_⟩, hk⟩, ?_⟩
  · -- setting the txid left the status of the row alone
    obtain ⟨r0, hr0, rfl⟩ := Metadata.mem_writeTx.mp hr'
    have hkey : r0.transactionID = row.transactionID := by
      split at hid'
      · simpa [TxWrite.edit] using hid'
      · exact hid'
    rw [Table.eq_of_key hr hr0 (hid.trans hkey.symm)]
    split at hst
    · simpa [TxWrite.edit] using hst
    · exact hst
  · simp only [MetaOp.apply, MetaOp.storedKnownTx, ← hm3]

theorem coins_storeSigned (args : ProcessActionArgs) (t : RawTx) (row : TxRow) :
    Moves (Follows Db.stock (CoinOp.Step C)) (storeSigned args t row) :=
  moves_bind (coins_metaStmt _) fun _ => moves_bind (coins_metaStmt _) fun _ =>
    moves_bind (coins_metaStmt _) fun _ _ => TimedPath.refl _ _

theorem trace_mintChange {t : TxID} (id : TransactionID)
    (hm : ∀ rows, C (.mint (changeMints u t rows))) : Moves (Trace W C) (mintChange u id t) := by
  refine moves_bind (trace_metaQuery _) fun rows => ?_
  split
  · exact moves_pure _
  · exact moves_bind (trace_coinOp _ (hm rows) fun _ _ _ => rfl) fun _ => moves_failOn _

theorem trace_processCommit (p : Provider) {args : ProcessActionArgs} {ref : Token}
    {t : RawTx} (s : Session Db)
    (hw : W (.store row.transactionID t (newTxStatuses args))) (hpin : C (.pin u ref))
    (hm : (∀ k ∈ s.db.metadata.knownTxs, k.txid = t → k.status ∉ ProvenTxReqStatus.neverRequeue) →
      ∀ rows, C (.mint (changeMints u t rows))) :
    Trace W C s (processCommit p u args ref t row s).2 := by
  have hpinned : Moves (Trace W C) (UtxoStore.pin u ref) := trace_coinOp _ hpin fun _ _ _ => rfl
  refine trace_doUnit_of_ok ?_ fun a s' h => ?_
  · refine bind_at (hpinned s).coins fun _ s1 h1 =>
      bind_at (coins_storeSigned args t row s1) fun _ s2 h2 => ?_
    obtain ⟨s0, hw0, -, rfl⟩ := utxoStmt_ok h1
    obtain ⟨-, -, ⟨-, hk⟩, -⟩ := storeSigned_ok h2
    simp only [hw0.db] at hk
    exact (trace_mintChange (W := W) _ (hm hk) s2).coins
  · obtain ⟨_, s1, h1, h⟩ := bind_ok h
    obtain ⟨_, s2, h2, h⟩ := bind_ok h
    obtain ⟨hle, -, hen, hap⟩ := storeSigned_ok h2
    have hmint := (trace_mintChange (W := W) (C := fun _ => True) row.transactionID fun _ =>
        trivial).run h
    exact trans_of _ (hpinned.run h1).writes (trans_of _ (follows_op hw hle hen hap) hmint.writes)

theorem mem_upsertKnown_ok (kt : NewKnownTx) (skip : List ProvenTxReqStatus) (now : Time)
    {m : Metadata} (h : ∀ k ∈ m.knownTxs, k.txid = kt.txid → k.status ∉ skip) :
    ∃ k ∈ (m.upsertKnown kt skip now).2.knownTxs, k.txid = kt.txid := by
  rcases Metadata.upsertKnown_cases kt skip now m with ⟨hno, he⟩ | ⟨k, hk, ht, ⟨hs, -⟩ | ⟨-, he⟩⟩
  · rw [he]
    exact ⟨Metadata.newKnownRow kt now,
        Table.mem_insert.mpr (Or.inr ⟨rfl, Table.get?_eq_none.mpr hno⟩), rfl⟩
  · exact absurd hs (h k hk ht)
  · rw [he]
    refine ⟨_, Metadata.mem_writeKnown.mpr ⟨k, hk, rfl⟩, ?_⟩
    split
    · rw [KnownWrite.edit_txid, ht]
    · exact ht

theorem coins_internalizeRow (u : UserID) (plan : InternalizePlan) :
    Moves (Follows Db.stock (CoinOp.Step C)) (internalizeRow u plan) := by
  unfold internalizeRow
  split
  · exact moves_pure _
  · exact moves_bind (coins_metaStmt _) fun _ => moves_bind (coins_metaStmt _) fun _ => moves_pure _

theorem writes_internalizeRow {plan : InternalizePlan}
    (hw : W (.adopt (internalizedTx u plan) plan.txid)) {id : TransactionID}
    (hk : ∃ k ∈ s.db.metadata.knownTxs, k.txid = plan.txid)
    (h : internalizeRow u plan s = (.ok id, s')) : Follows Db.metadata (MetaOp.Step W) s s' := by
  unfold internalizeRow at h
  rcases he : plan.existing with _ | row <;> simp only [he] at h
  · obtain ⟨id', s1, h1, h⟩ := bind_ok h
    obtain ⟨_, s2, h2, h⟩ := bind_ok h
    cases h
    obtain ⟨hle1, rfl, href, hm1⟩ := insertTx_ok h1
    obtain ⟨hle2, -, -, hm2⟩ := setTxID_ok h2
    unfold Follows
    rw [hm2, hm1]
    exact ((TimedPath.later hle1).step ⟨_, hw, ⟨hk, href⟩, rfl⟩).wait hle2
  · cases h
    exact TimedPath.refl _ _

theorem trace_credit (hp : ∀ op : MetaOp, op.Plain → W op) {t : TxID} {tier : Tier}
    {pl : InternalizedOutput} (id : TransactionID) (hm : C (.mint [internalizedMint u t tier pl])) :
    Moves (Trace W C) (creditInternalizedOutput u id t tier pl) :=
  moves_bind (trace_insertOutput hp _) fun _ =>
    moves_bind (trace_coinOp _ hm fun _ _ _ => rfl) fun _ => moves_failOn _

theorem trace_internalizeCommit (hp : ∀ op : MetaOp, op.Plain → W op) (p : Provider)
    {plan : InternalizePlan} (hu : W (.credit plan.txid plan.proof))
    (hw : W (.adopt (internalizedTx u plan) plan.txid))
    (hm : ∀ pl ∈ plan.plans,
      C (.mint [internalizedMint u plan.txid (internalizeTier plan.proof) pl])) :
    Moves (Trace W C) (internalizeCommit p u plan) := by
  have hcredit : ∀ id, Moves (Trace W C)
      (plan.plans.forM (creditInternalizedOutput u id plan.txid (internalizeTier plan.proof))) :=
    fun id => moves_forM _ fun pl hpl => trace_credit hp id (hm pl hpl)
  intro s
  refine trace_doUnit_of_ok ?_ fun a s' h => ?_
  · exact moves_bind (coins_metaStmt _) (fun _ => moves_bind (coins_internalizeRow u plan)
      fun id => (hcredit id).mono fun _ _ h => h.coins) s
  · obtain ⟨_, s1, h1, h⟩ := bind_ok h
    obtain ⟨id, s2, h2, h⟩ := bind_ok h
    obtain ⟨hle, -, hskip, hm1⟩ := upsert_ok h1
    have hknown := mem_upsertKnown_ok _ _ s1.now hskip
    rw [← hm1] at hknown
    exact trans_of _ (follows_op hu hle trivial hm1)
      (trans_of _ (writes_internalizeRow hw hknown h2) ((hcredit id).run h).writes)

variable {plan : ReleasePlan}

theorem gate_ok (h : gateAndFinalizeStatuses plan s = (.ok a, s')) :
    ∃ k ∈ s.db.metadata.knownTxs, k.txid = plan.txid ∧ k.status = .suspectFailed := by
  obtain ⟨_, s1, h1, -⟩ := bind_ok h
  have hw := metaStmt_wrote (by simp) h1
  have ha := hw.answer
  rcases Metadata.writeKnownOne_cases (.transitionSuspect plan.terminalKnown.1) plan.txid s1.now
    s.db.metadata with ⟨k, hk, ht, hg, -⟩ | ⟨-, -, -, -, he⟩ | ⟨-, he⟩
  · exact ⟨k, hk, ht, by simpa [KnownWrite.guard] using hg⟩
  · rw [he] at ha
    cases ha
  · rw [he] at ha
    cases ha

theorem trace_failTransactions (hp : ∀ op : MetaOp, op.Plain → W op) (t : TxID) :
    Moves (Trace W C) (failTransactions t) :=
  trace_tolerate (trace_updateStatusByTxID (hp _ (Or.inr (Or.inl rfl))))

theorem trace_gate (hp : ∀ op : MetaOp, op.Plain → W op)
    (hw : W (.known (.transitionSuspect plan.terminalKnown.1) plan.txid))
    (hn : W (.note (.finalized plan.txid))) : Moves (Trace W C) (gateAndFinalizeStatuses plan) :=
  moves_bind (trace_write hw) fun _ => moves_bind (trace_note hn) fun _ =>
    trace_failTransactions hp plan.txid

/-- What a release does to the coins. -/
inductive ReleaseCoins (plan : ReleasePlan) : CoinOp → Prop
  | unspend : ReleaseCoins plan (.unspend plan.txid plan.realInputs)
  | release {r : Token} : r ∈ plan.refs → ReleaseCoins plan (.releaseOutpoints r plan.realInputs)
  | removePhantom : ReleaseCoins plan (.remove plan.phantomInputs true)
  | removeMinted : ReleaseCoins plan (.removeByMintTx plan.txid plan.changeOps)

theorem trace_applyReleaseOpsDirect (hq : ∀ op : CoinOp, op.Plain → C op)
    (hc : ∀ op, ReleaseCoins plan op → C op)
    (hw : ∀ since child, W (.cascade plan.txid since child (env.earlier child))) :
    Moves (Trace W C) (applyReleaseOpsDirect env plan) :=
  moves_bind (trace_doUnspend hq (hc _ .unspend)) fun _ =>
    moves_bind (moves_forM _ fun _ hr => trace_doReleaseOutpoints (hc _ (.release hr))) fun _ =>
    moves_bind (trace_doRemovePhantom (hc _ .removePhantom)) fun _ =>
    trace_doRemoveMinted (hc _ .removeMinted) hw

/-- Mode A: coins move only where the gate let the transaction through. -/
theorem trace_releaseDirect (hp : ∀ op : MetaOp, op.Plain → W op)
    (hq : ∀ op : CoinOp, op.Plain → C op) (s : Session Db)
    (hw : W (.known (.transitionSuspect plan.terminalKnown.1) plan.txid))
    (hn : W (.note (.finalized plan.txid)))
    (hcas : ∀ since child, W (.cascade plan.txid since child (env.earlier child)))
    (hc : (∃ k ∈ s.db.metadata.knownTxs, k.txid = plan.txid ∧ k.status = .suspectFailed) →
      ∀ op, ReleaseCoins plan op → C op) : Trace W C s (releaseDirect env plan s).2 := by
  refine trace_doUnit_a ?_ fun a s' h => ?_
  · exact (moves_bind (trace_gate hp hw hn) (fun _ => trace_applyReleaseOpsDirect
      (C := fun _ => True) (fun _ _ => trivial) (fun _ _ => trivial) hcas) s).coins.le
  · obtain ⟨_, s1, h1, h⟩ := bind_ok h
    exact trans_of _ ((trace_gate hp hw hn).run h1)
      ((trace_applyReleaseOpsDirect hq (hc (gate_ok h1)) hcas).run h)

theorem trace_releaseEnqueue (hp : ∀ op : MetaOp, op.Plain → W op)
    (hw : W (.known (.transitionSuspect plan.terminalKnown.1) plan.txid))
    (hn : W (.note (.finalized plan.txid))) (he : ∀ q ∈ outboxOps plan, W (.enqueue q)) :
    Moves (Trace W C) (releaseEnqueue plan) :=
  trace_doUnit (moves_bind (trace_gate hp hw hn) fun _ => trace_enqueueAll he)

theorem mem_fetchPending {limit : ℕ} {pending : List OutboxEntry}
    (h : OutboxRepo.fetchPending limit s = (.ok pending, s')) :
    ∀ e ∈ pending, e ∈ s.db.metadata.outbox ∧ e.attempts < maxOutboxAttempts := by
  obtain ⟨-, rfl⟩ := metaQuery_ok h
  intro e he
  simpa using (List.mem_insertionSort OutboxRepo.pendingBefore).mp (List.mem_of_mem_take he)

theorem trace_drainOutbox (hq : ∀ op : CoinOp, op.Plain → C op) (mode : Mode) (limit : ℕ)
    (s : Session Db)
    (hc : ∀ e ∈ s.db.metadata.outbox, ∀ op, OutboxPayload.Coins e.payload op → C op)
    (hl : ∀ es, C (.logged es)) (hw : ∀ parent since child,
      W (.cascade parent since child (env.earlier child)))
    (hd : ∀ e ∈ s.db.metadata.outbox, W (.markDone e.key))
    (hr : ∀ e ∈ s.db.metadata.outbox, W (.recordError e.key)) :
    Trace W C s (drainOutbox env mode limit s).2 := by
  refine trace_doUnit_at (bind_at (trace_metaQuery _ s) fun pending s1 h => ?_)
  refine moves_bind (moves_forM pending fun e he => ?_)
    (fun _ => moves_bind (trace_metaQuery _) fun _ => moves_pure _) s1
  have hmem := (mem_fetchPending h e he).1
  exact trace_attemptOp (trace_executeOutboxOp hq (hc e hmem) hl hw)
    (fun _ => trace_markDone (hd e hmem)) fun _ => trace_recordError (hr e hmem)

end Storage

end ArcadeToolbox
