import ArcadeToolbox.Funder.Calls
import ArcadeToolbox.System.Ops

/-!
# The traces of the units of work

For each statement, and then for each unit of work of the provider, the writes and the coin
operations it is made of.
-/

namespace ArcadeToolbox

open Txn Uow

namespace Storage

variable {W : MetaOp → Prop} {C : CoinOp → Prop} {α : Type} {env : Env}

theorem trace_write {w : KnownWrite} {t : TxID} (h : W (.known w t)) :
    Moves (Trace W C) (KnownTxRepo.write w t) :=
  trace_metaOp _ h (fun _ => trivial) fun _ _ => rfl

theorem trace_bulkWrite {w : KnownWrite} {ts : List TxID} (hs : w.silent = true)
    (h : W (.knownAll w ts)) : Moves (Trace W C) (KnownTxRepo.bulkWrite w ts) :=
  trace_metaOp _ h (fun _ => hs) fun _ _ => rfl

theorem trace_insertTx {tx : NewTx} (h : W (.insertTx tx)) :
    Moves (Trace W C) (TransactionsRepo.insert tx) :=
  trace_metaOp _ h (fun _ => trivial) fun _ _ => rfl

theorem trace_enqueue {q : QueuedOp} (h : W (.enqueue q)) :
    Moves (Trace W C) (OutboxRepo.enqueue q.owner q.chunk q.payload) :=
  trace_metaOp _ h (fun _ => trivial) fun _ _ => rfl

theorem trace_markDone {key : OutboxKey} (h : W (.markDone key)) :
    Moves (Trace W C) (OutboxRepo.markDone key) :=
  trace_metaOp _ h (fun _ => trivial) fun _ _ => rfl

theorem trace_recordError {key : OutboxKey} (h : W (.recordError key)) :
    Moves (Trace W C) (OutboxRepo.recordError key) :=
  trace_metaOp _ h (fun _ => trivial) fun _ _ => rfl

theorem any_singleton (o : Option TxID) (t : TxID) : o.any (· ∈ [t]) = decide (o = some t) := by
  cases o <;> simp

theorem trace_updateStatusByTxID {t : TxID} {st : TxStatus} {expected : List TxStatus}
    (h : W (.txStatus st expected [t])) :
    Moves (Trace W C) (TransactionsRepo.updateStatusByTxID t st expected) := by
  refine trace_metaStmt fun now m => ?_
  unfold Metadata.writeTxOr
  split
  · refine Or.inr ⟨_, h, trivial, ?_⟩
    simp only [MetaOp.apply, any_singleton]
  · exact Or.inl rfl

theorem trace_bulkUpdateStatusByTxIDs {ts : List TxID} {st : TxStatus} {expected : List TxStatus}
    (h : W (.txStatus st expected ts)) :
    Moves (Trace W C) (TransactionsRepo.bulkUpdateStatusByTxIDs ts st expected) :=
  trace_metaOp _ h (fun _ => trivial) fun _ _ => rfl

/-- A statement on the output rows. -/
theorem trace_outputs (hp : ∀ op, op.Plain → W op) {f : Time → Metadata → Except Err α × Metadata}
    (hf : ∀ t m, (f t m).2 = m
      ∨ ∃ rows next, (f t m).2 = { m with outputs := rows, nextOutputID := next }) :
    Moves (Trace W C) (metaStmt f) := by
  refine trace_metaStmt fun t m => ?_
  rcases hf t m with h | ⟨rows, next, h⟩
  · exact Or.inl h
  · exact Or.inr ⟨.outputs rows next, hp _ trivial, trivial, h⟩

theorem trace_insertOutput (hp : ∀ op, op.Plain → W op) (o : NewOutput) :
    Moves (Trace W C) (OutputsRepo.insert o) := by
  refine trace_outputs hp fun _ m => ?_
  unfold Metadata.insertOutput
  split
  · exact Or.inl rfl
  · exact Or.inr ⟨_, _, rfl⟩

theorem trace_markSpent (hp : ∀ op, op.Plain → W op) (id : TransactionID) (ids : List OutputID) :
    Moves (Trace W C) (OutputsRepo.markSpent id ids) :=
  trace_outputs hp fun _ _ => Or.inr ⟨_, _, rfl⟩

theorem trace_clearSpentBy (hp : ∀ op, op.Plain → W op) (id : TransactionID) :
    Moves (Trace W C) (OutputsRepo.clearSpentBy id) :=
  trace_outputs hp fun _ _ => Or.inr ⟨_, _, rfl⟩

theorem trace_relinquish (hp : ∀ op, op.Plain → W op) (u : UserID) (basket : String)
    (op : Outpoint) :
    Moves (Trace W C) (OutputsRepo.relinquishOutput u basket op) := by
  refine trace_outputs hp fun _ m => ?_
  dsimp only
  split_ifs
  · exact Or.inr ⟨_, _, rfl⟩
  · exact Or.inl rfl
  · exact Or.inl rfl

section Units

variable (hp : ∀ op : MetaOp, op.Plain → W op) (hq : ∀ op : CoinOp, op.Plain → C op)

theorem trace_answer {op : CoinOp} (hop : C op)
    {x : Time → Inventory → Except UtxoErr α × Inventory}
    (hx : ∀ t i r, ((x t i).2, r) = op.apply t (i, r)) (s : Session Db) :
    Trace W C s (UtxoStore.answer x s).2 := by
  have h := trace_coinOp (W := W) (f := fun now i => (.ok (x now i).1, (x now i).2)) op hop hx s
  unfold UtxoStore.answer
  rcases hs : utxoStmt (fun now i => (.ok (x now i).1, (x now i).2)) s with ⟨e | a, s'⟩ <;>
    rw [hs] at h <;> exact h

theorem trace_optimistic {op : CoinOp} (hop : C op)
    {x : Time → Inventory → Except UtxoErr α × Inventory}
    (hx : ∀ t i r, ((x t i).2, r) = op.apply t (i, r)) (s : Session Db) :
    Trace W C s (UtxoStore.optimistic x s).2 := by
  unfold UtxoStore.optimistic
  split
  · exact ⟨TimedPath.refl _ _, TimedPath.refl _ _⟩
  · rename_i busy _
    have h := trace_answer (W := W) hop hx { s with busy := busy }
    exact ⟨h.writes, h.coins⟩
  · exact trace_answer hop hx s

/-- A call of the funder is its operation, or nothing where it meets contention or a failure. -/
theorem trace_call (prober : Bool) {c : StoreCall} (hc : C (.call c)) (s : Session Db) :
    Trace W C s (UtxoStore.call prober c s).2 := by
  cases c with
  | claimSmallestSufficient sc r n => exact trace_optimistic hc (fun _ _ _ => rfl) s
  | claimLargestInsufficient sc r n l => exact trace_optimistic hc (fun _ _ _ => rfl) s
  | claimExact sc r d n => exact trace_optimistic hc (fun _ _ _ => rfl) s
  | releaseReservation u r => exact trace_answer hc (fun _ _ _ => rfl) s
  | releaseOutpoints r ops => exact trace_optimistic hc (fun _ _ _ => rfl) s
  | claimableExists sc n =>
    cases prober
    · exact refl_of _ s
    · change Trace W C s (UtxoStore.claimableExists sc n s).2
      unfold UtxoStore.claimableExists
      dsimp only
      split
      · exact ⟨TimedPath.refl _ _, TimedPath.refl _ _⟩
      · rename_i busy _
        have h := trace_answer (W := W) hc (x := fun _ i => (Except.ok (i.rows.any fun r =>
          Inventory.claimable r sc && decide (n ≤ r.satoshis)), i)) (fun _ _ _ => rfl)
          { s with busy := busy }
        exact ⟨h.writes, h.coins⟩
      · exact trace_answer hc (fun _ _ _ => rfl) s

theorem trace_fundProg (p : Provider) {fa : FundArgs}
    (hc : ∀ c : StoreCall, c.Under fa.userID fa.reservation → C (.call c)) :
    Moves (Trace W C) (UtxoStore.runProg p.funding.prober (fundProg p fa)) :=
  Prog.Only.run (fun c h => trace_call p.funding.prober (hc c h)) _
    (Funder.own_fund p.funding.fees p.funding.rounds)

theorem trace_reserveProvidedInputs {u : UserID} {ref : Token} {ops : List Outpoint}
    (h : C (.reserveOutpoints u ref ops)) :
    Moves (Trace W C) (reserveProvidedInputs u ref ops) := by
  unfold reserveProvidedInputs
  split
  · exact moves_pure _
  · exact trace_coinOp _ h fun _ _ _ => rfl

include hp in
theorem trace_persistCreateAction (p : Provider) (env : Env) {u : UserID} {ref : Token}
    (args : CreateActionArgs) (provided : List ResolvedInput) (fundRes : FundResult)
    (hi : ∀ tx : NewTx, tx.status = .unsigned → tx.userID = u → tx.reference = ref →
      W (.insertTx tx)) :
    Moves (Trace W C) (persistCreateAction p env u ref args provided fundRes) := by
  refine moves_bind (moves_liftFund _) fun _ => moves_bind (moves_require _ _) fun _ =>
    moves_bind (trace_insertTx (hi _ rfl rfl rfl)) fun _ =>
        moves_bind (moves_forM _ fun _ _ => ?_) fun _ =>
    moves_bind (trace_metaQuery _) fun _ => moves_pure _
  exact moves_bind (trace_insertOutput hp _) fun _ => moves_pure _

include hp in
theorem trace_createDirect (p : Provider) (env : Env) {u : UserID} {ref : Token}
    (args : CreateActionArgs) (provided : List ResolvedInput) {fa : FundArgs}
    (hi : ∀ tx : NewTx, tx.status = .unsigned → tx.userID = u → tx.reference = ref →
      W (.insertTx tx))
    (hr : C (.reserveOutpoints u ref (walletOwnedOutpoints provided)))
    (hc : ∀ c : StoreCall, c.Under fa.userID fa.reservation → C (.call c)) :
    Moves (Trace W C) (createDirect p env u ref args provided fa) := by
  refine trace_doUnit (moves_bind (trace_reserveProvidedInputs hr) fun _ =>
    moves_bind (trace_fundProg p hc) fun _ => moves_bind (moves_liftFund _) fun fundRes => ?_)
  exact trace_persistCreateAction hp p env args provided fundRes hi

theorem trace_tolerate {es : List Err} {x : Work Unit} (hx : Moves (Trace W C) x) :
    Moves (Trace W C) (tolerate es x) :=
  moves_tolerate es hx

include hp in
theorem trace_markInputsSpent (p : Provider) (u : UserID) (id : TransactionID) (raw : RawTx) :
    Moves (Trace W C) (markInputsSpent p u id raw) := by
  unfold markInputsSpent
  split
  · exact moves_pure _
  · refine moves_bind (trace_metaQuery _) fun _ => ?_
    dsimp only
    split
    · exact moves_pure _
    · exact trace_markSpent hp _ _

include hp in
theorem trace_applyAcceptedBroadcast (p : Provider) {t : TxID} {raw : RawTx} {row : TxRow}
    (hw : W (.known (.updateStatus .unconfirmed ProvenTxReqStatus.beyondBroadcastStage) t))
    (hs : C (.spend ((p.ledger raw).inputs.map fun o => ⟨o, row.reference, t⟩))) :
    Moves (Trace W C) (applyAcceptedBroadcast p t raw row) := by
  refine trace_doUnit (moves_bind ?_ fun _ => moves_bind ?_ fun _ => moves_bind ?_ fun _ => ?_)
  · refine moves_bind (moves_require _ _) fun _ => ?_
    split
    · exact moves_pure _
    · exact moves_bind (trace_coinOp _ hs fun _ _ _ => rfl) fun _ => moves_failOn _
  · exact trace_tolerate (trace_updateStatusByTxID (hp _ (Or.inl rfl)))
  · exact trace_tolerate (trace_write hw)
  · exact trace_markInputsSpent hp p _ _ _

theorem trace_changeOutpoints (u : UserID) (id : TransactionID) (t : TxID) :
    Moves (Trace W C) (changeOutpoints u id t) :=
  moves_bind (trace_metaQuery _) fun _ => moves_pure _

include hp in
theorem trace_commitRejected (p : Provider) (u : UserID) {t : TxID} {info : String}
    (row : Option TxRow) (hw : ∀ now, W (.known (.markSuspectFailed now info) t))
    (hr : ∀ ops, C (.removeByMintTx t ops)) :
    Moves (Trace W C) (commitRejected p u t info row) := by
  refine trace_doUnit (moves_bind ?_ fun _ => moves_bind moves_now fun now =>
      moves_bind ?_ fun _ => ?_)
  · exact trace_tolerate (trace_updateStatusByTxID (hp _ (Or.inr (Or.inl rfl))))
  · exact trace_tolerate (trace_write (hw now))
  · cases row with
    | none => exact moves_pure _
    | some r =>
      refine moves_bind (trace_changeOutpoints _ _ _) fun ops => ?_
      split
      · exact moves_pure _
      · exact moves_bind (trace_coinOp _ (hr ops) fun _ _ _ => rfl) fun _ => moves_pure _

theorem trace_cascadeChild {parent child : TxID}
    (hw : ∀ since, W (.cascade parent since child (env.earlier child))) :
    Moves (Trace W C) (cascadeChild env parent child) := by
  intro s
  refine bind_at (trace_metaQuery _ s) fun found s1 hfound => ?_
  obtain ⟨hwait, rfl⟩ := metaQuery_ok hfound
  rcases hk : (env.earlier child).or (s.db.metadata.knownTxs.get? child) with _ | k
  · exact refl_of _ s1
  dsimp only
  split
  · exact refl_of _ s1
  · -- without another unit in between the row is as it was read when the mark is written
    rename_i hst
    refine bind_at (moves_now s1) fun _ s2 hnow => ?_
    cases hnow
    refine tolerate_at (stmt_at (fun _ _ => Trace.of_waits) fun s3 hwait3 => ?_)
    refine ⟨TimedPath.single ⟨_, hw _, fun k' hk' => ?_, rfl⟩, TimedPath.refl _ _⟩
    rw [hwait3.db, hwait.db, hk] at hk'
    cases hk'
    simpa [cascadeExempt] using hst

include hq in
theorem trace_doUnspend {t : TxID} {ops : List Outpoint} (h : C (.unspend t ops)) :
    Moves (Trace W C) (doUnspend t ops) := by
  unfold doUnspend
  split
  · exact moves_pure _
  · refine moves_bind (trace_coinOp _ h fun _ _ _ => rfl) fun _ =>
      moves_bind (moves_attempt ?_) fun _ => moves_pure _
    exact trace_coinOp _ (hq (.unfreeze ops) trivial) fun _ _ _ => rfl

theorem trace_doReleaseOutpoints {r : Token} {ops : List Outpoint}
    (h : C (.releaseOutpoints r ops)) :
    Moves (Trace W C) (doReleaseOutpoints r ops) := by
  unfold doReleaseOutpoints
  split
  · exact moves_pure _
  · exact trace_coinOp _ h fun _ _ _ => rfl

theorem trace_doRemovePhantom {ops : List Outpoint} (h : C (.remove ops true)) :
    Moves (Trace W C) (doRemovePhantom ops) := by
  unfold doRemovePhantom
  split
  · exact moves_pure _
  · exact trace_coinOp _ h fun _ _ _ => rfl

theorem trace_doRemoveMinted {t : TxID} {ops : List Outpoint} (h : C (.removeByMintTx t ops))
    (hw : ∀ since child, W (.cascade t since child (env.earlier child))) :
    Moves (Trace W C) (doRemoveMinted env t ops) := by
  unfold doRemoveMinted
  split
  · exact moves_pure _
  · refine moves_bind (trace_coinOp _ h fun _ _ _ => rfl) fun report =>
      moves_forM _ fun child _ => ?_
    exact trace_cascadeChild fun since => hw since child

theorem trace_doAbortRelease {u : UserID} {r : Token} (hu : C (.unpin u r))
    (hr : C (.releaseReservation u r)) : Moves (Trace W C) (doAbortRelease u r) :=
  moves_bind (trace_coinOp _ hu fun _ _ _ => rfl) fun _ =>
    moves_bind (trace_coinOp _ hr fun _ _ _ => rfl) fun _ => moves_pure _

theorem trace_doAbortRemoveChange {t : TxID} {ops : List Outpoint} (h : C (.removeByMintTx t ops)) :
    Moves (Trace W C) (doAbortRemoveChange t ops) := by
  unfold doAbortRemoveChange
  split
  · exact moves_pure _
  · exact moves_bind (trace_coinOp _ h fun _ _ _ => rfl) fun _ => moves_pure _

theorem trace_auditRemovals {x : Work α} (hx : Moves (Trace W C) x) (hl : ∀ es, C (.logged es)) :
    Moves (Trace W C) (auditRemovals x) := fun s =>
  ⟨(hx s).writes, TimedPath.step (hx s).coins ⟨_, hl _, rfl⟩⟩

/-- The operations a payload is made of. -/
inductive OutboxPayload.Coins : OutboxPayload → CoinOp → Prop
  | unspend {t ops} : Coins (.unspend t ops) (.unspend t ops)
  | release {r ops} : Coins (.release r ops) (.releaseOutpoints r ops)
  | removePhantom {ops} : Coins (.removePhantom ops) (.remove ops true)
  | removeMinted {t ops} : Coins (.removeMinted t ops) (.removeByMintTx t ops)
  | abortUnpin {u r} : Coins (.abortRelease u r) (.unpin u r)
  | abortRelease {u r} : Coins (.abortRelease u r) (.releaseReservation u r)
  | abortRemoveChange {t ops} : Coins (.abortRemoveChange t ops) (.removeByMintTx t ops)

include hq in
theorem trace_executeOutboxOp {pl : OutboxPayload} (hc : ∀ op, OutboxPayload.Coins pl op → C op)
    (hl : ∀ es, C (.logged es)) (hw : ∀ parent since child,
      W (.cascade parent since child (env.earlier child))) :
    Moves (Trace W C) (executeOutboxOp env pl) := by
  cases pl with
  | unspend t ops => exact trace_doUnspend hq (hc _ .unspend)
  | release r ops => exact trace_doReleaseOutpoints (hc _ .release)
  | removePhantom ops => exact trace_auditRemovals (trace_doRemovePhantom (hc _ .removePhantom)) hl
  | removeMinted t ops =>
    exact trace_auditRemovals (trace_doRemoveMinted (hc _ .removeMinted) (hw t)) hl
  | abortRelease u r => exact trace_doAbortRelease (hc _ .abortUnpin) (hc _ .abortRelease)
  | abortRemoveChange t ops =>
    exact trace_auditRemovals (trace_doAbortRemoveChange (hc _ .abortRemoveChange)) hl

/-- An operation of the outbox, and what is done with its row. -/
theorem trace_attemptOp {x : Work Unit} {f : Except Err Unit → Work Unit}
    (hx : Moves (Trace W C) x) (hok : ∀ a, Moves (Trace W C) (f (.ok a)))
    (herr : ∀ e, Moves (Trace W C) (f (.error e))) : Moves (Trace W C) (attempt x >>= f) := by
  refine moves_bind (moves_attempt hx) fun r => ?_
  cases r
  · exact herr _
  · exact hok _

include hq in
theorem trace_runInline (mode : Mode) {ops : List QueuedOp}
    (hc : ∀ q ∈ ops, ∀ op, OutboxPayload.Coins q.payload op → C op) (hl : ∀ es, C (.logged es))
    (hw : ∀ parent since child, W (.cascade parent since child (env.earlier child)))
    (hd : ∀ q ∈ ops, W (.markDone q.key)) (he : ∀ q ∈ ops, W (.recordError q.key)) :
    Moves (Trace W C) (runInline env mode ops) := by
  refine trace_doUnit (moves_forM ops fun q hm => trace_attemptOp ?_ ?_ ?_)
  · exact trace_executeOutboxOp hq (hc q hm) hl hw
  · exact fun _ => trace_markDone (hd q hm)
  · exact fun _ => moves_bind (moves_attempt (trace_recordError (he q hm))) fun _ => moves_pure _

theorem trace_setArcadeStatus {t : TxID} {st : ArcadeStatus}
    (hw : W (.known (.setArcadeStatus st) t)) :
    Moves (Trace W C) (setArcadeStatus t st) :=
  trace_tolerate (trace_write hw)

theorem trace_changeOutpointsByTxIDs (ts : List TxID) :
    Moves (Trace W C) (changeOutpointsByTxIDs ts) := by
  unfold changeOutpointsByTxIDs
  split
  · exact moves_pure _
  · exact moves_bind (trace_metaQuery _) fun _ => moves_pure _

include hq in
theorem trace_promoteChange (ts : List TxID) (tier : Tier) :
    Moves (Trace W C) (promoteBatch ts tier) := by
  refine moves_bind (trace_changeOutpointsByTxIDs _) fun ops => ?_
  split
  · exact moves_pure _
  · exact moves_bind (trace_coinOp _ (hq (.promote ops tier) trivial) fun _ _ _ => rfl) fun _ =>
      moves_pure _

include hp hq in
theorem trace_applySeen (p : Provider) {rec : TxRecord}
    (hw : W (.known (.updateStatus .unconfirmed seenAdvanceSkipStatuses) rec.txid))
    (ha : W (.known (.setArcadeStatus rec.status) rec.txid)) :
    Moves (Trace W C) (applySeen p rec) :=
  trace_doUnit (moves_bind (trace_tolerate (trace_updateStatusByTxID (hp _ (Or.inl rfl)))) fun _ =>
    moves_bind (trace_tolerate (trace_write hw)) fun _ =>
    moves_bind (trace_promoteChange hq _ _) fun _ => trace_setArcadeStatus ha)

theorem trace_verifyRecord (p : Provider) (env : Env) {rec : TxRecord}
    (hn : W (.note (.proven rec.txid))) :
    Moves (Trace W C) (verifyRecord p env rec) :=
  moves_bind (moves_require _ _) fun _ => moves_bind (trace_noteIf hn) fun _ => moves_pure _

include hp hq in
theorem trace_applyMined (p : Provider) {rec : TxRecord} {proof : Proof}
    (hw : W (.known (.setProof proof) rec.txid))
    (ha : W (.known (.setArcadeStatus rec.status) rec.txid))
    (hr : C (.removeSpentBy rec.txid)) : Moves (Trace W C) (applyMined p rec proof) :=
  trace_doUnit (moves_bind (trace_tolerate (trace_write hw)) fun _ =>
    moves_bind (trace_setArcadeStatus ha) fun _ =>
    moves_bind (trace_tolerate (trace_updateStatusByTxID (hp _ (Or.inr (Or.inr rfl))))) fun _ =>
    moves_bind (trace_promoteChange hq _ _) fun _ =>
    moves_bind (trace_coinOp _ hr fun _ _ _ => rfl) fun _ => moves_pure _)

theorem trace_applyRejected {rec : TxRecord}
    (hw : ∀ now, W (.known (.markSuspect now rec.competingTxs rec.status rec.extraInfo) rec.txid)) :
    Moves (Trace W C) (applyRejected rec) :=
  moves_bind moves_now fun now => trace_tolerate (trace_write (hw now))

/-- What a mined repair does to the coins. -/
inductive RepairCoins (p : Provider) (k : KnownTx) (spender : TxID) (row : Option TxRow) :
    CoinOp → Prop
  | spend {raw : RawTx} : k.rawTx = some raw → RepairCoins p k spender row (.spend
      ((p.ledger raw).inputs.map fun o => ⟨o, repairReservation row k.txid, spender⟩))
  | mint (rows : List (OutputRow × TxID)) : RepairCoins p k spender row
      (.mint (rows.filterMap fun o => remintRow k.txid .mined o.1))
  | removeSpentBy : RepairCoins p k spender row (.removeSpentBy spender)

include hq in
theorem trace_remintChange {t : TxID}
    (hm : ∀ rows : List (OutputRow × TxID),
      C (.mint (rows.filterMap fun o => remintRow t .mined o.1))) :
    Moves (Trace W C) (remintChangeByTxID t .mined) := by
  refine moves_bind (trace_metaQuery _) fun rows => ?_
  dsimp only
  split
  · exact moves_pure _
  · refine moves_bind (trace_coinOp _ (hm rows) fun _ _ _ => rfl) fun _ =>
      moves_bind (moves_failOn _) fun _ =>
      moves_bind (trace_coinOp _ (hq (.promote _ _) trivial) fun _ _ _ => rfl) fun _ =>
      moves_bind (moves_attempt (trace_coinOp _ (hq (.unfreeze _) trivial) fun _ _ _ => rfl))
          fun r => ?_
    rcases r with e | _
    · cases e with
      | batch items => exact moves_require _ _
      | _ => exact moves_throw _
    · exact moves_pure _

include hp hq in
theorem trace_commitMinedRepair (p : Provider) {k : KnownTx} {spender : TxID} {row : Option TxRow}
    {proof : Proof} (hw : W (.known (.setProof proof) k.txid))
    (hc : ∀ op, RepairCoins p k spender row op → C op) :
    Moves (Trace W C) (commitMinedRepair p k spender row proof) := by
  refine trace_doUnit (moves_bind ?_ fun _ => moves_bind ?_ fun _ =>
    moves_bind (trace_tolerate (trace_write hw)) fun _ =>
    moves_bind (trace_tolerate (trace_updateStatusByTxID (hp _ (Or.inr (Or.inr rfl))))) fun _ =>
    moves_bind (trace_remintChange hq fun rows => hc _ (.mint rows)) fun _ =>
    moves_bind (trace_coinOp _ (hc _ .removeSpentBy) fun _ _ _ => rfl) fun _ => moves_pure _)
  · unfold factSpendMinedInputs
    rcases hr : k.rawTx with _ | raw
    · exact moves_pure _
    · dsimp only
      split
      · exact moves_pure _
      · exact moves_bind (trace_coinOp _ (hc _ (.spend hr)) fun _ _ _ => rfl) fun _ =>
          moves_failOn _
  · unfold markMinedInputsSpent
    split
    · exact trace_markInputsSpent hp _ _ _ _
    · exact moves_pure _

theorem trace_setArcadeStatusBatch {recs : List TxRecord}
    (ha : ∀ rec ∈ recs, W (.knownAll (.setArcadeStatus rec.status) [rec.txid])) :
    Moves (Trace W C) (setArcadeStatusBatch recs) :=
  moves_forM _ fun rec hrec => trace_bulkWrite rfl (ha rec hrec)

include hq in
theorem trace_applySeenBatch {recs : List TxRecord}
    (ht : W (.txStatus .unproven [.sending, .nosend, .unproven, .unprocessed] (recs.map (·.txid))))
    (hw : W (.knownAll (.updateStatus .unconfirmed seenAdvanceSkipStatuses) (recs.map (·.txid))))
    (ha : ∀ rec ∈ recs, W (.knownAll (.setArcadeStatus rec.status) [rec.txid])) :
    Moves (Trace W C) (applySeenBatch recs) := by
  unfold applySeenBatch
  split
  · exact moves_pure _
  · exact moves_bind (trace_bulkUpdateStatusByTxIDs ht) fun _ =>
      moves_bind (trace_bulkWrite rfl hw) fun _ => moves_bind (trace_promoteChange hq _ _) fun _ =>
      trace_setArcadeStatusBatch ha

include hq in
theorem trace_applyMinedBatch {proofs : List (TxRecord × Proof × List Outpoint)}
    (ht : W (.txStatus .completed [.sending, .nosend, .unproven, .unprocessed, .completed]
      (proofs.map (·.1.txid))))
    (hw : ∀ pr ∈ proofs, W (.known (.setProof pr.2.1) pr.1.txid))
    (ha : ∀ rec ∈ proofs.map (·.1), W (.knownAll (.setArcadeStatus rec.status) [rec.txid]))
    (hr : C (.remove (proofs.flatMap (·.2.2)) true))
    (hs : ∀ pr ∈ proofs, C (.removeSpentBy pr.1.txid)) :
    Moves (Trace W C) (applyMinedBatch proofs) := by
  unfold applyMinedBatch
  split
  · exact moves_pure _
  · refine moves_bind (moves_forM _ fun pr hpr => trace_tolerate (trace_write (hw pr hpr))) fun _ =>
      moves_bind (trace_setArcadeStatusBatch ha) fun _ =>
      moves_bind (trace_bulkUpdateStatusByTxIDs ht) fun _ =>
      moves_bind (trace_promoteChange hq _ _) fun _ => moves_bind ?_ fun _ =>
      moves_forM _ fun pr hpr => ?_
    · unfold removeSpentInputs
      split
      · exact moves_pure _
      · exact trace_coinOp _ hr fun _ _ _ => rfl
    · exact moves_bind (trace_coinOp _ (hs pr (List.mem_of_mem_filter hpr)) fun _ _ _ =>
        rfl) fun _ =>
        moves_pure _

include hq in
theorem trace_applyBatch (p : Provider) {plan : BatchPlan}
    (ht : W (.txStatus .unproven [.sending, .nosend, .unproven,
      .unprocessed] (plan.seen.map (·.txid))))
    (ht' : W (.txStatus .completed [.sending, .nosend, .unproven, .unprocessed, .completed]
      (plan.verified.map (·.1.txid))))
    (hs : W (.knownAll (.updateStatus .unconfirmed seenAdvanceSkipStatuses)
      (plan.seen.map (·.txid))))
    (hw : ∀ pr ∈ plan.verified, W (.known (.setProof pr.2.1) pr.1.txid))
    (hj : ∀ rec ∈ plan.rejected, ∀ now,
      W (.known (.markSuspect now rec.competingTxs rec.status rec.extraInfo) rec.txid))
    (ha : ∀ rec ∈ plan.seen ++ plan.verified.map (·.1) ++ plan.arcadeOnly,
      W (.knownAll (.setArcadeStatus rec.status) [rec.txid]))
    (hr : C (.remove (plan.verified.flatMap (·.2.2)) true))
    (hb : ∀ pr ∈ plan.verified, C (.removeSpentBy pr.1.txid)) :
    Moves (Trace W C) (applyBatch p plan) :=
  trace_doUnit (moves_bind (trace_applySeenBatch hq ht hs fun rec h =>
      ha rec (by simp [h])) fun _ =>
    moves_bind (trace_applyMinedBatch hq ht' hw
      (fun rec h => ha rec (List.mem_append_left _ (List.mem_append_right _ h))) hr hb) fun _ =>
    moves_bind (moves_forM _ fun rec hrec => trace_applyRejected (hj rec hrec)) fun _ =>
    trace_setArcadeStatusBatch fun rec h => ha rec (by simp [h]))

include hp hq in
theorem trace_demoteProof (p : Provider) {t : TxID} (hw : W (.known (.clearProof .unconfirmed) t)) :
    Moves (Trace W C) (demoteProof p t) :=
  trace_doUnit (moves_bind (trace_tolerate (trace_write hw)) fun _ =>
    moves_bind (trace_tolerate (trace_updateStatusByTxID (hp _ (Or.inl rfl)))) fun _ =>
    trace_promoteChange hq _ _)

include hp in
theorem trace_relinquishOutput (p : Provider) (u : UserID) (basket : String) {op : Outpoint}
    (hr : C (.remove [op] false)) : Moves (Trace W C) (relinquishOutput p u basket op) := by
  refine trace_doUnit (moves_bind (trace_relinquish hp _ _ _) fun _ =>
    moves_bind (moves_attempt (trace_coinOp _ hr fun _ _ _ => rfl)) fun r => ?_)
  rcases r with e | _
  · cases e with
    | batch items => exact moves_pure _
    | _ => exact moves_throw _
  · exact moves_pure _

end Units

end Storage

end ArcadeToolbox
