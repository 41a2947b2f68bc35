import ArcadeToolbox.Storage.CreateHolds
import ArcadeToolbox.System.Lives

/-!
# Aborted transactions and their bytes

An abort sets the transactions row and fences the raw transaction in one unit of work. The fence
goes by the txid of the row as the abort read it before. If a signer stores the transaction between
that read and the unit, the row is aborted and nothing is fenced. With every abort's snapshot
current where it commits, the two agree in every state.
-/

namespace ArcadeToolbox

open Txn

variable {m : Metadata} {now : Time} {T : TxID}

/-- Where a row comes from that is there after a write. -/
inductive Metadata.RowAfter (m : Metadata) : MetaOp → TxRow → Prop
  | kept {op : MetaOp} {r : TxRow} : r ∈ m.transactions → RowAfter m op r
  | status {st expected ts} {r : TxRow} : r ∈ m.transactions →
      RowAfter m (.txStatus st expected ts) { r with status := st }
  | inserted {tx : NewTx} {r : TxRow} : r.status = tx.status → r.userID = tx.userID →
      r.reference = tx.reference → r.txid = none → RowAfter m (.insertTx tx) r
  | adopted {tx : NewTx} {t : TxID} {r : TxRow} : r.status = tx.status → r.userID = tx.userID →
      r.reference = tx.reference → r.txid = some t → RowAfter m (.adopt tx t) r
  | fenced {row r : TxRow} : r ∈ m.transactions → r.transactionID = row.transactionID →
      r.status ∈ abortableStatuses → RowAfter m (.fence row) { r with status := .aborted }
  | stored {id t sts} {r : TxRow} : r ∈ m.transactions → r.transactionID = id →
      (r.txid = none ∨ r.txid = some t) → r.status ∈ [TxStatus.unsigned, .unprocessed] →
      RowAfter m (.store id t sts) { r with txid := some t, status := sts.1 }

/-- The ids given out so far. -/
def Metadata.IdsBelow (m : Metadata) : Prop := ∀ r ∈ m.transactions,
    r.transactionID < m.nextTransactionID

theorem upsertKnown_transactions (kt : NewKnownTx) (skip : List ProvenTxReqStatus) (now : Time)
    (m : Metadata) : (m.upsertKnown kt skip now).2.transactions = m.transactions := by
  rcases Metadata.upsertKnown_cases kt skip now m with ⟨-, h⟩ | ⟨-, -, -, ⟨-, h⟩ | ⟨-, h⟩⟩ <;>
    exact congrArg (fun x => x.2.transactions) h

theorem fence_transactions (row : TxRow) :
    ((MetaOp.fence row).apply now m).transactions
      = (m.writeTx (.updateStatus .aborted abortableStatuses) fun r =>
          r.transactionID = row.transactionID).transactions := by
  simp only [MetaOp.apply]
  rcases row.txid with _ | t
  · rfl
  · exact Metadata.writeKnownOne_transactions _ _ _ _

theorem rowAfter_insert {tx : NewTx} {x : TxRow} (h : x ∈ (m.insertTx tx now).2.transactions) :
    x ∈ m.transactions ∨ (x.transactionID = m.nextTransactionID ∧ x.status = tx.status
      ∧ x.userID = tx.userID ∧ x.reference = tx.reference ∧ x.txid = none) := by
  unfold Metadata.insertTx at h
  split at h
  · exact Or.inl h
  · rcases Table.mem_insert.mp h with h | ⟨rfl, -⟩
    · exact Or.inl h
    · exact Or.inr ⟨rfl, rfl, rfl, rfl, rfl⟩

theorem rowAfter_adopt (hids : m.IdsBelow) {tx : NewTx} {t : TxID} {x : TxRow}
    (h : x ∈ ((MetaOp.adopt tx t).apply now m).transactions) : m.RowAfter (.adopt tx t) x := by
  obtain ⟨r, hr, rfl⟩ := Metadata.mem_writeTx.mp h
  rcases rowAfter_insert hr with hr | ⟨hid, hst, hu, href, ht⟩
  · have hne : r.transactionID ≠ m.nextTransactionID := Nat.ne_of_lt (hids r hr)
    simp only [hne, decide_false, Bool.false_and, Bool.false_eq_true, if_false]
    exact .kept hr
  · simp only [hid, decide_true, TxWrite.guard, ht, Bool.true_or, Bool.and_self, if_true,
      TxWrite.edit]
    exact .adopted hst hu href rfl

theorem rowAfter_store {id : TransactionID} {t : TxID} {sts : TxStatus × ProvenTxReqStatus}
    {x : TxRow} (hen : (MetaOp.store id t sts).Enabled m)
    (h : x ∈ ((MetaOp.store id t sts).apply now m).transactions) :
    m.RowAfter (.store id t sts) x := by
  obtain ⟨⟨r0, hr0, hid0, ht0, hst0⟩, -⟩ := hen
  simp only [MetaOp.apply, Metadata.record, Metadata.log, upsertKnown_transactions] at h
  obtain ⟨r1, hr1, rfl⟩ := Metadata.mem_writeTx.mp h
  obtain ⟨r, hr, rfl⟩ := Metadata.mem_writeTx.mp hr1
  by_cases hid : r.transactionID = id
  · have hrr : r = r0 := Table.eq_of_key hr hr0 (hid.trans hid0.symm)
    subst hrr
    have hg : (TxWrite.setTxID t).guard r = true := by simpa [TxWrite.guard] using ht0
    have hg' : (TxWrite.updateStatus sts.1 [.unsigned, .unprocessed]).guard
        ((TxWrite.setTxID t).edit r) = true := by
      simpa [TxWrite.guard, TxWrite.edit] using hst0
    simp only [hid, hg, decide_true, Bool.and_self, if_true, TxWrite.edit_transactionID, hg']
    exact .stored (r := r) hr hid ht0 hst0
  · simp only [hid, decide_false, Bool.false_and, Bool.false_eq_true, if_false]
    exact .kept hr

theorem rowAfter_apply (hids : m.IdsBelow) {op : MetaOp} (hen : op.Enabled m) {x : TxRow}
    (h : x ∈ (op.apply now m).transactions) : m.RowAfter op x := by
  cases op with
  | known | cascade =>
    rw [MetaOp.apply, Metadata.writeKnownOne_transactions] at h
    exact .kept h
  | credit t proof =>
    rw [MetaOp.apply, upsertKnown_transactions] at h
    exact .kept h
  | txStatus st expected ts =>
    obtain ⟨r, hr, rfl⟩ := Metadata.mem_writeTx.mp h
    split
    · exact .status hr
    · exact .kept hr
  | insertTx tx =>
    rcases rowAfter_insert h with h | ⟨-, hst, hu, href, ht⟩
    · exact .kept h
    · exact .inserted hst hu href ht
  | adopt tx t => exact rowAfter_adopt hids h
  | fence row =>
    rw [fence_transactions] at h
    obtain ⟨r, hr, rfl⟩ := Metadata.mem_writeTx.mp h
    split
    · rename_i hg
      simp only [TxWrite.guard, Bool.and_eq_true, decide_eq_true_eq, Bool.or_eq_true] at hg
      exact .fenced hr hg.1 (hg.2.resolve_left (by simp [abortableStatuses]))
    · exact .kept hr
  | store id t sts => exact rowAfter_store hen h
  | knownAll | note | outputs | enqueue | markDone | recordError => exact .kept h

theorem idsBelow_writeTx (hids : m.IdsBelow) (w : TxWrite) (sel : TxRow → Bool) :
    (m.writeTx w sel).IdsBelow := by
  intro x hx
  obtain ⟨r, hr, rfl⟩ := Metadata.mem_writeTx.mp hx
  split
  · rw [TxWrite.edit_transactionID]
    exact hids r hr
  · exact hids r hr

theorem idsBelow_insertTx (hids : m.IdsBelow) (tx : NewTx) : (m.insertTx tx now).2.IdsBelow := by
  intro x hx
  unfold Metadata.insertTx at hx ⊢
  split at hx <;> rename_i hc
  · rw [if_pos hc]
    exact hids x hx
  · rw [if_neg hc]
    rcases Table.mem_insert.mp hx with hx | ⟨rfl, -⟩
    · exact Nat.lt_succ_of_lt (hids x hx)
    · exact Nat.lt_succ_self _

theorem upsertKnown_nextTransactionID (kt : NewKnownTx) (skip : List ProvenTxReqStatus) :
    (m.upsertKnown kt skip now).2.nextTransactionID = m.nextTransactionID := by
  rcases Metadata.upsertKnown_cases kt skip now m with ⟨-, h⟩ | ⟨-, -, -, ⟨-, h⟩ | ⟨-, h⟩⟩ <;>
    exact congrArg (fun x => x.2.nextTransactionID) h

theorem writeKnownOne_nextTransactionID (w : KnownWrite) (t : TxID) :
    (m.writeKnownOne w t now).2.nextTransactionID = m.nextTransactionID := by
  rcases Metadata.writeKnownOne_cases w t now m with ⟨-, -, -, -, h⟩ | ⟨-, -, -, -, h⟩ | ⟨-, h⟩ <;>
    exact congrArg (fun x => x.2.nextTransactionID) h

theorem idsBelow_upsertKnown (hids : m.IdsBelow) (kt : NewKnownTx) (skip : List ProvenTxReqStatus) :
    (m.upsertKnown kt skip now).2.IdsBelow := by
  intro r hr
  rw [upsertKnown_transactions] at hr
  rw [upsertKnown_nextTransactionID]
  exact hids r hr

theorem idsBelow_writeKnownOne (hids : m.IdsBelow) (w : KnownWrite) (t : TxID) :
    (m.writeKnownOne w t now).2.IdsBelow := by
  intro r hr
  rw [Metadata.writeKnownOne_transactions] at hr
  rw [writeKnownOne_nextTransactionID]
  exact hids r hr

theorem idsBelow_apply (hids : m.IdsBelow) (op : MetaOp) : (op.apply now m).IdsBelow := by
  cases op with
  | known | cascade => exact idsBelow_writeKnownOne hids _ _
  | credit t proof => exact idsBelow_upsertKnown hids _ _
  | txStatus st expected ts => exact idsBelow_writeTx hids _ _
  | insertTx tx => exact idsBelow_insertTx hids tx
  | adopt tx t => exact idsBelow_writeTx (idsBelow_insertTx hids tx) _ _
  | fence row =>
    simp only [MetaOp.apply]
    rcases row.txid with _ | t
    · exact idsBelow_writeTx hids _ _
    · exact idsBelow_writeKnownOne (idsBelow_writeTx hids _ _) _ _
  | store id t sts =>
    exact idsBelow_upsertKnown (idsBelow_writeTx (idsBelow_writeTx hids _ _) _ _) _ _
  | knownAll | note | outputs | enqueue | markDone | recordError => exact hids

/-- The raw transaction of an aborted row is off the send paths. -/
structure FenceInv (m : Metadata) : Prop where
  ids : m.IdsBelow
  known : ∀ r ∈ m.transactions, ∀ t, r.txid = some t → (m.life t).row.isSome = true
  settled : ∀ r ∈ m.transactions, r.status = .aborted → ∀ t, r.txid = some t → (m.life t).Settled

/-- The abort's snapshot of the txid is current, if its row can still be aborted. -/
def CurrentIn (row : TxRow) (m : Metadata) : Prop :=
  ∀ r ∈ m.transactions, r.transactionID = row.transactionID → r.status ∈ abortableStatuses →
    r.txid = row.txid

/-- The row whose abort the task commits, as it was read. -/
def Task.aborts : Task → Option TxRow
  | .abortTx _ row => some row
  | _ => none

theorem Task.eq_of_aborts {t : Task} {row : TxRow} (h : t.aborts = some row) :
    ∃ u, t = .abortTx u row := by
  cases t <;> cases h
  exact ⟨_, rfl⟩

/-- The row that an abort read is still as it was. -/
def Task.Current (m : Metadata) (t : Task) : Prop := ∀ row ∈ t.aborts, CurrentIn row m

instance (m : Metadata) (t : Task) : Decidable (t.Current m) :=
  inferInstanceAs (Decidable (∀ row ∈ t.aborts, ∀ r ∈ m.transactions.rows,
    r.transactionID = row.transactionID → r.status ∈ abortableStatuses → r.txid = row.txid))

section Step

variable {env : Env} {t : Task} {op : MetaOp}

theorem row_isSome_apply (hen : op.Enabled m) (h : (m.life T).row.isSome = true) :
    ((op.apply now m).life T).row.isSome = true := by
  rcases life_apply (T := T) hen with he | hs
  · rwa [he]
  · exact hs.row_isSome h

theorem settled_apply (hw : Writes env t op) (hen : op.Enabled m) (h : (m.life T).Settled) :
    ((op.apply now m).life T).Settled := by
  rcases life_apply (T := T) hen with he | hs
  · rwa [he]
  · exact h.step (fun o ho => Task.Touches.lawful (t := t) ⟨op, ⟨_, hw⟩, ho⟩) hs

theorem row_isSome_of_known (h : ∃ k ∈ m.knownTxs, k.txid = T) : (m.life T).row.isSome = true := by
  obtain ⟨k, hk, ht⟩ := h
  rw [life_row_of_mem hk ht]
  rfl

theorem row_isSome_store {id : TransactionID} {sts : TxStatus × ProvenTxReqStatus}
    (hen : (MetaOp.store id T sts).Enabled m) :
    (((MetaOp.store id T sts).apply now m).life T).row.isSome = true := by
  refine row_isSome_of_known ?_
  exact Storage.mem_upsertKnown_ok (MetaOp.storedKnownTx T sts.2) ProvenTxReqStatus.neverRequeue now
    (m := (m.writeTx _ _).writeTx _ _) hen.2

/-- A fence with the txid of the row leaves its bytes aborted. -/
theorem settled_fence {row : TxRow} (hen : (MetaOp.fence row).Enabled m) (ht : row.txid = some T)
    (h : (m.life T).row.isSome = true) : (((MetaOp.fence row).apply now m).life T).Settled := by
  obtain ⟨k, hk⟩ := Option.isSome_iff_exists.mp h
  obtain ⟨hmem, hkt⟩ := Table.get?_eq_some.mp hk
  obtain ⟨hpre, hb⟩ := hen.2 k hmem (by rw [ht, ← hkt]; rfl)
  simp only [MetaOp.apply, ht]
  exact ⟨_, life_row_write (m := m.writeTx _ _) hk (by simp [KnownWrite.guard, hpre, hb]), rfl⟩

theorem FenceInv.apply (hi : FenceInv m) (hw : Writes env t op) (hen : op.Enabled m)
    (hc : t.Current m) :
    FenceInv (op.apply now m) := by
  refine ⟨idsBelow_apply hi.ids op, fun x hx T hT => ?_, fun x hx ha T hT => ?_⟩
  · cases rowAfter_apply hi.ids hen hx with
    | kept hr => exact row_isSome_apply hen (hi.known x hr T hT)
    | status hr => exact row_isSome_apply hen (hi.known _ hr T hT)
    | inserted _ _ _ hn =>
      rw [hn] at hT
      cases hT
    | adopted _ _ _ ht =>
      rw [ht] at hT
      cases hT
      exact row_isSome_apply hen (row_isSome_of_known hen.1)
    | fenced hr _ _ => exact row_isSome_apply hen (hi.known _ hr T hT)
    | stored hr _ _ _ =>
      cases hT
      exact row_isSome_store hen
  · cases rowAfter_apply hi.ids hen hx with
    | kept hr => exact settled_apply hw hen (hi.settled x hr ha T hT)
    | status hr =>
      cases hw with
      | plain hp => rcases hp with rfl | rfl | rfl <;> cases ha
    | inserted hst =>
      cases hw with
      | plain hp => exact hp.elim
      | insertDirect h | insert h =>
        rw [hst, h] at ha
        cases ha
    | adopted hst =>
      cases hw with
      | plain hp => exact hp.elim
      | adopt =>
        rw [hst, Storage.internalizedTx] at ha
        dsimp only at ha
        split at ha <;> cases ha
    | fenced hr hid hst =>
      cases hw with
      | plain hp => exact hp.elim
      | fence =>
        exact settled_fence hen (by rw [← hc _ rfl _ hr hid hst]; exact hT) (hi.known _ hr T hT)
    | stored hr =>
      cases hw with
      | plain hp => exact hp.elim
      | store =>
        have ha : (newTxStatuses _).1 = _ := ha
        unfold newTxStatuses at ha
        split_ifs at ha

/-- While its unit runs, nothing makes the snapshot of an abort stale. -/
theorem Task.Current.apply (hi : FenceInv m) (hw : Writes env t op) (hen : op.Enabled m)
    (hc : t.Current m) : t.Current (op.apply now m) := by
  intro row hrow
  obtain ⟨u, rfl⟩ := t.eq_of_aborts hrow
  intro x hx hid hst
  cases rowAfter_apply hi.ids hen hx with
  | kept hr => exact hc row rfl x hr hid hst
  | status hr =>
    cases hw with
    | plain hp => rcases hp with rfl | rfl | rfl <;> simp [abortableStatuses] at hst
  | fenced => simp [abortableStatuses] at hst
  | inserted | adopted | stored =>
    cases hw with
    | plain hp => exact hp.elim

end Step

theorem fenceInv_exec (p : Provider) (env : Env) (t : Task) (s : Shared)
    (hi : FenceInv s.db.metadata) (hc : t.Current s.db.metadata) :
    FenceInv (t.exec p env s).1.db.metadata := by
  refine ((exec_writes p env t s).keeps (I := fun m => FenceInv m ∧ t.Current m) ?_ ⟨hi, hc⟩).1
  rintro now m _ ⟨op, hw, hen, rfl⟩ ⟨hi, hc⟩
  exact ⟨hi.apply hw hen hc, hc.apply hi hw hen⟩

theorem fenceInv_initial : FenceInv Metadata.empty :=
  ⟨fun _ h => absurd h (Table.not_mem_empty _), fun _ h => absurd h (Table.not_mem_empty _),
   fun _ h => absurd h (Table.not_mem_empty _)⟩

/-- If the step is an abort's unit of work, the txid the abort read is still the row's. -/
def SnapshotCurrent (s : System) (l : Step) : Prop :=
  ∀ t ∈ Code.top s l, t.Current s.shared.db.metadata

instance (s : System) (l : Step) : Decidable (SnapshotCurrent s l) :=
  inferInstanceAs (Decidable (∀ t ∈ Code.top s l, _))

theorem fenceInv_runs (p : Provider) (ls : List Step)
    (h : (wallet p).Along SnapshotCurrent System.initial ls) :
    FenceInv ((wallet p).runs System.initial ls).shared.db.metadata := by
  refine Code.runs_invariant (I := fun s => FenceInv s.shared.db.metadata)
    (Code.shared_step (J := fun d : Shared => FenceInv d.db.metadata) fun s l env t hok hr hi =>
        ?_) ls _ h
    fenceInv_initial
  exact fenceInv_exec p env t s.shared hi (hok t hr.top)

/-- In every run in which the snapshots of the aborts are current, the bytes of an aborted
transaction are not broadcastable. -/
theorem aborted_not_broadcastable (p : Provider) (ls : List Step)
    (h : (wallet p).Along SnapshotCurrent System.initial ls) :
    ∀ r ∈ ((wallet p).runs System.initial ls).shared.db.metadata.transactions,
      r.status = .aborted → ∀ t, r.txid = some t →
      ∀ k ∈ ((wallet p).runs System.initial ls).shared.db.metadata.knownTxs,
        k.txid = t → k.status.broadcastable = false := by
  intro r hr ha t ht k hk hkt
  obtain ⟨k', hk', hs⟩ := (fenceInv_runs p ls h).settled r hr ha t ht
  rw [life_row_of_mem hk hkt] at hk'
  cases hk'
  exact ProvenTxReqStatus.broadcastable_of_settled hs

/-- A foreign transaction that pays 5000 satoshis, and one that spends them. -/
def paidLedger : Ledger := fun t =>
  if t = "parent" then ⟨[], [⟨5000, none⟩], 100⟩
  else ⟨[⟨"parent", 0⟩], [⟨1000, some "script"⟩, ⟨3999, none⟩], 200⟩

def paidProvider (mode : Mode) : Provider :=
  { Storage.plainProvider mode with ledger := paidLedger }

/-- The user is paid; the payment is mined. -/
def paidSteps : List Step :=
  let env := { Env.quiet with reference := "payment",
                              beefProof := some ⟨1, "block", "path", "root"⟩ }
  [.spawn (.internalizeAction 1 ⟨"parent", [⟨0, .walletPayment⟩]⟩), .run 0 env, .run 0 env]

/-- An action is created that spends the payment. -/
def createSteps : List Step :=
  let env := { Env.quiet with reference := "ref" }
  .spawn (.createAction 1 ⟨[], [⟨1000, "script", none⟩], none, false⟩) :: List.replicate
      4 (.run 1 env)

/-- The action is signed, to be sent later: up to the commit. -/
def signSteps (thread : ℕ) : List Step := List.replicate 4 (.run thread Env.quiet)

def signed : Operation := .processAction 1 ⟨true, false, true, some "ref", some "child",
    some "child", []⟩

/-- The abort reads the row, the signer stores the bytes, the abort commits. -/
def racingSteps : List Step :=
  paidSteps ++ createSteps ++ [.spawn signed, .spawn (.abortAction 1 "ref"), .run 3 Env.quiet]
    ++ signSteps 2 ++ [.run 3 Env.quiet]

theorem aborted_and_broadcastable :
    ∃ r ∈ ((wallet (paidProvider .a)).runs System.initial
      racingSteps).shared.db.metadata.transactions.rows,
      r.status = .aborted ∧ ∃ t ∈ r.txid,
      ∃ k ∈ ((wallet (paidProvider .a)).runs System.initial
        racingSteps).shared.db.metadata.knownTxs.rows,
        k.txid = t ∧ k.status.broadcastable = true := by
  decide +kernel

/-- The signer stores the bytes, the abort reads the row and commits. -/
def orderlySteps : List Step :=
  paidSteps ++ createSteps ++ [.spawn signed] ++ signSteps 2
    ++ [.spawn (.abortAction 1 "ref"), .run 3 Env.quiet, .run 3 Env.quiet]

theorem aborted_not_broadcastable_orderly :
    (wallet (paidProvider .a)).Along SnapshotCurrent System.initial orderlySteps
    ∧ ∀ r ∈ ((wallet (paidProvider .a)).runs System.initial
      orderlySteps).shared.db.metadata.transactions,
        r.status = .aborted → ∀ t, r.txid = some t →
        ∀ k ∈ ((wallet (paidProvider .a)).runs System.initial
          orderlySteps).shared.db.metadata.knownTxs,
          k.txid = t → k.status.broadcastable = false :=
  ⟨by decide +kernel, aborted_not_broadcastable _ _ (by decide +kernel)⟩

end ArcadeToolbox
