import ArcadeToolbox.System.Footprints

/-!
# The life of a known transaction

For one txid, the shared row and what the audit has of it form a small state machine: the row is
written, stored by a signer or credited by a recipient, and events are noted. Every write of the
metadata is one transition of it, or none (`life_apply`), so whatever holds along the lives of all
txids holds along every run of the wallet.
-/

namespace ArcadeToolbox

open Txn Uow Storage

def Event.txid : Event → TxID
  | .claimed t _ | .reclaimed t _ | .fenced t | .stored t | .accepted t | .seen t | .proven t
  | .finalized t => t

/-- The row of a transaction and its history. -/
structure Life where
  row : Option KnownTx
  history : List Event

def Metadata.life (T : TxID) (m : Metadata) : Life :=
  ⟨m.knownTxs.get? T, m.audit.filter fun e => e.txid = T⟩

theorem life_empty (T : TxID) : Metadata.empty.life T = ⟨none, []⟩ := rfl

/-- What can be done to a life. -/
inductive LifeOp where
  | note (e : Event)
  | write (w : KnownWrite)
  | store (st : ProvenTxReqStatus)
  | credit (proof : Option Proof)

/-- The write a signer's upsert is to a row that is there. -/
def storeWrite (T : TxID) (st : ProvenTxReqStatus) : KnownWrite :=
  .upsert (MetaOp.storedKnownTx T st) ProvenTxReqStatus.neverRequeue

/-- The write a recipient's upsert is to a row that is there. -/
def creditWrite (T : TxID) (proof : Option Proof) : KnownWrite :=
  .upsert (internalizedKnownTx T proof) []

/-- One transition of a life. -/
inductive Life.Step (T : TxID) (A : LifeOp → Prop) (now : Time) : Life → Life → Prop
  | note {e : Event} {L : Life} : A (.note e) → e.txid = T →
      Step T A now L { L with history := L.history ++ [e] }
  | write {w : KnownWrite} {k : KnownTx} {h : List Event} : A (.write w) → k.txid = T →
      w.guard now k = true → Step T A now ⟨some k, h⟩ ⟨some (w.edit now k), h ++ w.events now T⟩
  | storeNew {st : ProvenTxReqStatus} {h : List Event} : A (.store st) → Step T A now ⟨none, h⟩
      ⟨some (Metadata.newKnownRow (MetaOp.storedKnownTx T st) now), h ++ [.stored T]⟩
  | store {st : ProvenTxReqStatus} {k : KnownTx} {h : List Event} : A (.store st) → k.txid = T →
      k.status ∉ ProvenTxReqStatus.neverRequeue → Step T A now ⟨some k, h⟩
        ⟨some ((storeWrite T st).edit now k), h ++ [.stored T]⟩
  | creditNew {proof : Option Proof} {h : List Event} : A (.credit proof) → Step T A now ⟨none, h⟩
      ⟨some (Metadata.newKnownRow (internalizedKnownTx T proof) now), h⟩
  | credit {proof : Option Proof} {k : KnownTx} {h : List Event} : A (.credit proof) → k.txid = T →
      Step T A now ⟨some k, h⟩ ⟨some ((creditWrite T proof).edit now k), h⟩

/-- What a write of the metadata is in the life of one txid. -/
def MetaOp.On (T : TxID) : MetaOp → LifeOp → Prop
  | .known w t, o => t = T ∧ o = .write w
  | .knownAll w ts, o => T ∈ ts ∧ o = .write w
  | .cascade parent since child _, o => child = T ∧ o = .write (cascadeMark parent since)
  | .credit t proof, o => t = T ∧ o = .credit proof
  | .note e, o => o = .note e
  | .fence row, o => row.txid = some T ∧ o = .write (.casFromPreBroadcast .aborted)
  | .store _ t sts, o => t = T ∧ o = .store sts.2
  | _, _ => False

variable {w : KnownWrite}

theorem KnownWrite.txid_of_mem_events {now : Time} {t : TxID} {e : Event}
    (h : e ∈ w.events now t) : e.txid = t := by
  unfold KnownWrite.events at h
  split at h <;> simp only [List.mem_singleton, List.not_mem_nil] at h <;> subst h <;> rfl

variable {T t : TxID} {m : Metadata} {now : Time}

theorem filter_of_ne {es : List Event} (h : ∀ e ∈ es, e.txid ≠ T) :
    es.filter (fun e => e.txid = T) = [] :=
  List.filter_eq_nil_iff.mpr fun e he => by simpa using h e he

theorem filter_of_eq {es : List Event} (h : ∀ e ∈ es, e.txid = T) :
    es.filter (fun e => e.txid = T) = es :=
  List.filter_eq_self.mpr fun e he => by simpa using h e he

theorem life_log (m : Metadata) (es : List Event) :
    (m.log es).life T = { m.life T with history := (m.life T).history ++ es.filter fun e =>
                                          e.txid = T } := by
  simp [Metadata.life, Metadata.log, List.filter_append]

/-- Where a write applied to the rows a condition selects. -/
theorem life_writeKnown (w : KnownWrite) (sel : TxID → Bool) :
    (m.writeKnown w now sel).life T
      = { m.life T with
          row := (m.life T).row.map fun k => if sel T && w.guard now k then w.edit now k
            else k } := by
  have hrow : (m.writeKnown w now sel).knownTxs.get? T
      = (m.knownTxs.get? T).map fun k => if sel k.txid && w.guard now k then w.edit now k else k :=
    @Table.get?_update _ _ _ m.knownTxs _ _ _ (fun k => w.edit_txid now k) T
  rw [Metadata.life, hrow]
  rcases hg : m.knownTxs.get? T with _ | k
  · simp [Metadata.life, hg, Metadata.writeKnown]
  · have hk : k.txid = T := (Table.get?_eq_some.mp hg).2
    simp [Metadata.life, hg, hk, Metadata.writeKnown]

theorem life_row_txid {k : KnownTx} (h : (m.life T).row = some k) : k.txid = T :=
  (Table.get?_eq_some.mp h).2

theorem life_row_of_mem {k : KnownTx} (hk : k ∈ m.knownTxs) (ht : k.txid = T) :
    (m.life T).row = some k :=
  Table.get?_eq_some.mpr ⟨hk, ht⟩

theorem life_row_eq_none (h : ∀ k ∈ m.knownTxs, k.txid ≠ T) : (m.life T).row = none :=
  Table.get?_eq_none.mpr h

theorem life_row_write {k : KnownTx} (hk : (m.life T).row = some k) (hg : w.guard now k = true) :
    ((m.writeKnownOne w T now).2.life T).row = some (w.edit now k) := by
  obtain ⟨hmem, ht⟩ := Table.get?_eq_some.mp hk
  rcases Metadata.writeKnownOne_cases w T now m with ⟨-, -, -, -, he⟩ | ⟨k', hk', ht',
      hg', -⟩ | ⟨hno, -⟩
  · rw [he]
    dsimp only
    rw [life_log, life_writeKnown, hk]
    simp [hg]
  · rw [Table.eq_of_key hk' hmem (ht'.trans ht.symm), hg] at hg'
    cases hg'
  · exact absurd ht (hno k hmem)

theorem life_insertTx (tx : NewTx) : (m.insertTx tx now).2.life T = m.life T := by
  unfold Metadata.insertTx
  split <;> rfl

/-- Nothing happened to the life, or one transition. -/
def Life.Moved (T : TxID) (A : LifeOp → Prop) (now : Time) (L L' : Life) : Prop :=
  L' = L ∨ Life.Step T A now L L'

variable {A : LifeOp → Prop}

theorem moved_known (w : KnownWrite) (hA : t = T → A (.write w)) :
    Life.Moved T A now (m.life T) ((m.writeKnownOne w t now).2.life T) := by
  rcases Metadata.writeKnownOne_cases w t now m with ⟨k, hk, ht, hg, he⟩ | ⟨-, -, -,
      -, he⟩ | ⟨-, he⟩
  · rw [he]
    dsimp only
    rw [life_log, life_writeKnown]
    by_cases hT : t = T
    · subst hT
      have hrow := life_row_of_mem hk ht
      have hlife : m.life t = ⟨some k, (m.life t).history⟩ := by rw [← hrow]
      rw [filter_of_eq fun e => KnownWrite.txid_of_mem_events]
      refine Or.inr ?_
      rw [hlife]
      simp only [decide_true, Bool.true_and, Option.map_some, hg, if_true]
      exact .write (hA rfl) ht hg
    · left
      rw [filter_of_ne fun e he => by rw [KnownWrite.txid_of_mem_events he]; exact hT]
      simp [Ne.symm hT]
  · rw [he]
    exact Or.inl rfl
  · rw [he]
    exact Or.inl rfl

theorem moved_knownAll {ts : List TxID} (hs : w.silent = true) (hA : T ∈ ts → A (.write w)) :
    Life.Moved T A now (m.life T) ((m.writeKnown w now fun t => t ∈ ts).life T) := by
  rw [life_writeKnown]
  rcases hr : (m.life T).row with _ | k
  · left
    rw [Option.map_none, ← hr]
  · have hlife : m.life T = ⟨some k, (m.life T).history⟩ := by rw [← hr]
    by_cases hw : T ∈ ts ∧ w.guard now k = true
    · right
      have := Life.Step.write (A := A) (h := (m.life T).history) (hA hw.1)
        (life_row_txid hr) hw.2
      rw [KnownWrite.events_of_silent hs, List.append_nil] at this
      rw [hlife]
      simpa [hw.1, hw.2] using this
    · left
      have : (decide (T ∈ ts) && w.guard now k) = false := by
        simpa using hw
      simp only [Option.map_some, this, Bool.false_eq_true, if_false]
      exact hlife.symm

/-- An upsert that was not refused, with the events that go with it. -/
theorem moved_upsert (kt : NewKnownTx) (skip : List ProvenTxReqStatus) (es : List Event)
    (hes : ∀ e ∈ es, e.txid = kt.txid)
    (hnew : kt.txid = T → ∀ h, Life.Step T A now ⟨none, h⟩
      ⟨some (Metadata.newKnownRow kt now), h ++ es⟩)
    (hold : kt.txid = T → ∀ k h, k.txid = T → k.status ∉ skip → Life.Step T A now ⟨some k, h⟩
      ⟨some ((KnownWrite.upsert kt skip).edit now k), h ++ es⟩)
    (hok : ∀ k ∈ m.knownTxs, k.txid = kt.txid → k.status ∉ skip) :
    Life.Moved T A now (m.life T) (((m.upsertKnown kt skip now).2.log es).life T) := by
  rw [life_log]
  by_cases hT : kt.txid = T
  · right
    rw [filter_of_eq (T := T) (by rwa [hT] at hes)]
    rcases Metadata.upsertKnown_cases kt skip now m with ⟨hno, he⟩ | ⟨k, hk, ht, ⟨hs, -⟩ | ⟨hs, he⟩⟩
    · have hrow : (m.life T).row = none := life_row_eq_none (hT ▸ hno)
      have hlife : m.life T = ⟨none, (m.life T).history⟩ := by rw [← hrow]
      have hins : ({ m with knownTxs := m.knownTxs.insert (Metadata.newKnownRow kt now) }).life T
          = ⟨some (Metadata.newKnownRow kt now), (m.life T).history⟩ := by
        unfold Metadata.life
        rw [← hT, ← Table.get?_insert_self (Table.get?_eq_none.mpr hno)]
        rfl
      rw [he, hins, hlife]
      exact hnew hT _
    · exact absurd hs (hok k hk ht)
    · have hrow := life_row_of_mem hk (ht.trans hT)
      have hlife : m.life T = ⟨some k, (m.life T).history⟩ := by rw [← hrow]
      have hg : (KnownWrite.upsert kt skip).guard now k = true := by
        simpa [KnownWrite.guard] using hs
      rw [he]
      dsimp only
      rw [life_writeKnown, hlife]
      simp only [hT, decide_true, Bool.true_and, Option.map_some, hg, if_true]
      exact hold hT k _ (ht.trans hT) hs
  · left
    rw [filter_of_ne fun e he => by rw [hes e he]; exact hT, List.append_nil]
    rcases Metadata.upsertKnown_cases kt skip now m with ⟨hno, he⟩ | ⟨k, hk, ht, ⟨hs, -⟩ | ⟨hs, he⟩⟩
    · have hins : (m.knownTxs.insert (Metadata.newKnownRow kt now)).get? T = m.knownTxs.get? T :=
        Table.get?_insert_ne (by simpa [Metadata.newKnownRow] using hT)
      rw [he, Metadata.life, hins]
      rfl
    · exact absurd hs (hok k hk ht)
    · rw [he]
      dsimp only
      rw [life_writeKnown]
      simp [Ne.symm hT]

/-- A write of the metadata is a transition of the life of every txid, or none. -/
theorem life_apply {op : MetaOp} (hop : op.Enabled m) :
    Life.Moved T (op.On T) now (m.life T) ((op.apply now m).life T) := by
  cases op with
  | known w t => exact moved_known w fun h => ⟨h, rfl⟩
  | knownAll w ts => exact moved_knownAll hop fun h => ⟨h, rfl⟩
  | cascade parent since child _ => exact moved_known _ fun h => ⟨h, rfl⟩
  | credit t proof =>
    have h : Life.Moved T ((MetaOp.credit t proof).On T) now (m.life T)
        (((m.upsertKnown (internalizedKnownTx t proof) [] now).2.log []).life T) :=
      moved_upsert _ _ _ (by simp)
      (fun ht h => by
        cases ht
        rw [List.append_nil]
        exact .creditNew ⟨rfl, rfl⟩)
      (fun ht k h hk _ => by
        cases ht
        rw [List.append_nil]
        exact .credit ⟨rfl, rfl⟩ hk)
      (by simp)
    rw [life_log, List.filter_nil, List.append_nil] at h
    exact h
  | note e =>
    change Life.Moved T _ now (m.life T) ((m.log [e]).life T)
    rw [life_log]
    by_cases he : e.txid = T
    · right
      rw [filter_of_eq (by simpa using he)]
      exact .note rfl he
    · left
      rw [filter_of_ne (by simpa using he), List.append_nil]
  | txStatus st expected ts => exact Or.inl rfl
  | insertTx tx =>
    exact Or.inl (life_insertTx tx)
  | adopt tx t =>
    exact Or.inl (life_insertTx tx)
  | outputs rows next => exact Or.inl rfl
  | enqueue q => exact Or.inl rfl
  | markDone key => exact Or.inl rfl
  | recordError key => exact Or.inl rfl
  | fence row =>
    simp only [MetaOp.apply]
    rcases ht : row.txid with _ | t
    · exact Or.inl rfl
    · exact moved_known (m := m.writeTx _ _) _ fun h => ⟨ht.trans (congrArg some h), rfl⟩
  | store id t sts =>
    refine moved_upsert (m := (m.writeTx _ _).writeTx _ _) _ _ [.stored t] (by
        simp [Event.txid, MetaOp.storedKnownTx]) (fun ht h => ?_) (fun ht k h hk hs => ?_) hop.2
    · cases ht
      exact .storeNew ⟨rfl, rfl⟩
    · cases ht
      exact .store ⟨rfl, rfl⟩ hk hs

theorem exec_fst (p : Provider) (env : Env) (t : Task) (s : Shared) :
    (t.exec p env s).1 = ⟨(t.run p env ⟨s.db, s.now, env.beats, env.busy⟩).2.db,
      (t.run p env ⟨s.db, s.now, env.beats, env.busy⟩).2.now⟩ := by
  unfold Task.exec
  rcases t.run p env ⟨s.db, s.now, env.beats, env.busy⟩ with ⟨e | next, s'⟩ <;> rfl

theorem exec_writes (p : Provider) (env : Env) (t : Task) (s : Shared) :
    TimedPath (MetaOp.Step (Writes env t)) s.now s.db.metadata (t.exec p env s).1.now
      (t.exec p env s).1.db.metadata := by
  rw [exec_fst]
  exact (t.traced p env ⟨s.db, s.now, env.beats, env.busy⟩).writes

theorem exec_coins (p : Provider) (env : Env) (t : Task) (s : Shared) :
    TimedPath (CoinOp.Step (Handles p s.db.metadata (t.exec p env s).1.db.metadata t))
      s.now s.db.stock
      (t.exec p env s).1.now (t.exec p env s).1.db.stock := by
  rw [exec_fst]
  exact (t.traced p env ⟨s.db, s.now, env.beats, env.busy⟩).coins

/-- The transitions a task may make in the life of one txid. -/
def Task.Touches (T : TxID) (t : Task) (o : LifeOp) : Prop := 
  ∃ op, (∃ env, Writes env t op) ∧ op.On T o

theorem Life.Step.mono {A A' : LifeOp → Prop} (hA : ∀ o, A o → A' o) {L L' : Life}
    (h : Life.Step T A now L L') : Life.Step T A' now L L' := by
  cases h with
  | note ha he => exact .note (hA _ ha) he
  | write ha ht hg => exact .write (hA _ ha) ht hg
  | storeNew ha => exact .storeNew (hA _ ha)
  | store ha ht hs => exact .store (hA _ ha) ht hs
  | creditNew ha => exact .creditNew (hA _ ha)
  | credit ha ht => exact .credit (hA _ ha) ht

theorem step_life {W : MetaOp → Prop} {m' : Metadata} (h : MetaOp.Step W now m m') :
    Life.Moved T (fun o => ∃ op, W op ∧ op.On T o) now (m.life T) (m'.life T) := by
  obtain ⟨op, hop, hen, rfl⟩ := h
  rcases life_apply (T := T) hen with h | h
  · exact Or.inl h
  · exact Or.inr (h.mono fun o ho => ⟨op, hop, ho⟩)

theorem exec_life (p : Provider) (env : Env) (t : Task) (s : Shared) (T : TxID) :
    TimedPath (Life.Step T (t.Touches T)) s.now (s.db.metadata.life T) (t.exec p env s).1.now
      ((t.exec p env s).1.db.metadata.life T) :=
  (exec_writes p env t s).map (Metadata.life T) fun h =>
      step_life (h.imp fun _ ho => ⟨⟨env, ho.1⟩, ho.2⟩)

/-- The writes the wallet makes to a known transaction, whoever makes them. -/
def KnownWrite.lawful : KnownWrite → Bool
  | upsert _ _ => false
  | updateStatus st skip =>
    (st = .unsent && skip = ProvenTxReqStatus.neverRequeue) || st = .unconfirmed
  | transitionSuspect st => st.isTerminalFailure || st = .stuck
  | casFromPreBroadcast st => st = .sending || st = .aborted
  | reclaimStaleSend grace => grace = resendGrace
  | clearProof st => st = .unconfirmed
  | _ => true

/-- The events that a task notes by itself. -/
def Event.isNote : Event → Bool
  | .accepted _ | .seen _ | .proven _ | .finalized _ => true
  | _ => false

def LifeOp.Lawful : LifeOp → Prop
  | note e => e.isNote = true
  | write w => w.lawful = true
  | store st => st ∈ ProvenTxReqStatus.preBroadcast
  | credit _ => True

theorem newTxStatuses_preBroadcast (args : ProcessActionArgs) :
    (newTxStatuses args).2 ∈ ProvenTxReqStatus.preBroadcast := by
  unfold newTxStatuses
  split_ifs <;> decide

/-- A plain write only stamps a poll. -/
theorem on_of_plain {op : MetaOp} {o : LifeOp} (hp : op.Plain) (ho : op.On T o) :
    o = .write .markPolled := by
  cases op with
  | knownAll w ts => rw [ho.2, show w = .markPolled from hp]
  | txStatus | outputs => exact ho.elim
  | _ => exact hp.elim

/-- No task does anything else to a known transaction. -/
theorem Task.Touches.lawful {t : Task} {o : LifeOp} (h : t.Touches T o) : o.Lawful := by
  obtain ⟨op, ⟨_, hw⟩, ho⟩ := h
  cases hw with
  | plain hp =>
    rw [on_of_plain hp ho]
    rfl
  | store =>
    rw [ho.2]
    exact newTxStatuses_preBroadcast _
  | internalize =>
    rw [ho.2]
    trivial
  | finalize =>
    rename_i plan
    rw [ho.2]
    simp [LifeOp.Lawful, KnownWrite.lawful, plan.terminalKnown.2]
  | insertDirect | insert | abortQueue | inlineDone | inlineError | drainDone | drainError
  | healDone | adopt | releaseQueue => exact ho.elim
  | accepted | saw | verified | repairVerified | batchSaw | batchVerified | internalizeVerified
  | finalized =>
    rw [show o = _ from ho]
    rfl
  | _ =>
    rw [ho.2]
    rfl

theorem lawful_sets {st : ProvenTxReqStatus} (hw : w.lawful = true) (h : w.sets = some st) :
    st ∈ ProvenTxReqStatus.neverRequeue ∧ (st = .sending → w = .casFromPreBroadcast .sending)
      ∨ w = .updateStatus .unsent ProvenTxReqStatus.neverRequeue := by
  cases w with
  | upsert kt skip => cases hw
  | updateStatus st skip =>
    cases h
    simp only [KnownWrite.lawful, Bool.or_eq_true, Bool.and_eq_true, decide_eq_true_eq] at hw
    rcases hw with ⟨rfl, rfl⟩ | rfl
    · exact Or.inr rfl
    · exact Or.inl ⟨by decide, nofun⟩
  | transitionSuspect st =>
    cases h
    cases st <;> first | (cases hw; done) | exact Or.inl ⟨by decide, by simp⟩
  | casFromPreBroadcast st =>
    cases h
    cases st <;> first | (cases hw; done) | exact Or.inl ⟨by decide, by simp⟩
  | clearProof st =>
    cases h
    cases st <;> first | (cases hw; done) | exact Or.inl ⟨by decide, by simp⟩
  | markSuspectFailed | markSuspect | setProof =>
    cases h
    exact Or.inl ⟨by decide, nofun⟩
  | reclaimStaleSend | stampVerifiedRejected | setArcadeStatus | markPolled => cases h

theorem status_internalized (T : TxID) (proof : Option Proof) :
    (Storage.internalizedKnownTx T proof).status.wasBroadcastStatus = true := by
  cases proof <;> rfl

/-- The shared row of the txid is off the send paths. -/
def Life.Settled (L : Life) : Prop := ∃ k, L.row = some k ∧ k.status.settled = true

theorem settled_edit {k : KnownTx} (hw : w.lawful = true) (hg : w.guard now k = true)
    (h : k.status.settled = true) : (w.edit now k).status.settled = true := by
  rw [w.edit_status]
  rcases hs : w.sets with _ | st
  · exact h
  · rw [ProvenTxReqStatus.settled, Bool.and_eq_true, decide_eq_true_eq] at h
    rcases lawful_sets hw hs with ⟨hn, hc⟩ | rfl
    · rw [ProvenTxReqStatus.settled, Bool.and_eq_true, decide_eq_true_eq]
      refine ⟨hn, decide_eq_true fun hst => ?_⟩
      rw [hc hst, KnownWrite.guard, Bool.and_eq_true, decide_eq_true_eq] at hg
      exact ProvenTxReqStatus.not_mem_of_preBroadcast hg.1 h.1
    · simp only [KnownWrite.guard, decide_eq_true_eq] at hg
      exact absurd h.1 hg

theorem Life.Settled.step (hA : ∀ o, A o → o.Lawful) {L L' : Life}
    (hs : Life.Step T A now L L') (h : L.Settled) : L'.Settled := by
  obtain ⟨k, hk, hset⟩ := h
  cases hs with
  | note ha he => exact ⟨k, hk, hset⟩
  | write ha _ hg =>
    cases hk
    exact ⟨_, rfl, settled_edit (hA _ ha) hg hset⟩
  | storeNew ha => cases hk
  | store ha _ hno =>
    cases hk
    rw [ProvenTxReqStatus.settled, Bool.and_eq_true, decide_eq_true_eq] at hset
    exact absurd hset.1 hno
  | creditNew ha => cases hk
  | credit ha =>
    exact ⟨_, rfl, ProvenTxReqStatus.settled_of_wasBroadcastStatus (status_internalized T _)⟩

/-- A shared row is never deleted. -/
theorem Life.Step.row_isSome {L L' : Life} (hs : Life.Step T A now L L')
    (h : L.row.isSome = true) : L'.row.isSome = true := by
  cases hs <;> first | exact h | rfl

end ArcadeToolbox
