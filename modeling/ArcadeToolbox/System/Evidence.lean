import ArcadeToolbox.System.SendClaims
import ArcadeToolbox.System.Verdicts

/-!
# Was broadcast, on what evidence

The flag `was_broadcast` and the statuses beyond the broadcast stage take a stored transaction off
the send sweep's work list. The writers that set them act on an acceptance by the oracle, on a SEEN
record, or on a proof that verified. The exception is an InternalizeAction without a proof: its
upsert sets them on any row that is there.
-/

namespace ArcadeToolbox

open Txn Storage

variable {T : TxID} {now : Time} {L L' : Life} {t t' : Task}

/-- An acceptance of the oracle, a SEEN record or a verified proof. -/
def Event.isEvidence : Event → Bool
  | .accepted _ | .seen _ | .proven _ => true
  | _ => false

def Life.Evident (L : Life) : Prop := ∃ e ∈ L.history, e.isEvidence = true

/-- The row counts as broadcast. -/
def Life.Flagged (L : Life) : Prop := ∃ k, L.row = some k ∧ k.wasBroadcast = true

/-- Stored by a signer, or claimed by a sender. -/
def Event.isPosted : Event → Bool
  | .stored _ | .claimed _ _ | .reclaimed _ _ => true
  | _ => false

/-- The row's flag, and the evidence behind it. -/
structure EvidenceInv (L : Life) : Prop where
  absent : L.row = none → ∀ e ∈ L.history, e.isPosted = false
  waiting : ∀ k, L.row = some k → k.status ∉ ProvenTxReqStatus.neverRequeue → k.wasBroadcast = false
  flag : ∀ k, L.row = some k → k.status.wasBroadcastStatus = true → k.wasBroadcast = true
  evidence : L.Flagged → (∃ e ∈ L.history, e.isPosted = true) → L.Evident

/-- The writes that make a row count as broadcast. -/
def KnownWrite.raises : KnownWrite → Bool
  | setProof _ => true
  | updateStatus st _ => st.wasBroadcastStatus
  | _ => false

def KnownWrite.demotes : KnownWrite → Bool
  | clearProof _ => true
  | _ => false

/-- What a transition rests on. -/
def LifeOp.Licensed (L : Life) : LifeOp → Prop
  | .note e => e.isNote = true
  | .write w => w.lawful = true ∧ (w.raises = true → L.Evident) ∧ (w.demotes = true → L.Flagged)
  | .store st => st ∈ ProvenTxReqStatus.preBroadcast
  | .credit _ => L.row = none ∨ L.Flagged ∨ L.Evident

section Writes

variable {w : KnownWrite} {k : KnownTx}

theorem wasBroadcast_edit (h : k.wasBroadcast = true) : (w.edit now k).wasBroadcast = true := by
  cases w <;> simp [KnownWrite.edit, h]

/-- Only a raising write sets the flag. -/
theorem wasBroadcast_of_edit (hw : w.lawful = true) (hr : w.raises = false)
    (h : (w.edit now k).wasBroadcast = true) : k.wasBroadcast = true := by
  cases w with
  | upsert => cases hw
  | updateStatus st skip =>
    simp only [KnownWrite.raises] at hr
    simpa [KnownWrite.edit, hr] using h
  | setProof => cases hr
  | _ => exact h

theorem wasBroadcast_of_events (hw : w.lawful = true) (hg : w.guard now k = true) {e : Event}
    (he : e ∈ w.events now T) : (w.edit now k).wasBroadcast = false := by
  rcases events_cases now T hw with h | ⟨rfl, -⟩ | ⟨rfl, -⟩ | ⟨rfl, -⟩
  · rw [h] at he
    cases he
  all_goals simp only [KnownWrite.guard, Bool.and_eq_true, Bool.not_eq_true'] at hg
  · exact hg.2
  · exact hg.2
  · exact hg.1.2

theorem flag_edit (hw : w.lawful = true) (hd : w.demotes = true → k.wasBroadcast = true)
    (h : k.status.wasBroadcastStatus = true → k.wasBroadcast = true)
    (hs : (w.edit now k).status.wasBroadcastStatus = true) :
    (w.edit now k).wasBroadcast = true := by
  cases w with
  | upsert => cases hw
  | updateStatus st skip =>
    have hs : st.wasBroadcastStatus = true := hs
    simp [KnownWrite.edit, hs]
  | setProof => rfl
  | clearProof => exact hd rfl
  | transitionSuspect st | casFromPreBroadcast st =>
    have hs : st.wasBroadcastStatus = true := hs
    cases st <;> first | (cases hs; done) | cases hw
  | markSuspectFailed | markSuspect => cases hs
  | reclaimStaleSend | stampVerifiedRejected | setArcadeStatus | markPolled => exact h hs

theorem waiting_edit (hw : w.lawful = true) (hg : w.guard now k = true)
    (h : k.status ∉ ProvenTxReqStatus.neverRequeue → k.wasBroadcast = false)
    (hs : (w.edit now k).status ∉ ProvenTxReqStatus.neverRequeue) :
    (w.edit now k).wasBroadcast = false := by
  have hk := h (status_of_edit_not_mem hw hg hs)
  rcases hr : w.raises with _ | _
  · rcases he : (w.edit now k).wasBroadcast with _ | _
    · rfl
    · rw [wasBroadcast_of_edit hw hr he] at hk
      cases hk
  · cases w with
    | updateStatus st skip =>
      exact absurd (List.mem_append_left _ (ProvenTxReqStatus.wasBroadcastStatus_iff.mp hr)) hs
    | setProof =>
      exact absurd (show ProvenTxReqStatus.completed ∈ ProvenTxReqStatus.neverRequeue by decide) hs
    | _ => cases hr

end Writes

variable {A : LifeOp → Prop}

theorem Life.Flagged.step (hs : Life.Step T A now L L') (h : L.Flagged) :
    L'.Flagged := by
  obtain ⟨k, hk, hb⟩ := h
  cases hs with
  | note => exact ⟨k, hk, hb⟩
  | write | store | credit =>
    cases hk
    exact ⟨_, rfl, wasBroadcast_edit hb⟩
  | storeNew | creditNew => cases hk

theorem Life.Evident.step (hs : Life.Step T A now L L') (h : L.Evident) :
    L'.Evident := by
  obtain ⟨e, he, hev⟩ := h
  cases hs with
  | note | write | storeNew | store => exact ⟨e, List.mem_append_left _ he, hev⟩
  | creditNew | credit => exact ⟨e, he, hev⟩

theorem EvidenceInv.write {w : KnownWrite} {k : KnownTx} {h : List Event}
    (hi : EvidenceInv ⟨some k, h⟩) (hl : (LifeOp.write w).Licensed ⟨some k, h⟩)
    (hg : w.guard now k = true) : EvidenceInv ⟨some (w.edit now k), h ++ w.events now T⟩ := by
  obtain ⟨hw, hraise, hdem⟩ := hl
  refine ⟨nofun, ?_, ?_, ?_⟩
  · rintro _ ⟨⟩ hs
    exact waiting_edit hw hg (hi.waiting k rfl) hs
  · rintro _ ⟨⟩ hs
    refine flag_edit hw (fun hd => ?_) (hi.flag k rfl) hs
    obtain ⟨_, ⟨⟩, hb⟩ := hdem hd
    exact hb
  · rintro ⟨_, ⟨⟩, hb⟩ ⟨e, he, hpost⟩
    rcases List.mem_append.mp he with he | he
    · have hev : Life.Evident ⟨some k, h⟩ := by
        rcases hr : w.raises with _ | _
        · exact hi.evidence ⟨k, rfl, wasBroadcast_of_edit hw hr hb⟩ ⟨e, he, hpost⟩
        · exact hraise hr
      obtain ⟨e', he', hev⟩ := hev
      exact ⟨e', List.mem_append_left _ he', hev⟩
    · rw [wasBroadcast_of_events hw hg he] at hb
      cases hb

/-- Storing does not make a row count as broadcast. -/
theorem EvidenceInv.stored {k' : KnownTx} (hs : k'.status ∈ ProvenTxReqStatus.preBroadcast)
    (hb : k'.wasBroadcast = false) (h : List Event) : EvidenceInv ⟨some k', h⟩ := by
  refine ⟨nofun, ?_, ?_, ?_⟩
  · rintro _ ⟨⟩ -
    exact hb
  · rintro _ ⟨⟩ hw
    rw [ProvenTxReqStatus.wasBroadcastStatus_iff] at hw
    exact absurd (List.mem_append_left _ hw) (ProvenTxReqStatus.not_mem_of_preBroadcast hs)
  · rintro ⟨_, ⟨⟩, hw⟩ -
    rw [hb] at hw
    cases hw

theorem wasBroadcastStatus_of_preBroadcast {st : ProvenTxReqStatus}
    (h : st ∈ ProvenTxReqStatus.preBroadcast) : st.wasBroadcastStatus = false := by
  revert h
  cases st <;> decide

theorem wasBroadcast_internalized (T : TxID) (proof : Option Proof) :
    ((internalizedKnownTx T proof).wasBroadcast
      || (internalizedKnownTx T proof).status.wasBroadcastStatus) = true := by
  rw [status_internalized, Bool.or_true]

theorem EvidenceInv.credited {k' : KnownTx} {h : List Event}
    (hs : k'.status.wasBroadcastStatus = true) (hb : k'.wasBroadcast = true)
    (hev : (∃ e ∈ h, e.isPosted = true) → Life.Evident ⟨some k', h⟩) :
    EvidenceInv ⟨some k', h⟩ := by
  refine ⟨nofun, ?_, ?_, fun _ => hev⟩
  · rintro _ ⟨⟩ hn
    rw [ProvenTxReqStatus.wasBroadcastStatus_iff] at hs
    exact absurd (List.mem_append_left _ hs) hn
  · rintro _ ⟨⟩ -
    exact hb

theorem EvidenceInv.step (hA : ∀ o, A o → o.Licensed L)
    (hs : Life.Step T A now L L') (hi : EvidenceInv L) : EvidenceInv L' := by
  cases hs with
  | note ha he =>
    have hn := hA _ ha
    refine ⟨fun hr e he => ?_, hi.waiting, hi.flag, ?_⟩
    · rcases List.mem_append.mp he with he | he
      · exact hi.absent hr e he
      · rw [List.mem_singleton.mp he]
        rename_i e' _ _
        cases e' <;> first | rfl | cases hn
    · rintro hf ⟨e, he, hpost⟩
      rcases List.mem_append.mp he with he | he
      · exact (hi.evidence hf ⟨e, he, hpost⟩).imp fun x hx => ⟨List.mem_append_left _ hx.1, hx.2⟩
      · rw [List.mem_singleton.mp he] at hpost
        rename_i e' _ _
        cases e' <;> first | cases hpost; done | cases hn
  | write ha _ hg => exact hi.write (hA _ ha) hg
  | @storeNew st _ ha =>
    have hpre : st ∈ ProvenTxReqStatus.preBroadcast := hA _ ha
    refine EvidenceInv.stored hpre ?_ _
    simp [Metadata.newKnownRow, MetaOp.storedKnownTx, wasBroadcastStatus_of_preBroadcast hpre]
  | @store st _ _ ha _ hno =>
    have hpre : st ∈ ProvenTxReqStatus.preBroadcast := hA _ ha
    refine EvidenceInv.stored hpre ?_ _
    simp [storeWrite, KnownWrite.edit, MetaOp.storedKnownTx,
        wasBroadcastStatus_of_preBroadcast hpre,
      hi.waiting _ rfl hno]
  | creditNew ha =>
    refine .credited (status_internalized T _) (wasBroadcast_internalized T _) ?_
    rintro ⟨e, he, hpost⟩
    rw [hi.absent rfl e he] at hpost
    cases hpost
  | credit ha =>
    refine .credited (status_internalized T _) ?_ fun hpost => ?_
    · simp [creditWrite, KnownWrite.edit, wasBroadcast_internalized]
    · rcases hA _ ha with hr | hf | hev
      · cases hr
      · exact hi.evidence hf hpost
      · exact hev

/-- The transaction an InternalizeAction without a proof commits. -/
def Task.creditsUnproven : Task → Option TxID
  | .internalizeCommit _ plan => if plan.proof = none then some plan.txid else none
  | _ => none

/-- The row whose record a repair sweep asks the oracle for. -/
def Task.asks : Task → Option KnownTx
  | .repairOne k => some k
  | _ => none

def GetTxResult.isAbout (T : TxID) : GetTxResult → Bool
  | .found rec => rec.txid = "" || rec.txid = T
  | _ => true

/-- What a waiting task has seen of `T`. -/
def Task.Saw (T : TxID) (L : Life) : Task → Prop
  | .acceptFind t _ | .acceptCommit t _ _ => t = T → L.Evident
  | .seen rec | .minedCommit rec _ => rec.txid = T → L.Evident
  | .repair rec k => k.txid = T → rec.txid = T
  | .repairFind k _ _ | .repairCommit k _ _ _ => k.txid = T → L.Evident
  | .batchCommit plan =>
    (∀ rec ∈ plan.seen, rec.txid = T → L.Evident) ∧ ∀ pr ∈ plan.verified, pr.1.txid = T → L.Evident
  | .internalizeCommit _ plan => plan.txid = T → plan.proof.isSome = true → L.Evident
  | .demoteOne k => k.txid = T → L.Flagged
  | _ => True

theorem Task.Saw.imp (hev : L.Evident → L'.Evident) (hf : L.Flagged → L'.Flagged)
    (h : t.Saw T L) : t.Saw T L' := by
  cases t with
  | acceptFind | acceptCommit | seen | minedCommit | repairFind | repairCommit =>
    exact fun ht => hev (h ht)
  | batchCommit =>
    exact ⟨fun rec hrec ht => hev (h.1 rec hrec ht), fun pr hpr ht => hev (h.2 pr hpr ht)⟩
  | internalizeCommit => exact fun ht hp => hev (h ht hp)
  | demoteOne => exact fun ht => hf (h ht)
  | _ => exact h

theorem Task.Saw.step (hs : Life.Step T A now L L') (h : t.Saw T L) :
    t.Saw T L' := h.imp (Life.Evident.step hs) (Life.Flagged.step hs)

/-- A credit without a proof finds no row, or one that counts as broadcast, or evidence. -/
def Task.CreditOk (T : TxID) (L : Life) (t : Task) : Prop :=
  ∀ x ∈ t.creditsUnproven, x = T → L.row = none ∨ L.Flagged ∨ L.Evident

theorem licensed_of_touches {o : LifeOp} (hsaw : t.Saw T L) (hc : t.CreditOk T L)
    (h : t.Touches T o) : o.Licensed L := by
  have hlaw := h.lawful
  obtain ⟨op, ⟨_, hw⟩, ho⟩ := h
  cases hw with
  | plain hp =>
    rw [on_of_plain hp ho] at hlaw ⊢
    exact ⟨hlaw, nofun, nofun⟩
  | accept | mined | repair =>
    obtain ⟨ht, rfl⟩ := ho
    exact ⟨hlaw, fun _ => hsaw ht, nofun⟩
  | seen =>
    obtain ⟨ht, rfl⟩ := ho
    exact ⟨hlaw, fun _ => hsaw ht, nofun⟩
  | batchSeen =>
    obtain ⟨ht, rfl⟩ := ho
    obtain ⟨rec, hrec, ht⟩ := List.mem_map.mp ht
    exact ⟨hlaw, fun _ => hsaw.1 rec hrec ht, nofun⟩
  | batchMined hpr =>
    obtain ⟨ht, rfl⟩ := ho
    exact ⟨hlaw, fun _ => hsaw.2 _ hpr ht, nofun⟩
  | demote =>
    obtain ⟨ht, rfl⟩ := ho
    exact ⟨hlaw, nofun, fun _ => hsaw ht⟩
  | internalize =>
    rename_i plan
    obtain ⟨ht, rfl⟩ := ho
    rcases hp : plan.proof with _ | proof
    · exact hc plan.txid (by simp [Task.creditsUnproven, hp]) ht
    · exact Or.inr (Or.inr (hsaw ht (by rw [hp]; rfl)))
  | store =>
    obtain ⟨-, rfl⟩ := ho
    exact hlaw
  | insertDirect | insert | abortQueue | inlineDone | inlineError | drainDone | drainError
  | healDone | adopt | releaseQueue => exact ho.elim
  | accepted | saw | verified | repairVerified | batchSaw | batchVerified | internalizeVerified
  | finalized =>
    rw [show o = _ from ho] at hlaw ⊢
    exact hlaw
  | _ =>
    obtain ⟨-, rfl⟩ := ho
    exact ⟨hlaw, nofun, nofun⟩

/-- A task that credits an unproven transaction touches nothing else of it. -/
theorem Task.CreditOk.step (hs : Life.Step T (t.Touches T) now L L') (hc : t.CreditOk T L) :
    t.CreditOk T L' := by
  intro x hx ht
  rcases hc x hx ht with hr | hf | hev
  · cases t with
    | internalizeCommit u plan =>
      cases hs with
      | note ha => exact Or.inl hr
      | write | store | credit => cases hr
      | storeNew ha =>
        obtain ⟨op, ⟨_, hw⟩, ho⟩ := ha
        cases hw with
        | plain hp => cases on_of_plain hp ho
        | internalize => cases ho.2
        | adopt => exact ho.elim
      | creditNew => exact Or.inr (Or.inl ⟨_, rfl, wasBroadcast_internalized T _⟩)
    | _ => cases hx
  · exact Or.inr (Or.inl (hf.step hs))
  · exact Or.inr (Or.inr (hev.step hs))

theorem evident_of_audit {m : Metadata} {e : Event} (h : e ∈ m.audit) (ht : e.txid = T)
    (hev : e.isEvidence = true) : (m.life T).Evident :=
  ⟨e, List.mem_filter.mpr ⟨h, by simpa using ht⟩, hev⟩

theorem saw_of_leads {p : Provider} {env : Env} {m m' : Metadata} (hl : Leads p env m m' t t')
    (hi : EvidenceInv (m.life T)) (hflag : (m.life T).Flagged → (m'.life T).Flagged)
    (hsaw : t.Saw T (m'.life T))
    (hask : ∀ k ∈ t.asks, k.txid = T → (env.getTx k.txid).isAbout k.txid = true) :
    t'.Saw T (m'.life T) := by
  cases hl with
  | acceptFind ha => exact fun ht => evident_of_audit ha ht rfl
  | acceptCommit | repairCommit => exact hsaw
  | seen _ _ _ ha | minedCommit _ ha => exact fun ht => evident_of_audit ha ht rfl
  | repair _ hkt => exact fun ht => hkt.symm.trans ht
  | repairStored hp => exact fun ht => (txid_of_storedProofRecord hp).trans ht
  | repairFound _ hg =>
    intro ht
    have := hask _ rfl ht
    rw [hg] at this
    simp only [GetTxResult.isAbout, Bool.or_eq_true, decide_eq_true_eq] at this
    split
    · exact ht
    · exact (this.resolve_left ‹_›).trans ht
  | repairFind _ ha => exact fun ht => evident_of_audit ha (hsaw ht) rfl
  | batchCommit _ hseen hproven =>
    refine ⟨fun rec hrec ht => ?_, fun pr hpr ht => evident_of_audit (hproven pr hpr) ht rfl⟩
    obtain ⟨x, hx, rfl⟩ := List.mem_map.mp hrec
    obtain ⟨-, -, hmem, hne, hr⟩ := mem_routed hx
    exact evident_of_audit (hseen _ hmem (seenClass_of_route hr) hne) ht rfl
  | internalizeCommit _ _ _ ha => exact fun ht hp => evident_of_audit (ha hp) ht rfl
  | demoteOne hk hc =>
    intro ht
    refine hflag ⟨_, life_row_of_mem hk ht, hi.flag _ (life_row_of_mem hk ht) ?_⟩
    rw [hc]
    rfl
  | _ => trivial

/-- An InternalizeAction that commits `T` without a proof finds no shared row of it, or one that
counts as broadcast, or evidence; and the oracle answers about the transaction it is asked for. -/
def EvidenceStep (T : TxID) (s : System) : Step → Prop
  | .spawn _ => True
  | .run i env => ∀ t ∈ Code.top s (.run i env : Step),
      (∀ x ∈ t.creditsUnproven, x = T →
        (∀ k ∈ s.shared.db.metadata.knownTxs.rows, k.txid = T → k.wasBroadcast = true)
          ∨ ∃ e ∈ s.shared.db.metadata.audit, e.txid = T ∧ e.isEvidence = true)
      ∧ ∀ k ∈ t.asks, k.txid = T → (env.getTx k.txid).isAbout k.txid = true

theorem creditOk_of_step {s : System} {i : ℕ} {env : Env} (h : EvidenceStep T s (.run i env))
    (ht : Code.top s (.run i env : Step) = some t) :
    t.CreditOk T (s.shared.db.metadata.life T) := by
  intro x hx hxT
  rcases (h t ht).1 x hx hxT with hb | ⟨e, he, het, hev⟩
  · rcases hr : (s.shared.db.metadata.life T).row with _ | k
    · exact Or.inl rfl
    · obtain ⟨hk, hkt⟩ := Table.get?_eq_some.mp hr
      exact Or.inr (Or.inl ⟨k, hr, hb k hk hkt⟩)
  · exact Or.inr (Or.inr (evident_of_audit he het hev))

theorem evidenceInv_exec (p : Provider) (env : Env) (t : Task) (s : Shared)
    (hi : EvidenceInv (s.db.metadata.life T)) (hsaw : t.Saw T (s.db.metadata.life T))
    (hc : t.CreditOk T (s.db.metadata.life T)) :
    EvidenceInv ((t.exec p env s).1.db.metadata.life T) := by
  refine ((exec_life p env t s T).keeps
    (I := fun L => EvidenceInv L ∧ t.Saw T L ∧ t.CreditOk T L) ?_ ⟨hi, hsaw, hc⟩).1
  rintro now L L' hs ⟨hi, hsaw, hc⟩
  exact ⟨hi.step (fun o ho => licensed_of_touches hsaw hc ho) hs, hsaw.step hs, hc.step hs⟩

theorem flagged_exec (p : Provider) (env : Env) (t : Task) (s : Shared)
    (h : (s.db.metadata.life T).Flagged) : ((t.exec p env s).1.db.metadata.life T).Flagged :=
  (exec_life p env t s T).keeps Life.Flagged.step h

theorem evident_exec (p : Provider) (env : Env) (t : Task) (s : Shared)
    (h : (s.db.metadata.life T).Evident) : ((t.exec p env s).1.db.metadata.life T).Evident :=
  (exec_life p env t s T).keeps Life.Evident.step h

theorem evidenceInv_initial : EvidenceInv (Metadata.empty.life T) := by
  rw [life_empty]
  refine ⟨by simp, by simp, by simp, ?_⟩
  rintro ⟨k, hk, -⟩
  cases hk

theorem evidenceInv_runs (p : Provider) (T : TxID) (ls : List Step)
    (h : (wallet p).Along (EvidenceStep T) System.initial ls) :
    EvidenceInv (((wallet p).runs System.initial ls).shared.db.metadata.life T) := by
  refine (Code.runs_waiting (J := fun d : Shared => EvidenceInv (d.db.metadata.life T))
    (A := fun (d : Shared) t => t.Saw T (d.db.metadata.life T)) ?_ ?_ ls System.initial h
    ⟨evidenceInv_initial, fun th hth => nomatch hth⟩).1
  · rintro s op - - t ht
    cases op with
    | checkProofs =>
      rcases List.mem_cons.mp ht with rfl | ht
      · trivial
      · rcases List.mem_cons.mp ht with rfl | ht
        · trivial
        · cases List.mem_singleton.mp ht
          trivial
    | _ =>
      cases List.mem_singleton.mp ht
      trivial
  · intro s l env t hok hr hi hA
    have hsaw := hr.waiting hA
    have htop := hr.top
    obtain ⟨i, rest, rfl, -⟩ := hr
    have hkeep : ∀ t' : Task, t'.Saw T (s.shared.db.metadata.life T) →
        t'.Saw T ((t.exec p env s.shared).1.db.metadata.life T) :=
      fun t' h => h.imp (evident_exec p env t s.shared) (flagged_exec p env t s.shared)
    refine ⟨evidenceInv_exec p env t s.shared hi hsaw (creditOk_of_step hok htop), fun t' ht' => ?_,
      fun th hth t' ht' => hkeep t' (hA th hth t' ht')⟩
    exact saw_of_leads (exec_leads p env t s.shared ht') hi (flagged_exec p env t s.shared)
      (hkeep t hsaw) (hok t htop).2

/-- In every run in which InternalizeActions without a proof meet no stored transaction that was
not broadcast, a transaction that a signer stored or a sender claimed counts as broadcast only
after an acceptance, a SEEN record or a verified proof. -/
theorem broadcast_on_evidence (p : Provider) (T : TxID) (ls : List Step)
    (h : (wallet p).Along (EvidenceStep T) System.initial ls) :
    ∀ k ∈ ((wallet p).runs System.initial ls).shared.db.metadata.knownTxs, k.txid = T →
      (∃ e ∈ ((wallet p).runs System.initial ls).shared.db.metadata.audit,
        e.txid = T ∧ e.isPosted = true) →
      (k.wasBroadcast = true ∨ k.status ∈ ProvenTxReqStatus.beyondBroadcastStage) →
      ∃ e ∈ ((wallet p).runs System.initial ls).shared.db.metadata.audit,
        e = .accepted T ∨ e = .seen T ∨ e = .proven T := by
  rintro k hk hkt ⟨e, he, het, hpost⟩ hb
  have hi := evidenceInv_runs p T ls h
  have hrow := life_row_of_mem hk hkt
  have hflag : k.wasBroadcast = true :=
    hb.elim id fun hs => hi.flag k hrow (ProvenTxReqStatus.wasBroadcastStatus_iff.mpr hs)
  obtain ⟨e', he', hev⟩ := hi.evidence ⟨k, hrow, hflag⟩
    ⟨e, List.mem_filter.mpr ⟨he, by simpa using het⟩, hpost⟩
  obtain ⟨he', ht'⟩ := List.mem_filter.mp he'
  have ht' : e'.txid = T := by simpa using ht'
  refine ⟨e', he', ?_⟩
  cases e' <;> first | (cases hev; done) | skip
  all_goals
    subst ht'
    simp [Event.txid]

instance (T : TxID) (s : System) (l : Step) : Decidable (EvidenceStep T s l) := by
  cases l <;> unfold EvidenceStep <;> infer_instance

/-- The action is signed, to be sent later, and its transaction reaches another user. -/
def sharedSteps : List Step :=
  paidSteps ++ createSteps ++ [.spawn signed] ++ signSteps 2 ++ internalizeSteps 3

theorem broadcast_without_evidence :
    ∃ k ∈ ((wallet (paidProvider .a)).runs System.initial
      sharedSteps).shared.db.metadata.knownTxs.rows,
      k.txid = "child"
      ∧ .stored "child" ∈ ((wallet (paidProvider .a)).runs System.initial
        sharedSteps).shared.db.metadata.audit
      ∧ k.wasBroadcast = true ∧ k.status ∈ ProvenTxReqStatus.beyondBroadcastStage
      ∧ ∀ e ∈ ((wallet (paidProvider .a)).runs System.initial sharedSteps).shared.db.metadata.audit,
        e.txid = "child" → e.isEvidence = false := by
  decide +kernel

/-- The action is signed and a SEEN record arrives before the other user internalizes it. -/
def seenSharedSteps : List Step :=
  paidSteps ++ createSteps ++ [.spawn signed] ++ signSteps 2 ++ recordSteps 3 .seenOnNetwork
    ++ internalizeSteps 4

theorem broadcast_on_evidence_seen :
    (wallet (paidProvider .a)).Along (EvidenceStep "child") System.initial seenSharedSteps
    ∧ (∃ k ∈ ((wallet (paidProvider .a)).runs System.initial
      seenSharedSteps).shared.db.metadata.knownTxs.rows,
        k.txid = "child" ∧ k.wasBroadcast = true)
    ∧ ∀ k ∈ ((wallet (paidProvider .a)).runs System.initial
      seenSharedSteps).shared.db.metadata.knownTxs,
        k.txid = "child" →
        (∃ e ∈ ((wallet (paidProvider .a)).runs System.initial
          seenSharedSteps).shared.db.metadata.audit,
          e.txid = "child" ∧ e.isPosted = true) →
        (k.wasBroadcast = true ∨ k.status ∈ ProvenTxReqStatus.beyondBroadcastStage) →
        ∃ e ∈ ((wallet (paidProvider .a)).runs System.initial
          seenSharedSteps).shared.db.metadata.audit,
          e = .accepted "child" ∨ e = .seen "child" ∨ e = .proven "child" :=
  ⟨by decide +kernel, by decide +kernel,
    broadcast_on_evidence _ "child" seenSharedSteps (by decide +kernel)⟩

end ArcadeToolbox
