import ArcadeToolbox.System.Evidence

/-!
# Completed transactions and their proofs

A shared row that is completed and has a merkle proof should stay so until a reorganisation clears
the proof. Five writers are not kept off: the commit of a synchronous rejection, the mark of a
rejected send, a rejection that was routed by an older read, a cascade that goes by an older read,
and the upsert of an InternalizeAction without a proof. Where none of the five meets the completed
row, it is kept, and the proof it has is one that verified for it.
-/

namespace ArcadeToolbox

open Txn Storage

/-- What a task is told about `T` is true: each proof that verifies passes `V`, and the oracle
answers about the transaction it is asked for. -/
def Task.Attested (V : Proof → Prop) (T : TxID) (env : Env) (t : Task) : Prop :=
  (∀ rec ∈ t.verifies, rec.txid = T → ∀ pr ∈ env.verifyMined rec, V pr)
    ∧ (∀ x ∈ t.internalizes, x = T → ∀ pr ∈ env.beefProof, V pr)
    ∧ ∀ k ∈ t.asks, k.txid = T → (env.getTx k.txid).isAbout k.txid = true

/-- No task that runs proves `T` by an unattested proof. -/
def AttestedStep (V : Proof → Prop) (T : TxID) (s : System) : Step → Prop
  | .spawn _ => True
  | .run i env => ∀ t ∈ Code.top s (.run i env : Step), t.Attested V T env

/-- A proof that a task carries for `T` has been verified. -/
def Task.Carries (V : Proof → Prop) (T : TxID) : Task → Prop
  | .minedCommit rec proof => rec.txid = T → V proof
  | .repair rec k => k.txid = T → rec.txid = T
  | .repairFind k _ proof | .repairCommit k _ _ proof => k.txid = T → V proof
  | .batchCommit plan => ∀ pr ∈ plan.verified, pr.1.txid = T → V pr.2.1
  | .internalizeCommit _ plan => plan.txid = T → ∀ pr ∈ plan.proof, V pr
  | _ => True

/-- The proofs that a task stores for `T` pass `V`. -/
def Task.Proves (V : Proof → Prop) (T : TxID) : Task → Prop
  | .minedCommit rec proof => rec.txid = T → V proof
  | .repairCommit k _ _ proof => k.txid = T → V proof
  | .batchCommit plan => ∀ pr ∈ plan.verified, pr.1.txid = T → V pr.2.1
  | .internalizeCommit _ plan => plan.txid = T → ∀ pr ∈ plan.proof, V pr
  | _ => True

/-- What proves it is attested. -/
def Life.Attested (V : Proof → Prop) (L : Life) : Prop := ∀ k, L.row = some k → ∀ pr ∈ k.proof, V pr

/-- A transition that sets a proof sets one that `V` accepts. -/
def LifeOp.Attested (V : Proof → Prop) : LifeOp → Prop
  | .write w => w.lawful = true ∧ ∀ pr, w = .setProof pr → V pr
  | .credit proof => ∀ pr ∈ proof, V pr
  | _ => True

variable {V : Proof → Prop} {T : TxID} {t t' : Task} {now : Time} {L L' : Life}
  {m m' : Metadata} {env : Env}

theorem Task.Carries.proves (h : t.Carries V T) : t.Proves V T := by
  cases t <;> first | exact h | trivial

theorem attested_of_touches {o : LifeOp} (hc : t.Proves V T) (h : t.Touches T o) :
    o.Attested V := by
  have hlaw := h.lawful
  obtain ⟨op, ⟨_, hw⟩, ho⟩ := h
  cases hw with
  | plain hp =>
    rw [on_of_plain hp ho]
    exact ⟨rfl, nofun⟩
  | mined | repair =>
    obtain ⟨ht, rfl⟩ := ho
    refine ⟨hlaw, ?_⟩
    rintro _ ⟨⟩
    exact hc ht
  | batchMined hpr =>
    obtain ⟨ht, rfl⟩ := ho
    refine ⟨hlaw, ?_⟩
    rintro _ ⟨⟩
    exact hc _ hpr ht
  | internalize =>
    obtain ⟨ht, rfl⟩ := ho
    exact hc ht
  | store =>
    obtain ⟨-, rfl⟩ := ho
    trivial
  | insertDirect | insert | abortQueue | inlineDone | inlineError | drainDone | drainError
  | healDone | adopt | releaseQueue => exact ho.elim
  | accepted | saw | verified | repairVerified | batchSaw | batchVerified | internalizeVerified
  | finalized =>
    rw [show o = _ from ho]
    trivial
  | _ =>
    obtain ⟨-, rfl⟩ := ho
    exact ⟨hlaw, nofun⟩

theorem proof_of_edit {w : KnownWrite} {k : KnownTx} {pr : Proof} (hw : w.lawful = true)
    (h : pr ∈ (w.edit now k).proof) : w = .setProof pr ∨ pr ∈ k.proof := by
  cases w with
  | upsert => cases hw
  | clearProof => cases h
  | setProof proof =>
    cases h
    exact Or.inl rfl
  | _ => exact Or.inr h

theorem Life.Attested.step {A : LifeOp → Prop} (hA : ∀ o, A o → o.Attested V)
    (hs : Life.Step T A now L L') (h : L.Attested V) : L'.Attested V := by
  cases hs with
  | note => exact h
  | write ha =>
    rintro _ ⟨⟩ pr hpr
    obtain ⟨hw, hset⟩ := hA _ ha
    exact (proof_of_edit hw hpr).elim (hset pr) (h _ rfl pr)
  | storeNew | store =>
    rintro _ ⟨⟩ pr hpr
    cases hpr
  | creditNew ha | credit ha =>
    rintro _ ⟨⟩ pr hpr
    exact hA _ ha pr hpr

theorem carries_of_leads {p : Provider} {env : Env} (hl : Leads p env m m' t t')
    (hc : t.Carries V T) (ha : t.Attested V T env) : t'.Carries V T := by
  obtain ⟨hverify, hbeef, hask⟩ := ha
  cases hl with
  | minedCommit hv => exact fun ht => hverify _ List.mem_cons_self ht _ hv
  | repair _ hkt => exact fun ht => hkt.symm.trans ht
  | repairStored hp => exact fun ht => (txid_of_storedProofRecord hp).trans ht
  | repairFound _ hg =>
    intro ht
    have := hask _ rfl ht
    rw [hg] at this
    simp only [GetTxResult.isAbout, Bool.or_eq_true, decide_eq_true_eq] at this
    split
    · exact ht
    · exact (this.resolve_left ‹_›).trans ht
  | repairFind hv => exact fun ht => hverify _ List.mem_cons_self (hc ht) _ hv
  | repairCommit => exact hc
  | batchCommit =>
    intro pr hpr ht
    obtain ⟨hmem, hv⟩ := mem_verified hpr
    exact hverify _ hmem ht _ hv
  | internalizeCommit ht hp =>
    intro hT pr hpr
    rw [hp] at hpr
    exact hbeef _ rfl (ht.symm.trans hT) pr hpr
  | _ => trivial

theorem carries_start (op : Operation) : ∀ t ∈ op.start, t.Carries V T := by
  intro t ht
  cases op with
  | checkProofs =>
    simp only [Operation.start, List.mem_cons, List.not_mem_nil, or_false] at ht
    rcases ht with rfl | rfl | rfl <;> trivial
  | _ =>
    cases List.mem_singleton.mp ht
    trivial

theorem attested_runs (p : Provider) (V : Proof → Prop) (T : TxID) (ls : List Step)
    (h : (wallet p).Along (AttestedStep V T) System.initial ls) :
    (((wallet p).runs System.initial ls).shared.db.metadata.life T).Attested V := by
  refine (Code.runs_waiting (J := fun d : Shared => (d.db.metadata.life T).Attested V)
    (A := fun _ t => t.Carries V T) (fun _ op _ _ => carries_start op) ?_ ls System.initial h
    ⟨fun _ hk => (by cases hk), fun th hth => nomatch hth⟩).1
  intro s l env t hok hr hJ hA
  have hcarry := hr.waiting hA
  have htop := hr.top
  obtain ⟨i, rest, rfl, -⟩ := hr
  refine ⟨?_, fun t' ht' => carries_of_leads (exec_leads p env t s.shared ht') hcarry
      (hok t htop), hA⟩
  exact (exec_life p env t s.shared T).keeps
    (Life.Attested.step fun o ho => attested_of_touches hcarry.proves ho) hJ

/-- A cascade of the step goes by an earlier row of `T`, and does not pass over it. -/
def Env.stale (env : Env) (T : TxID) : Bool := (env.earlier T).any fun k => !cascadeExempt k.status

/-- The task sets the status of `T` without looking at the row as it is then. -/
def Task.overrules (env : Env) (T : TxID) : Task → Bool
  | .rejectCommit _ t _ _ | .rejectMark t _ _ => t = T
  | .rejected rec => rec.txid = T
  | .batchCommit plan => plan.rejected.any (·.txid = T)
  | .internalizeCommit _ plan => plan.txid = T && plan.proof.isNone
  | .inline _ | .drain _ | .release _ => env.stale T
  | _ => false

/-- The transaction whose proof a task clears. -/
def Task.clears (env : Env) : Task → Option TxID
  | .demoteOne k => if reorged env k then some k.txid else none
  | _ => none

def KnownTx.completed (k : KnownTx) : Bool := k.status = .completed && k.proof.isSome

/-- No proof of `T` is cleared, and the writers that do not look meet no completed row of it. -/
def CompletedStep (T : TxID) (s : System) : Step → Prop
  | .spawn _ => True
  | .run i env => ∀ t ∈ Code.top s (.run i env : Step), T ∉ t.clears env
      ∧ (t.overrules env T = true → ∀ k ∈ s.shared.db.metadata.knownTxs.rows, k.txid = T →
          k.completed = false)

/-- The row is completed. -/
def Life.Completed (L : Life) : Prop := ∃ k, L.row = some k ∧ k.completed = true

/-- A write that a completed row refuses, or that leaves its status and keeps it a proof. -/
def KnownWrite.sparesCompleted : KnownWrite → Bool
  | upsert _ skip | updateStatus _ skip => .completed ∈ skip
  | markSuspectFailed _ _ | markSuspect _ _ _ _ | clearProof _ => false
  | _ => true

def LifeOp.SparesCompleted : LifeOp → Prop
  | .write w => w.sparesCompleted = true
  | .credit proof => proof.isSome = true
  | _ => True

theorem completed_edit {w : KnownWrite} {k : KnownTx} (hw : w.sparesCompleted = true)
    (hg : w.guard now k = true) (h : k.completed = true) : (w.edit now k).completed = true := by
  have hst : k.status = .completed := by
    simp only [KnownTx.completed, Bool.and_eq_true, decide_eq_true_eq] at h
    exact h.1
  cases w with
  | upsert kt skip | updateStatus st skip =>
    simp only [KnownWrite.guard, hst, decide_eq_true_eq] at hg
    exact absurd (of_decide_eq_true hw) hg
  | markSuspectFailed | markSuspect | clearProof => cases hw
  | transitionSuspect | casFromPreBroadcast | reclaimStaleSend | stampVerifiedRejected =>
    simp [KnownWrite.guard, hst, ProvenTxReqStatus.preBroadcast] at hg
  | setProof => simp [KnownTx.completed, KnownWrite.edit]
  | setArcadeStatus | markPolled => exact h

theorem Life.Completed.step {A : LifeOp → Prop} (hA : ∀ o, A o → o.SparesCompleted)
    (hs : Life.Step T A now L L') (h : L.Completed) : L'.Completed := by
  obtain ⟨k, hk, hcomp⟩ := h
  cases hs with
  | note => exact ⟨k, hk, hcomp⟩
  | write ha _ hg =>
    cases hk
    exact ⟨_, rfl, completed_edit (hA _ ha) hg hcomp⟩
  | storeNew | creditNew => cases hk
  | store _ _ hno =>
    cases hk
    simp only [KnownTx.completed, Bool.and_eq_true, decide_eq_true_eq] at hcomp
    rw [hcomp.1] at hno
    exact absurd (by decide) hno
  | credit ha =>
    have hp := hA _ ha
    refine ⟨_, rfl, ?_⟩
    simp [KnownTx.completed, creditWrite, KnownWrite.edit, internalizedKnownTx,
      show _ = true from hp]

/-- A cascade that goes by the row it marks passes over a completed one. -/
theorem not_enabled_cascade {parent : TxID} {since : Time} (hcomp : (m.life T).Completed)
    (hstale : env.stale T = false) :
    ¬ (MetaOp.cascade parent since T (env.earlier T)).Enabled m := by
  intro hen
  obtain ⟨k, hk, hc⟩ := hcomp
  have hrow : m.knownTxs.get? T = some k := hk
  rcases hread : env.earlier T with _ | k'
  · have hex := hen k (by rw [hread, Option.none_or, hrow]; rfl)
    simp only [KnownTx.completed, Bool.and_eq_true, decide_eq_true_eq] at hc
    simp [cascadeExempt, hc.1] at hex
  · have hex := hen k' (by rw [hread]; rfl)
    simp [Env.stale, hread, hex] at hstale

theorem sparesCompleted_of_writes {op : MetaOp} {o : LifeOp} (hw : Writes env t op)
    (hen : op.Enabled m) (hcomp : (m.life T).Completed) (hover : t.overrules env T = false)
    (hdem : ∀ k, t = .demoteOne k → k.txid ≠ T)
    (ho : op.On T o) : o.SparesCompleted := by
  cases hw with
  | plain hp =>
    rw [on_of_plain hp ho]
    rfl
  | reject | rejectMark | rejected =>
    simp [Task.overrules, ho.1] at hover
  | batchRejected hrec =>
    simp only [Task.overrules, List.any_eq_false, decide_eq_true_eq] at hover
    exact absurd ho.1 (hover _ hrec)
  | internalize =>
    rename_i plan
    obtain ⟨ht, rfl⟩ := ho
    rcases hp : plan.proof with _ | proof
    · simp [Task.overrules, hp, ht] at hover
    · rfl
  | inlineCascade | drainCascade | releaseCascade =>
    obtain ⟨rfl, -⟩ := ho
    exact absurd hen (not_enabled_cascade hcomp hover)
  | demote => exact absurd ho.1 (hdem _ rfl)
  | store =>
    rw [ho.2]
    trivial
  | insertDirect | insert | abortQueue | inlineDone | inlineError | drainDone | drainError
  | healDone | adopt | releaseQueue => exact ho.elim
  | accepted | saw | verified | repairVerified | batchSaw | batchVerified | internalizeVerified
  | finalized =>
    rw [show o = _ from ho]
    trivial
  | _ =>
    rw [ho.2]
    rfl

theorem completed_exec (p : Provider) (env : Env) (s : Shared) (hclear : T ∉ t.clears env)
    (hover : t.overrules env T = false) (h : (s.db.metadata.life T).Completed) :
    ((t.exec p env s).1.db.metadata.life T).Completed := by
  by_cases hdem : ∃ k, t = .demoteOne k ∧ reorged env k = false
  · -- the proof still stands, and nothing is written
    obtain ⟨k, rfl, hr⟩ := hdem
    rw [exec_fst]
    simpa [Task.run, runDemoteOne, hr, Uow.pure_apply] using h
  · refine (exec_writes p env t s).keeps (I := fun m => (m.life T).Completed) ?_ h
    rintro now m _ ⟨op, hw, hen, rfl⟩ hm
    have hno : ∀ k, t = .demoteOne k → k.txid ≠ T := by
      rintro k rfl hkt
      have hr : reorged env k = true := by
        by_contra hr
        exact hdem ⟨k, rfl, by simpa using hr⟩
      exact hclear (by simp [Task.clears, hr, hkt])
    rcases @life_apply T m now op hen with he | hs
    · rwa [he]
    · exact hm.step (fun o ho => sparesCompleted_of_writes hw hen hm hover hno ho) hs

theorem completed_runs (p : Provider) (T : TxID) (s : System) (ls : List Step)
    (h : (wallet p).Along (CompletedStep T) s ls) (hs : (s.shared.db.metadata.life T).Completed) :
    (((wallet p).runs s ls).shared.db.metadata.life T).Completed := by
  refine Code.runs_invariant (I := fun s => (s.shared.db.metadata.life T).Completed)
    (Code.shared_step (J := fun d : Shared => (d.db.metadata.life T).Completed) ?_) ls s h hs
  intro s l env t hok hr hJ
  have htop := hr.top
  obtain ⟨i, rest, rfl, -⟩ := hr
  obtain ⟨hclear, hover⟩ := hok t htop
  refine completed_exec p env s.shared hclear (Bool.eq_false_iff.mpr fun hmem => ?_) hJ
  obtain ⟨k, hk, hc⟩ := hJ
  obtain ⟨hmem', hkt⟩ := Table.get?_eq_some.mp hk
  rw [hover hmem k hmem' hkt] at hc
  cases hc

/-- From any state the wallet reaches: a completed row with a proof stays completed, and its proof
is one that verified, along every run that does not clear it and in which no writer that does not
look meets it. -/
theorem completed_proof_kept (p : Provider) (T : TxID) (V : Proof → Prop) (ls ls' : List Step)
    (hV : (wallet p).Along (AttestedStep V T) System.initial (ls ++ ls'))
    (h : (wallet p).Along (CompletedStep T) ((wallet p).runs System.initial ls) ls') :
    ∀ k ∈ ((wallet p).runs System.initial ls).shared.db.metadata.knownTxs, k.txid = T →
      k.status = .completed → k.proof.isSome = true →
      ∃ k' ∈ ((wallet p).runs System.initial (ls ++ ls')).shared.db.metadata.knownTxs, k'.txid = T
        ∧ k'.status = .completed ∧ ∃ pr, k'.proof = some pr ∧ V pr := by
  intro k hk hkt hst hpr
  obtain ⟨k', hk', hcomp⟩ := completed_runs p T _ ls' h
    ⟨k, life_row_of_mem hk hkt, by simp [KnownTx.completed, hst, hpr]⟩
  have hatt := attested_runs p V T (ls ++ ls') hV
  rw [Code.runs_append] at hatt ⊢
  simp only [KnownTx.completed, Bool.and_eq_true, decide_eq_true_eq] at hcomp
  obtain ⟨hmem, hkt'⟩ := Table.get?_eq_some.mp hk'
  obtain ⟨pr, hpr'⟩ := Option.isSome_iff_exists.mp hcomp.2
  exact ⟨k', hmem, hkt', hcomp.1, pr, hpr', hatt k' hk' pr hpr'⟩

instance (V : Proof → Prop) [DecidablePred V] (T : TxID) (s : System) :
    (l : Step) → Decidable (AttestedStep V T s l)
  | .spawn _ => isTrue trivial
  | .run i env => inferInstanceAs (Decidable (∀ t ∈ Code.top s (.run i env : Step),
      (∀ rec ∈ t.verifies, rec.txid = T → ∀ pr ∈ env.verifyMined rec, V pr)
        ∧ (∀ x ∈ t.internalizes, x = T → ∀ pr ∈ env.beefProof, V pr)
        ∧ ∀ k ∈ t.asks, k.txid = T → (env.getTx k.txid).isAbout k.txid = true))

instance (T : TxID) (s : System) : (l : Step) → Decidable (CompletedStep T s l)
  | .spawn _ => isTrue trivial
  | .run i env => inferInstanceAs (Decidable (∀ t ∈ Code.top s (.run i env : Step), T ∉ t.clears env
      ∧ (t.overrules env T = true → ∀ k ∈ s.shared.db.metadata.knownTxs.rows, k.txid = T →
        k.completed = false)))

def minedProof : Proof := ⟨2, "block", "path", "root"⟩

/-- Every merkle path verifies. -/
def Env.mining : Env := { Env.quiet with verifyMined := fun _ => some minedProof }

/-- A mined transaction pays a user. -/
def minedPaymentSteps : List Step :=
  let env := { Env.quiet with reference := "first", beefProof := some minedProof }
  [.spawn (.internalizeAction 1 ⟨"child", [⟨1, .walletPayment⟩]⟩), .run 0 env, .run 0 env]

/-- A rejection of a stored transaction has been routed when the proof of it arrives. -/
def minedMeanwhileSteps : List Step :=
  paidSteps ++ createSteps ++ [.spawn signed] ++ signSteps 2
    ++ [.spawn (.applyStatusUpdate (childRecord .rejected)), .run 3 Env.quiet,
      .spawn (.applyStatusUpdate (childRecord .mined))] ++ List.replicate 3 (.run 4 Env.mining)

/-- The shared row of a transaction after a run. -/
def childRow (p : Provider) (ls : List Step) : Option (ProvenTxReqStatus × Option Proof) :=
  (((wallet p).runs System.initial ls).shared.db.metadata.knownTxs.get? "child").map fun k =>
    (k.status, k.proof)

theorem completed_proof_lost :
    (wallet (paidProvider .a)).Along (AttestedStep (· = minedProof) "child") System.initial
      (minedPaymentSteps ++ internalizeSteps 1)
    ∧ childRow (paidProvider .a) minedPaymentSteps = some (.completed, some minedProof)
    ∧ childRow (paidProvider .a) (minedPaymentSteps ++ internalizeSteps 1) = some
      (.unconfirmed, none)
    ∧ childRow (paidProvider .a) minedMeanwhileSteps = some (.completed, some minedProof)
    ∧ childRow (paidProvider .a) (minedMeanwhileSteps ++ [.run 3 Env.quiet])
      = some (.suspectFailed, some minedProof) := by
  decide +kernel

/-- Records about the payment that come too late. -/
def lateSteps : List Step := recordSteps 1 .rejected ++ recordSteps 2 .seenOnNetwork

theorem completed_proof_kept_late :
    (∃ k ∈ ((wallet (paidProvider .a)).runs System.initial
      minedPaymentSteps).shared.db.metadata.knownTxs.rows,
      k.txid = "child" ∧ k.status = .completed ∧ k.proof.isSome = true)
    ∧ ∀ k ∈ ((wallet (paidProvider .a)).runs System.initial
      minedPaymentSteps).shared.db.metadata.knownTxs,
      k.txid = "child" → k.status = .completed → k.proof.isSome = true →
      ∃ k' ∈ ((wallet (paidProvider .a)).runs System.initial
          (minedPaymentSteps ++ lateSteps)).shared.db.metadata.knownTxs,
        k'.txid = "child" ∧ k'.status = .completed ∧ ∃ pr, k'.proof = some pr ∧ pr = minedProof :=
  ⟨by decide +kernel,
      completed_proof_kept (paidProvider .a) "child" (· = minedProof) minedPaymentSteps
    lateSteps (by decide +kernel) (by decide +kernel)⟩

end ArcadeToolbox
