import ArcadeToolbox.System.Lattice

/-!
# The two rejected answers

The reconciler releases a transaction that the oracle goes on rejecting when two of its answers are
the configured grace apart. The first answer is stamped on the row; the second is judged by the
stamp that the pass has read, and the gate of the release looks at the status alone. Where the
transaction has left the quarantine and come back in between, the first answer belongs to an earlier
cycle.

What a waiting task knows of the cycle stays true as long as nobody else takes the transaction out
of quarantine.
-/

namespace ArcadeToolbox

open Txn Uow Storage

/-- The settings of the pass in which a task is answered REJECTED about `T`. -/
def Task.answered (T : TxID) (env : Env) : Task → Option Reconcile
  | .suspect cfg k =>
    if k.txid = T ∧ ((env.getTx T).record T).any (fun rec => rec.status = .rejected) then some cfg
    else none
  | _ => none

def answeredBy (T : TxID) (s : System) : Step → Option Reconcile
  | .spawn _ => none
  | .run i env => (Code.top s (.run i env : Step)).bind (·.answered T env)

def Db.suspects (T : TxID) (d : Db) : Bool :=
  d.metadata.knownTxs.any fun k => k.txid = T && k.status = .suspectFailed

section History

variable (p : Provider) (T : TxID) (ls : List Step)

/-- The answer that a step of a run takes. -/
def answerAt (n : ℕ) : Option Reconcile :=
  ls[n]?.bind (answeredBy T ((wallet p).before System.initial ls n))

def timeAt (n : ℕ) : Time := ((wallet p).before System.initial ls n).shared.now

/-- `T` is in quarantine before every step from the `n`-th on. -/
def SuspectFrom (n : ℕ) : Prop :=
  ∀ j < ls.length, n ≤ j → ((wallet p).before System.initial ls j).shared.db.suspects T = true

/-- A REJECTED answer was taken no later than `time`, and `T` has not left the quarantine since. -/
def Answered (time : Time) : Prop :=
  ∃ i < ls.length, (answerAt p T ls i).isSome = true ∧ timeAt p ls i ≤ time ∧ SuspectFrom p T ls i

/-- Two REJECTED answers were taken the grace of the second pass apart, and `T` has not left the
quarantine since the first. -/
def AnsweredTwice : Prop :=
  ∃ i < ls.length, ∃ j < ls.length, i < j ∧ (answerAt p T ls i).isSome = true
    ∧ (∃ cfg ∈ answerAt p T ls j, cfg.grace ≤ timeAt p ls j - timeAt p ls i) ∧ SuspectFrom p T ls i

end History

instance (p : Provider) (T : TxID) (ls : List Step) (n : ℕ) : Decidable (SuspectFrom p T ls n) :=
  inferInstanceAs (Decidable (∀ j < ls.length, _))

instance (p : Provider) (T : TxID) (ls : List Step) : Decidable (AnsweredTwice p T ls) :=
  inferInstanceAs (Decidable (∃ i < ls.length, _))

def Life.isSuspect (L : Life) : Prop := ∃ k, L.row = some k ∧ k.status = .suspectFailed

/-- The row is in quarantine and has been answered for at a time. -/
def Life.stampedAt (L : Life) (time : Time) : Prop :=
  ∃ k, L.row = some k ∧ k.status = .suspectFailed ∧ k.verifiedRejectedAt = some time

/-- The transaction whose quarantine a task of a pass relies on: it was read as suspect, is to be
stamped, or was answered for twice. -/
def Task.pursues : Task → Option TxID
  | .suspect _ k => some k.txid
  | .stamp t => some t
  | .planRefs draft | .planSource draft | .planChange draft =>
    if draft.terminalKnown.1 = .invalidTx then some draft.txid else none
  | .release plan => if plan.terminalKnown.1 = .invalidTx then some plan.txid else none
  | _ => none

/-- The transaction that a task releases as invalid. -/
def Task.releasesInvalid : Task → Option TxID
  | .release plan => if plan.terminalKnown.1 = .invalidTx then some plan.txid else none
  | _ => none

/-- The answers that a task goes back to. -/
def Task.Backed (p : Provider) (T : TxID) (ls : List Step) (now : Time) : Task → Prop
  | .suspect _ k => ∀ time, k.verifiedRejectedAt = some time → Answered p T ls time
  | .stamp _ => Answered p T ls now
  | .planRefs _ | .planSource _ | .planChange _ | .release _ => AnsweredTwice p T ls
  | _ => True

/-- What is known of a task that waits. -/
def Task.InCycle (p : Provider) (T : TxID) (ls : List Step) (d : Shared) (t : Task) : Prop :=
  t.pursues = some T → d.db.suspects T = true ∧ t.Backed p T ls d.now

/-- A stamp on a row in quarantine goes back to an answer of this cycle. -/
def StampBacked (p : Provider) (T : TxID) (ls : List Step) (d : Shared) : Prop :=
  ∀ time, (d.db.metadata.life T).stampedAt time → Answered p T ls time

/-- The transactions that a task may take out of quarantine. -/
def Task.frees : Task → List TxID
  | .acceptCommit t _ _ => [t]
  | .seen rec | .minedCommit rec _ => [rec.txid]
  | .repairCommit k _ _ _ | .leave _ k | .demoteOne k => [k.txid]
  | .batchCommit plan => plan.seen.map (·.txid) ++ plan.verified.map (·.1.txid)
  | .internalizeCommit _ plan => [plan.txid]
  | .release plan => [plan.txid]
  | _ => []

/-- A task that may take `T` out of quarantine runs while no other task relies on it. -/
def CycleStep (T : TxID) (s : System) : Step → Prop
  | .spawn _ => True
  | .run i env => ∀ t ∈ Code.top s (.run i env : Step), T ∈ t.frees →
      ∀ th ∈ Code.others s (.run i env : Step), ∀ t' ∈ th, t'.pursues ≠ some T

variable {p : Provider} {env : Env} {T : TxID} {ls : List Step} {l : Step} {t t' : Task} {n : ℕ}
  {time time' : Time} {d : Db} {cfg : Reconcile} {k : KnownTx}

theorem answerAt_concat (h : n < ls.length) : answerAt p T (ls ++ [l]) n = answerAt p T ls n := by
  unfold answerAt
  rw [List.getElem?_append_left h, Code.before_concat l h.le]

theorem answerAt_length :
    answerAt p T (ls ++ [l]) ls.length = answeredBy T ((wallet p).runs System.initial ls) l := by
  unfold answerAt
  rw [Code.before_concat l (Nat.le_refl _), Code.before_length]
  simp

theorem timeAt_concat (h : n ≤ ls.length) : timeAt p (ls ++ [l]) n = timeAt p ls n := by
  rw [timeAt, Code.before_concat l h, timeAt]

theorem timeAt_length : timeAt p ls ls.length = ((wallet p).runs System.initial ls).shared.now := by
  rw [timeAt, Code.before_length]

section Quarantine

variable (hs : ((wallet p).runs System.initial ls).shared.db.suspects T = true)
include hs

theorem suspectFrom_length : SuspectFrom p T (ls ++ [l]) ls.length := by
  intro j hj hn
  rw [List.length_append, List.length_singleton] at hj
  obtain rfl : j = ls.length := by omega
  rwa [Code.before_concat l (Nat.le_refl _), Code.before_length]

theorem SuspectFrom.concat (h : SuspectFrom p T ls n) : SuspectFrom p T (ls ++ [l]) n := by
  intro j hj hn
  rcases Nat.lt_or_ge j ls.length with hlt | hge
  · rw [Code.before_concat l hlt.le]
    exact h j hlt hn
  · exact suspectFrom_length hs j hj hge

theorem Answered.concat (h : Answered p T ls time) (ht : time ≤ time') :
    Answered p T (ls ++ [l]) time' := by
  obtain ⟨i, hi, ha, hle, hsus⟩ := h
  refine ⟨i, by simp; omega, ?_, ?_, hsus.concat hs⟩
  · rwa [answerAt_concat hi]
  · rw [timeAt_concat hi.le]
    exact hle.trans ht

theorem AnsweredTwice.concat (h : AnsweredTwice p T ls) : AnsweredTwice p T (ls ++ [l]) := by
  obtain ⟨i, hi, j, hj, hij, ha, hb, hsus⟩ := h
  refine ⟨i, by simp; omega, j, by simp; omega, hij, ?_, ?_, hsus.concat hs⟩
  · rwa [answerAt_concat hi]
  · rwa [answerAt_concat hj, timeAt_concat hi.le, timeAt_concat hj.le]

theorem answered_now (h : answeredBy T ((wallet p).runs System.initial ls) l = some cfg)
    (ht : ((wallet p).runs System.initial ls).shared.now ≤ time) :
    Answered p T (ls ++ [l]) time := by
  refine ⟨ls.length, by simp, ?_, ?_, suspectFrom_length hs⟩
  · rw [answerAt_length, h]
    rfl
  · rwa [timeAt_concat (Nat.le_refl _), timeAt_length]

theorem answeredTwice_now (h1 : Answered p T ls time)
    (h2 : answeredBy T ((wallet p).runs System.initial ls) l = some cfg)
    (hg : cfg.grace ≤ ((wallet p).runs System.initial ls).shared.now - time) :
    AnsweredTwice p T (ls ++ [l]) := by
  obtain ⟨i, hi, ha, hle, hsus⟩ := h1
  refine ⟨i, by simp; omega, ls.length, by simp, hi, ?_, ⟨cfg, ?_, ?_⟩, hsus.concat hs⟩
  · rwa [answerAt_concat hi]
  · rw [answerAt_length, h2]
    rfl
  · rw [timeAt_concat (Nat.le_refl _), timeAt_length, timeAt_concat hi.le]
    exact hg.trans (Int.sub_le_sub_left hle _)

end Quarantine

theorem suspects_iff : d.suspects T = true ↔ (d.metadata.life T).isSuspect := by
  unfold Db.suspects Life.isSuspect Metadata.life
  rw [Table.any_eq_true]
  simp only [Bool.and_eq_true, decide_eq_true_eq, Table.get?_eq_some, and_assoc, KnownTx.key_eq]

theorem suspects_of_mem (hk : k ∈ d.metadata.knownTxs) (ht : k.txid = T)
    (hs : k.status = .suspectFailed) : d.suspects T = true :=
  Table.any_eq_true.mpr ⟨k, hk, by simp [ht, hs]⟩

/-- What the others write to a row in quarantine leaves it there. -/
theorem sets_of_touches {w : KnownWrite} (hf : T ∉ t.frees) (h : t.Touches T (.write w))
    (hg : w.guard time k = true) (hk : k.status = .suspectFailed) :
    w.sets.getD k.status = .suspectFailed := by
  obtain ⟨op, ⟨_, hop⟩, ho⟩ := h
  cases hop with
  | plain hp =>
    cases on_of_plain hp ho
    exact hk
  | queue | claim | claimStale | reclaim =>
    obtain ⟨-, ho⟩ := ho
    cases ho
    rw [KnownWrite.guard, hk] at hg
    cases hg
  | fence =>
    obtain ⟨-, ho⟩ := ho
    cases ho
    rw [KnownWrite.guard, hk] at hg
    cases hg
  | accept | seen | mined | repair | stuck | finalize | demote =>
    obtain ⟨rfl, -⟩ := ho
    exact absurd (List.mem_singleton_self _) hf
  | batchSeen =>
    exact absurd (List.mem_append_left _ ho.1) hf
  | batchMined hpr =>
    obtain ⟨rfl, -⟩ := ho
    exact absurd (List.mem_append_right _ (List.mem_map_of_mem hpr)) hf
  | reject | rejectMark | inlineCascade | drainCascade | seenRecord | minedRecord | record
  | rejected | repairRecord | batchRejected | batchRecord | stamp | releaseCascade =>
    obtain ⟨-, ho⟩ := ho
    cases ho
    first | rfl | exact hk
  | accepted | saw | verified | repairVerified | batchSaw | batchVerified | internalizeVerified
  | finalized => cases (show LifeOp.write w = .note _ from ho)
  | store | internalize => cases ho.2
  | _ => exact ho.elim

theorem suspects_exec (hf : T ∉ t.frees) {s : Shared} (h : s.db.suspects T = true) :
    (t.exec p env s).1.db.suspects T = true := by
  rw [suspects_iff] at h ⊢
  refine (exec_life p env t s T).keeps (I := Life.isSuspect) ?_ h
  rintro _ L L' hs ⟨k, hk, hst⟩
  cases hs with
  | note => exact ⟨k, hk, hst⟩
  | write ha _ hg =>
    cases hk
    exact ⟨_, rfl, by rw [KnownWrite.edit_status, sets_of_touches hf ha hg hst]⟩
  | storeNew | creditNew => cases hk
  | store _ _ hno =>
    cases hk
    rw [hst] at hno
    exact absurd (by decide) hno
  | credit ha =>
    obtain ⟨op, ⟨_, hop⟩, ho⟩ := ha
    cases hop with
    | plain hp => cases on_of_plain hp ho
    | internalize =>
      obtain ⟨rfl, -⟩ := ho
      exact absurd (List.mem_singleton_self _) hf
    | accepted | saw | verified | repairVerified | batchSaw | batchVerified | internalizeVerified
    | finalized => cases (show LifeOp.credit _ = .note _ from ho)
    | _ => first | exact ho.elim | cases ho.2

theorem stamped_edit {w : KnownWrite} {now : Time} (hw : w.lawful = true)
    (hs : (w.edit now k).status = .suspectFailed)
    (hv : (w.edit now k).verifiedRejectedAt = some time) :
    k.status = .suspectFailed ∧ k.verifiedRejectedAt = some time
      ∨ w = .stampVerifiedRejected time := by
  cases w with
  | upsert => cases hw
  | updateStatus | transitionSuspect | casFromPreBroadcast | clearProof =>
    cases hs
    cases hw
  | markSuspectFailed | markSuspect => cases hv
  | setProof => cases hs
  | stampVerifiedRejected =>
    cases hv
    exact Or.inr rfl
  | reclaimStaleSend | setArcadeStatus | markPolled => exact Or.inl ⟨hs, hv⟩

theorem stamp_of_touches (h : t.Touches T (.write (.stampVerifiedRejected time))) :
    t = .stamp T := by
  obtain ⟨op, ⟨_, hop⟩, ho⟩ := h
  cases hop with
  | plain hp => cases on_of_plain hp ho
  | stamp =>
    obtain ⟨ht, -⟩ := ho
    rw [List.mem_singleton.mp ht]
  | accepted | saw | verified | repairVerified | batchSaw | batchVerified | internalizeVerified
  | finalized => cases (show LifeOp.write _ = .note _ from ho)
  | _ => first | exact ho.elim | cases ho.2

theorem stampedAt_stamp {s : Shared}
    (h : (((Task.stamp T).exec p env s).1.db.metadata.life T).stampedAt time) :
    (s.db.metadata.life T).stampedAt time ∨ time = s.now := by
  rw [exec_fst] at h
  rcases hr : KnownTxRepo.stampVerifiedRejected T s.now ⟨s.db, s.now, env.beats,
      env.busy⟩ with ⟨r, s'⟩
  have hdb : ((Task.stamp T).run p env ⟨s.db, s.now, env.beats, env.busy⟩).2 = s' := by
    change ((KnownTxRepo.stampVerifiedRejected T s.now >>= fun _ =>
      (pure (Next.go [Task.freezeFind T]) : Work (Next Task)))
        (⟨s.db, s.now, env.beats, env.busy⟩ : Session Db)).2 = s'
    rw [bind_apply, hr]
    cases r <;> rfl
  rw [hdb] at h
  unfold KnownTxRepo.stampVerifiedRejected KnownTxRepo.bulkWrite metaStmt at hr
  rcases stmt_run hr with ⟨-, hw⟩ | ⟨s1, hw, -, rfl⟩
  · left
    rw [hw.db] at h
    exact h
  · have hlife := @life_writeKnown T s1.db.metadata s1.now (.stampVerifiedRejected s.now)
      (fun t => t ∈ [T])
    obtain ⟨k', hk', hst, hv⟩ := h
    change (Metadata.life T (s1.db.metadata.writeKnown _ _ _)).row = some k' at hk'
    rw [hlife, hw.db] at hk'
    obtain ⟨k, hk, rfl⟩ := Option.map_eq_some_iff.mp hk'
    split at hst
    · right
      rw [if_pos ‹_›] at hv
      exact (Option.some.inj hv).symm
    · left
      rw [if_neg ‹_›] at hv
      exact ⟨k, hk, hst, hv⟩

theorem stampedAt_exec {s : Shared} (h : ((t.exec p env s).1.db.metadata.life T).stampedAt time) :
    (s.db.metadata.life T).stampedAt time ∨ t = .stamp T ∧ time = s.now := by
  by_cases hstamp : t = .stamp T
  · subst hstamp
    exact (stampedAt_stamp h).imp id fun ht => ⟨rfl, ht⟩
  · left
    refine (exec_life p env t s T).keeps
      (I := fun L => L.stampedAt time → (s.db.metadata.life T).stampedAt time) ?_ id h
    rintro _ L L' hs hL ⟨k', hk', hst, hv⟩
    cases hs with
    | note => exact hL ⟨k', hk', hst, hv⟩
    | write ha =>
      cases hk'
      rcases stamped_edit ha.lawful hst hv with ⟨hst, hv⟩ | rfl
      · exact hL ⟨_, rfl, hst, hv⟩
      · exact absurd (stamp_of_touches ha) hstamp
    | storeNew | store | creditNew | credit =>
      cases hk'
      cases hv

theorem Task.Backed.concat {now now' : Time}
    (hs : ((wallet p).runs System.initial ls).shared.db.suspects T = true)
    (h : t.Backed p T ls now) (hle : now ≤ now') : t.Backed p T (ls ++ [l]) now' := by
  cases t with
  | suspect => exact fun time ht => (h time ht).concat hs (Int.le_refl _)
  | stamp => exact Answered.concat hs h hle
  | planRefs | planSource | planChange | release => exact AnsweredTwice.concat hs h
  | _ => trivial

/-- A pass goes on with a suspect that was answered REJECTED: it is stamped, or released if the
stamp that was read is old enough. -/
theorem suspect_pushed {s : Shared} (h : t' ∈ ((Task.suspect cfg k).exec p env s).2.pushed)
    (hp : t'.pursues = some T) :
    k.txid = T ∧ (Task.suspect cfg k).answered T env = some cfg ∧ (t' = .stamp T
      ∨ ∃ time draft, k.verifiedRejectedAt = some time ∧ cfg.grace ≤ s.now - time
        ∧ t' = .planRefs draft) := by
  unfold Task.exec at h
  rcases hrun : (Task.suspect cfg k).run p env ⟨s.db, s.now, env.beats, env.busy⟩
      with ⟨e | next, s'⟩ <;>
    rw [hrun] at h
  · cases h
  change runSuspect p env cfg k _ = _ at hrun
  unfold runSuspect at hrun
  rcases hrec : (env.getTx k.txid).record k.txid with _ | rec <;> simp only [hrec] at hrun
  · cases hrun
    cases List.mem_singleton.mp h
    cases hp
  split_ifs at hrun with _ hrej
  · cases hrun
    simp only [Next.pushed, List.mem_cons, List.not_mem_nil, or_false] at h
    rcases h with rfl | rfl <;> cases hp
  · have hans : k.txid = T → (Task.suspect cfg k).answered T env = some cfg := by
      rintro rfl
      simp [Task.answered, hrec, hrej]
    unfold runRejectedSuspect at hrun
    rcases hv : k.verifiedRejectedAt with _ | time <;> simp only [hv] at hrun
    · cases hrun
      cases List.mem_singleton.mp h
      cases hp
      exact ⟨rfl, hans rfl, Or.inl rfl⟩
    · change (if cfg.grace ≤ s.now - time then _ else _ : Work (Next Task)) _ = _ at hrun
      split_ifs at hrun with hg
      · cases hrun
        cases List.mem_singleton.mp h
        cases hp
      · cases hrun
        cases List.mem_singleton.mp h
        have hkT : k.txid = T := Option.some.inj hp
        exact ⟨hkT, hans hkT, Or.inr ⟨time, _, rfl, hg, rfl⟩⟩
      · cases hrun
        cases List.mem_singleton.mp h
        cases hp
  · cases hrun
    cases List.mem_singleton.mp h
    cases hp
  · cases hrun
    cases List.mem_singleton.mp h
    cases hp

section Step

variable (hr : Code.Runs ((wallet p).runs System.initial ls) l env t)
include hr

theorem inCycle_pushed (hJ : StampBacked p T ls ((wallet p).runs System.initial ls).shared)
    (hA : t.InCycle p T ls ((wallet p).runs System.initial ls).shared)
    (h : t' ∈ (t.exec p env ((wallet p).runs System.initial ls).shared).2.pushed) :
    t'.InCycle p T (ls ++ [l]) (t.exec p env ((wallet p).runs System.initial ls).shared).1 := by
  intro hp
  have hl := exec_leads p env t ((wallet p).runs System.initial ls).shared h
  have hle := (exec_writes p env t ((wallet p).runs System.initial ls).shared).le
  cases hl with
  | suspect hk hst =>
    cases hp
    have hs := suspects_of_mem hk rfl hst
    refine ⟨suspects_exec (by simp [Task.frees]) hs, fun time ht => ?_⟩
    exact (hJ time ⟨_, life_row_of_mem hk rfl, hst, ht⟩).concat hs (Int.le_refl _)
  | @stamp cfg k | @suspectPlan cfg k st =>
    obtain ⟨hkT, hans, hcase⟩ := suspect_pushed h hp
    obtain ⟨hs, hback⟩ := hA (congrArg some hkT)
    have hby : answeredBy T ((wallet p).runs System.initial ls) l = some cfg := by
      have htop := hr.top
      obtain ⟨i, rest, rfl, -⟩ := hr
      simp only [answeredBy, htop, Option.bind_some, hans]
    refine ⟨suspects_exec (by simp [Task.frees]) hs, ?_⟩
    first
    | exact answered_now hs hby hle
    | rcases hcase with hcase | ⟨time, draft, hv, hg, -⟩
      · cases hcase
      · exact answeredTwice_now hs (hback time hv) hby hg
  | planRefs | planSource | planChange =>
    obtain ⟨hs, hback⟩ := hA hp
    exact ⟨suspects_exec (by simp [Task.frees]) hs, AnsweredTwice.concat hs hback⟩
  | release htx hterm =>
    simp only [Task.pursues, htx, hterm] at hp
    obtain ⟨hs, hback⟩ := hA hp
    exact ⟨suspects_exec (by simp [Task.frees]) hs, AnsweredTwice.concat hs hback⟩
  | conflictPlan => cases hp
  | _ => cases hp

theorem stampBacked_exec (hJ : StampBacked p T ls ((wallet p).runs System.initial ls).shared)
    (hA : t.InCycle p T ls ((wallet p).runs System.initial ls).shared) :
    StampBacked p T (ls ++ [l]) (t.exec p env ((wallet p).runs System.initial ls).shared).1 := by
  intro time ht
  rcases stampedAt_exec ht with ht | ⟨rfl, rfl⟩
  · obtain ⟨k, hk, hst, -⟩ := id ht
    exact (hJ time ht).concat (suspects_iff.mpr ⟨k, hk, hst⟩) (Int.le_refl _)
  · obtain ⟨hs, hback⟩ := hA rfl
    exact Answered.concat hs hback (Int.le_refl _)

theorem inCycle_others (hok : CycleStep T ((wallet p).runs System.initial ls) l)
    (hA : Code.Waiting (Task.InCycle p T ls) ((wallet p).runs System.initial ls)) :
    ∀ th ∈ Code.others ((wallet p).runs System.initial ls) l, ∀ t' ∈ th,
      t'.InCycle p T (ls ++ [l]) (t.exec p env ((wallet p).runs System.initial ls).shared).1 := by
  intro th hth t' ht' hp
  obtain ⟨hs, hback⟩ := hA.others l th hth t' ht' hp
  have hle := (exec_writes p env t ((wallet p).runs System.initial ls).shared).le
  have hfree : T ∉ t.frees := by
    intro hf
    have htop := hr.top
    obtain ⟨i, rest, rfl, -⟩ := hr
    exact hok t htop hf th hth t' ht' hp
  exact ⟨suspects_exec hfree hs, hback.concat hs hle⟩

end Step

theorem pursues_start (op : Operation) : ∀ t ∈ op.start, t.pursues = none := by
  intro t ht
  cases op with
  | checkProofs =>
    simp only [Operation.start, List.mem_cons, List.not_mem_nil, or_false] at ht
    rcases ht with rfl | rfl | rfl <;> rfl
  | _ =>
    cases List.mem_singleton.mp ht
    rfl

theorem inCycle_runs (p : Provider) (T : TxID) (ls : List Step)
    (h : (wallet p).Along (CycleStep T) System.initial ls) :
    StampBacked p T ls ((wallet p).runs System.initial ls).shared
    ∧ Code.Waiting (Task.InCycle p T ls) ((wallet p).runs System.initial ls) := by
  refine Code.runs_recorded (J := StampBacked p T) (A := Task.InCycle p T) ?_ ?_ ?_ ?_ ⟨?_, ?_⟩ ls h
  · rintro ls l hJ time ⟨k, hk, hst, hv⟩
    exact (hJ time ⟨k, hk, hst, hv⟩).concat (suspects_iff.mpr ⟨k, hk, hst⟩) (Int.le_refl _)
  · intro ls l t hA hp
    obtain ⟨hs, hback⟩ := hA hp
    exact ⟨hs, hback.concat hs (Int.le_refl _)⟩
  · intro ls op _ _ t ht hp
    rw [pursues_start op t ht] at hp
    cases hp
  · intro ls l env t hok hr hJ hA
    have ht := hr.waiting hA
    exact ⟨stampBacked_exec hr hJ ht, fun t' => inCycle_pushed hr hJ ht, inCycle_others hr hok hA⟩
  · rintro time ⟨k, hk, -⟩
    cases hk
  · intro th hth
    cases hth

/-- However passes of the reconciler run together with each other and with everything else, a
transaction that a pass releases as invalid was answered REJECTED twice, the grace of the pass
apart, and has not left the quarantine since the first answer, if it is taken out of quarantine only
while no other pass relies on it. -/
theorem release_answered_twice (p : Provider) (T : TxID) (ls : List Step) (l : Step)
    (h : (wallet p).Along (CycleStep T) System.initial ls)
    (hrel : (Code.top ((wallet p).runs System.initial ls) l).bind Task.releasesInvalid = some T) :
    AnsweredTwice p T ls ∧ ((wallet p).runs System.initial ls).shared.db.suspects T = true := by
  obtain ⟨t, htop, hrel⟩ := Option.bind_eq_some_iff.mp hrel
  obtain ⟨env, hr⟩ := Code.runs_of_top htop
  have hA := hr.waiting (inCycle_runs p T ls h).2
  cases t with
  | release plan =>
    obtain ⟨hs, hback⟩ := hA hrel
    exact ⟨hback, hs⟩
  | _ => cases hrel

instance (T : TxID) (s : System) : ∀ l : Step, Decidable (CycleStep T s l)
  | .spawn _ => isTrue trivial
  | .run i env => inferInstanceAs (Decidable (∀ t ∈ Code.top s (.run i env : Step), _))

def parentRecord (st : ArcadeStatus) : TxRecord := ⟨"parent", st, 0, "", [], none⟩

def parentStatus (p : Provider) (ls : List Step) : Option ProvenTxReqStatus :=
  (((wallet p).runs System.initial ls).shared.db.metadata.life "parent").row.map (·.status)

/-- A pass with a grace of ten, ten later than what was before. -/
def gracePassSteps (thread n : ℕ) : List Step :=
  .spawn (.verifyAndReleaseSuspects 10 1000 10) ::
    .run thread { Env.rejecting "parent" with beats := [⟨10, false⟩] } ::
    List.replicate n (.run thread (Env.rejecting "parent"))

/-- The payment is reported as rejected, and a first pass stamps it. -/
def stampedParentSteps : List Step :=
  unprovenPaidSteps
    ++ [.spawn (.applyStatusUpdate (parentRecord .rejected)), .run 1 Env.quiet, .run 1 Env.quiet]
    ++ gracePassSteps 2 5

/-- A second pass has read the stamp when the payment is reported as seen, and as rejected again. -/
def recoveredParentSteps : List Step :=
  stampedParentSteps ++ gracePassSteps 3 0
    ++ [.spawn (.applyStatusUpdate (parentRecord .seenOnNetwork)), .run 4 Env.quiet,
        .run 4 Env.quiet]

def secondCycleSteps : List Step :=
  recoveredParentSteps
    ++ [.spawn (.applyStatusUpdate (parentRecord .rejected)), .run 5 Env.quiet, .run 5 Env.quiet]
    ++ List.replicate 4 (.run 3 (Env.rejecting "parent"))

theorem release_across_cycles :
    parentStatus (paidProvider .b) recoveredParentSteps = some .unconfirmed
    ∧ (Code.top ((wallet (paidProvider .b)).runs System.initial secondCycleSteps)
        (.run 3 Env.quiet : Step)).bind Task.releasesInvalid = some "parent"
    ∧ parentStatus (paidProvider .b) (secondCycleSteps ++ [.run 3 Env.quiet]) = some .invalidTx
    ∧ ¬ AnsweredTwice (paidProvider .b) "parent" secondCycleSteps := by
  decide +kernel

theorem release_answered_twice_in_cycle :
    AnsweredTwice (paidProvider .b) "parent" (stampedParentSteps ++ gracePassSteps 3 4)
    ∧ ((wallet (paidProvider .b)).runs System.initial
      (stampedParentSteps ++ gracePassSteps 3 4)).shared.db.suspects "parent" = true :=
  release_answered_twice (paidProvider .b) "parent" (stampedParentSteps ++ gracePassSteps 3 4)
    (.run 3 Env.quiet) (by decide +kernel) (by decide +kernel)

end ArcadeToolbox
