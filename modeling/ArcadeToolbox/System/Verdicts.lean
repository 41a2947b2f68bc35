import ArcadeToolbox.System.Fences
import ArcadeToolbox.System.Leads

/-!
# Verdicts of the oracle on fenced transactions

An aborted or stuck transaction should keep its status under whatever the oracle says, short of a
merkle proof that verifies. The SEEN appliers are fenced. A rejection is not: `MarkSuspect` has no
guard, and from `suspectFailed` the next SEEN leads on to `unconfirmed`. The upsert of an
InternalizeAction without a proof leads there at once.

Without these two, no sequence of records and calls moves the status.
-/

namespace ArcadeToolbox

open Txn Storage

/-- The records whose merkle paths a task looks at. -/
def Task.verifies : Task → List TxRecord
  | .mined rec | .repair rec _ => [rec]
  | .batch recs => recs
  | _ => []

/-- The transaction whose BEEF a task looks at. -/
def Task.internalizes : Task → Option TxID
  | .internalize _ args => some args.tx
  | _ => none

/-- The task finds no verified proof for `T`. -/
def Task.Unproved (T : TxID) (env : Env) (t : Task) : Prop :=
  (∀ rec ∈ t.verifies, rec.txid = T → env.verifyMined rec = none)
    ∧ ∀ x ∈ t.internalizes, x = T → env.beefProof = none

def Operation.isVerdict : Operation → Bool
  | .applyStatusUpdate _ | .applyStatusBatch _ | .internalizeAction _ _ => true
  | _ => false

/-- The step starts an oracle record, a batch of them or an InternalizeAction, or runs a task that
finds no verified proof for `T`. -/
def VerdictStep (T : TxID) (s : System) : Step → Prop
  | .spawn op => op.isVerdict = true
  | .run i env => ∀ t ∈ Code.top s (.run i env : Step), t.Unproved T env

/-- The records a task routes by the status of their transaction. -/
def Task.routes : Task → List TxRecord
  | .status rec => [rec]
  | .batch recs => recs
  | _ => []

/-- The transaction an InternalizeAction commits. -/
def Task.credits : Task → Option TxID
  | .internalizeCommit _ plan => some plan.txid
  | _ => none

/-- The task routes no rejection of `T` that the lattice admits, and does not credit `T`. -/
def Task.Unrejected (T : TxID) (m : Metadata) (t : Task) : Prop :=
  (∀ rec ∈ t.routes, rec.txid = T → rec.status.isRejectedClass = true →
    ∀ k ∈ m.knownTxs.rows, k.txid = T → rec.status.canSupersede k.arcadeStatus = false)
    ∧ ∀ x ∈ t.credits, x ≠ T

/-- No rejection of `T` arrives. -/
def UnrejectedStep (T : TxID) (s : System) (l : Step) : Prop :=
  ∀ t ∈ Code.top s l, t.Unrejected T s.shared.db.metadata

/-- What is known of the tasks that wait: none of them commits anything about `T` that moves it. -/
def Task.Spares (T : TxID) : Task → Prop
  | .status _ | .batch _ | .internalize _ _ | .internalizeCommit _ _ | .record _ _ | .seen _
  | .mined _ | .mark => True
  | .minedCommit rec _ | .rejected rec => rec.txid ≠ T
  | .repair rec k => rec.txid = k.txid
  | .repairFind k _ _ | .repairCommit k _ _ _ => k.txid ≠ T
  | .batchCommit plan => (∀ pr ∈ plan.verified, pr.1.txid ≠ T) ∧ ∀ rec ∈ plan.rejected, rec.txid ≠ T
  | _ => False

/-- A transition that leaves a fenced status alone. -/
def LifeOp.Spares : LifeOp → Prop
  | .note _ => True
  | .write w => w.quiet = true ∨ w = .updateStatus .unconfirmed seenAdvanceSkipStatuses
  | _ => False

variable {T : TxID} {t t' : Task}

theorem spares_of_touches {m : Metadata} {o : LifeOp} (hs : t.Spares T) (hu : t.Unrejected T m)
    (h : t.Touches T o) : o.Spares := by
  obtain ⟨op, ⟨_, hw⟩, ho⟩ := h
  cases hw with
  | plain hp =>
    rw [on_of_plain hp ho]
    exact Or.inl rfl
  | saw | verified | repairVerified | batchSaw | batchVerified | internalizeVerified =>
    rw [show o = _ from ho]
    trivial
  | seen | batchSeen =>
    rw [ho.2]
    exact Or.inr rfl
  | seenRecord | minedRecord | record | repairRecord | batchRecord | stamp =>
    rw [ho.2]
    exact Or.inl rfl
  | mined | rejected | repair => exact absurd ho.1 hs
  | batchMined hpr => exact absurd ho.1 (hs.1 _ hpr)
  | batchRejected hrec => exact absurd ho.1 (hs.2 _ hrec)
  | internalize => exact absurd ho.1 (hu.2 _ rfl)
  | adopt => exact ho.elim
  | _ => exact hs.elim

def Life.status (L : Life) : Option ProvenTxReqStatus := L.row.map (·.status)

theorem status_of_spares {st : ProvenTxReqStatus} (hst : st ∈ seenFencedStatuses) {now : Time}
    {A : LifeOp → Prop} (hA : ∀ o, A o → o.Spares) {L L' : Life} (hs : Life.Step T A now L L')
    (h : L.status = some st) : L'.status = some st := by
  obtain ⟨k, hk, rfl⟩ := Option.map_eq_some_iff.mp h
  cases hs with
  | note ha he => exact h
  | write ha _ hg =>
    cases hk
    rcases hA _ ha with hq | rfl
    · rw [Life.status, Option.map_some, KnownWrite.edit_status, KnownWrite.sets_of_quiet hq]
      rfl
    · simp only [KnownWrite.guard, decide_eq_true_eq] at hg
      exact absurd (List.mem_append_right _ hst) hg
  | storeNew ha | store ha | creditNew ha | credit ha => exact (hA _ ha).elim

theorem spares_of_leads {p : Provider} {env : Env} {m m' : Metadata}
    (hl : Leads p env m m' t t') (hs : t.Spares T) (hp : t.Unproved T env) (hu : t.Unrejected T m) :
    t'.Spares T := by
  cases hl with
  | mark | record | seen | mined | fallback | internalizeCommit => trivial
  | repair _ hkt => exact hkt.symm
  | rejected hk hkt hr =>
    intro ht
    obtain ⟨hcls, hsup⟩ := rejectedClass_of_route hr
    rw [hu.1 _ List.mem_cons_self ht hcls _ hk (hkt.trans ht)] at hsup
    cases hsup
  | minedCommit hv =>
    intro ht
    rw [hp.1 _ List.mem_cons_self ht] at hv
    cases hv
  | repairFind hv =>
    intro ht
    rw [hp.1 _ List.mem_cons_self ((show _ = _ from hs).trans ht)] at hv
    cases hv
  | repairCommit => exact hs
  | batchCommit hknown =>
    refine ⟨fun pr hpr ht => ?_, fun rec hrec ht => ?_⟩
    · obtain ⟨hmem, hv⟩ := mem_verified hpr
      rw [hp.1 _ hmem ht] at hv
      cases hv
    · obtain ⟨x, hx, rfl⟩ := List.mem_map.mp hrec
      obtain ⟨hk, hkt, hmem, -, hr⟩ := mem_routed hx
      obtain ⟨hcls, hsup⟩ := rejectedClass_of_route hr
      rw [hu.1 _ hmem ht hcls _ (hknown _ hk) (hkt.trans ht)] at hsup
      cases hsup
  | _ => exact hs.elim

/-- An aborted or stuck transaction keeps its status under records, batches and InternalizeActions
that bring no verified proof, no admitted rejection and no credit of it. -/
theorem fenced_status_kept (p : Provider) (s : System) (T : TxID) (st : ProvenTxReqStatus)
    (hst : st = .aborted ∨ st = .stuck) (hidle : ∀ th ∈ s.threads, th = [])
    (hk : (s.shared.db.metadata.life T).status = some st) (ls : List Step)
    (h : (wallet p).Along (fun s l => VerdictStep T s l ∧ UnrejectedStep T s l) s ls) :
    (((wallet p).runs s ls).shared.db.metadata.life T).status = some st := by
  have hst : st ∈ seenFencedStatuses := by rcases hst with rfl | rfl <;> decide
  refine (Code.runs_waiting (J := fun d : Shared => (d.db.metadata.life T).status = some st)
    (A := fun _ t => t.Spares T) ?_ ?_ ls s h ⟨hk, fun th hth t ht => ?_⟩).1
  · rintro s op ⟨hop, -⟩ - t ht
    cases op with
    | applyStatusUpdate | applyStatusBatch | internalizeAction =>
      cases List.mem_singleton.mp ht
      trivial
    | _ => cases hop
  · rintro s l env t ⟨hv, hu⟩ hr hJ hA
    have hspare := hr.waiting hA
    have hun := hu t hr.top
    have hunp : t.Unproved T env := by
      obtain ⟨i, rest, rfl, hi⟩ := hr
      exact hv t (by simp [Code.top, hi])
    refine ⟨?_, fun t' ht' => spares_of_leads (exec_leads p env t s.shared ht') hspare hunp hun, hA⟩
    exact (exec_life p env t s.shared T).keeps
      (status_of_spares hst fun o ho => spares_of_touches hspare hun ho) hJ
  · rw [hidle th hth] at ht
    cases ht

instance (T : TxID) (s : System) : (l : Step) → Decidable (VerdictStep T s l)
  | .spawn op => inferInstanceAs (Decidable (op.isVerdict = true))
  | .run i env => inferInstanceAs (Decidable (∀ t ∈ Code.top s (.run i env : Step),
      (∀ rec ∈ t.verifies, rec.txid = T → env.verifyMined rec = none)
        ∧ ∀ x ∈ t.internalizes, x = T → env.beefProof = none))

instance (T : TxID) (s : System) (l : Step) : Decidable (UnrejectedStep T s l) :=
  inferInstanceAs (Decidable (∀ t ∈ Code.top s l,
    (∀ rec ∈ t.routes, rec.txid = T → rec.status.isRejectedClass = true →
      ∀ k ∈ s.shared.db.metadata.knownTxs.rows, k.txid = T →
        rec.status.canSupersede k.arcadeStatus = false) ∧ ∀ x ∈ t.credits, x ≠ T))

/-- The wallet after a signed transaction was aborted. -/
def abortedWallet : System :=
  (wallet (paidProvider .a)).runs System.initial (paidSteps ++ createSteps ++ [.spawn signed]
    ++ List.replicate 6 (.run 2 Env.quiet)
    ++ [.spawn (.abortAction 1 "ref"), .run 3 Env.quiet, .run 3 Env.quiet])

def childRecord (st : ArcadeStatus) : TxRecord := ⟨"child", st, 0, "", [], none⟩

/-- A record arrives and is applied. -/
def recordSteps (thread : ℕ) (st : ArcadeStatus) : List Step :=
  [.spawn (.applyStatusUpdate (childRecord st)), .run thread Env.quiet, .run thread Env.quiet]

/-- Another user internalizes the transaction, which has no proof. -/
def internalizeSteps (thread : ℕ) : List Step :=
  let env := { Env.quiet with reference := "received" }
  [.spawn (.internalizeAction 2 ⟨"child", [⟨0, .walletPayment⟩]⟩), .run thread env, .run thread env]

theorem fenced_idle : ∀ th ∈ abortedWallet.threads, th.isEmpty = true := by
  decide +kernel

theorem fenced_status_lost :
    (∀ th ∈ abortedWallet.threads, th.isEmpty = true)
    ∧ (abortedWallet.shared.db.metadata.life "child").status = some .aborted
    ∧ (let rejectedSeen := recordSteps 4 .rejected ++ recordSteps 5 .seenOnNetwork
       (wallet (paidProvider .a)).Along (VerdictStep "child") abortedWallet rejectedSeen
       ∧ (((wallet (paidProvider .a)).runs abortedWallet rejectedSeen).shared.db.metadata.life
           "child").status = some .unconfirmed)
    ∧ (wallet (paidProvider .a)).Along (VerdictStep "child") abortedWallet (internalizeSteps 4)
    ∧ (((wallet (paidProvider .a)).runs abortedWallet (internalizeSteps 4)).shared.db.metadata.life
        "child").status = some .unconfirmed := by
  decide +kernel

/-- A SEEN, and a MINED whose merkle path does not verify. -/
def refusedSteps : List Step := recordSteps 4 .seenOnNetwork ++ recordSteps 5 .mined

theorem fenced_status_kept_refused :
    (wallet (paidProvider .a)).Along (fun s l => VerdictStep "child" s l
      ∧ UnrejectedStep "child" s l)
      abortedWallet refusedSteps
    ∧ (((wallet (paidProvider .a)).runs abortedWallet refusedSteps).shared.db.metadata.life
        "child").status = some .aborted :=
  ⟨by decide +kernel, fenced_status_kept _ abortedWallet "child" .aborted (Or.inl rfl)
    (fun th hth => List.isEmpty_iff.mp (fenced_idle th hth)) (by decide +kernel) refusedSteps
    (by decide +kernel)⟩

end ArcadeToolbox
