import ArcadeToolbox.Utxostore.Types
import Mathlib.Algebra.Order.Group.Int
import Mathlib.Logic.Function.Basic

/-!
# Monitor leases

A process takes the lease of a job with two statements. The first ensures that the job has a row;
the second takes the row if it is the process's own or has expired. The clock is read before the
first. The statements of other calls may run in between, so what a call has read of the clock may be
old.
-/

namespace ArcadeToolbox.Metastore

/-- A row of `monitor_job_locks`. -/
structure LeaseRow where
  owner : String
  leaseUntil : Time
  deriving DecidableEq

/-- The next statement of a call, with the clock as the call has read it. -/
inductive LeaseStmt where
  | ensureRow (job owner : String) (leaseUntil now : Time)
  | claim (job owner : String) (leaseUntil now : Time)
  | release (job owner : String) (now : Time)

def LeaseStmt.now : LeaseStmt → Time
  | .ensureRow _ _ _ now | .claim _ _ _ now | .release _ _ now => now

/-- An owner acquired a lease until some time, or released it. -/
structure LeaseEntry where
  time : Time
  job : String
  owner : String
  leaseUntil : Option Time
  deriving DecidableEq

/-- The table, the calls that are under way, and what was done so far, the latest first. -/
structure Leases where
  locks : String → Option LeaseRow
  clock : Time
  calls : ℕ → Option LeaseStmt
  log : List LeaseEntry

namespace Leases

def ensureRow (locks : String → Option LeaseRow) (job owner : String) (leaseUntil : Time) :
    String → Option LeaseRow :=
  Function.update locks job ((locks job).or (some ⟨owner, leaseUntil⟩))

/-- The condition of the update that decides. -/
def claims (locks : String → Option LeaseRow) (job owner : String) (now : Time) : Bool :=
  (locks job).any fun row => row.owner = owner || row.leaseUntil < now

def release (locks : String → Option LeaseRow) (job owner : String) (now : Time) :
    String → Option LeaseRow :=
  Function.update locks job
    ((locks job).map fun row => if row.owner = owner then { row with leaseUntil := now } else row)

/-- A call is made or goes on, or time passes. -/
inductive Step where
  /-- `AcquireLease` and `ReleaseLease` are called, and read the clock -/
  | acquireLease (i : ℕ) (job owner : String) (ttl : Time)
  | releaseLease (i : ℕ) (job owner : String)
  /-- the next statement of a call -/
  | exec (i : ℕ)
  | wait (d : ℕ)

/-- Statement by statement. -/
def run (s : Leases) (i : ℕ) : LeaseStmt → Leases
  | .ensureRow job owner leaseUntil now =>
    { s with locks := ensureRow s.locks job owner leaseUntil
             calls := Function.update s.calls i (some (.claim job owner leaseUntil now)) }
  | .claim job owner leaseUntil now =>
    if claims s.locks job owner now then
      { s with locks := Function.update s.locks job (some ⟨owner, leaseUntil⟩)
               calls := Function.update s.calls i none
               log := ⟨s.clock, job, owner, some leaseUntil⟩ :: s.log }
    else { s with calls := Function.update s.calls i none }
  | .release job owner now =>
    { s with locks := release s.locks job owner now
             calls := Function.update s.calls i none
             log := ⟨s.clock, job, owner, none⟩ :: s.log }

/-- What a step leaves. -/
def step (s : Leases) : Step → Leases
  | .acquireLease i job owner ttl =>
    { s with calls := Function.update s.calls i
               (some (.ensureRow job owner (s.clock + ttl) s.clock)) }
  | .releaseLease i job owner =>
    { s with calls := Function.update s.calls i (some (.release job owner s.clock)) }
  | .exec i => (s.calls i).elim s (s.run i)
  | .wait d => { s with clock := s.clock + d }

def initial (locks : String → Option LeaseRow) (clock : Time) : Leases :=
  ⟨locks, clock, fun _ => none, []⟩

/-- The owner of the lease has touched it once more: released it, or acquired it again. -/
def touches (a e : LeaseEntry) : Bool := e.job = a.job && e.owner = a.owner

def releases (a e : LeaseEntry) : Bool := touches a e && e.leaseUntil.isNone

/-- When a lease ends that was acquired until then: at the first of the later entries that ends it,
if not before. -/
def heldUntil (ends : LeaseEntry → Bool) (leaseUntil : Time) : List LeaseEntry → Time
  | [] => leaseUntil
  | e :: es =>
    if ends e then min e.time (heldUntil ends leaseUntil es) else heldUntil ends leaseUntil es

/-- The log agrees with the table. -/
structure Inv (s : Leases) : Prop where
  past : ∀ i st, s.calls i = some st → st.now ≤ s.clock
  times : ∀ e ∈ s.log, e.time ≤ s.clock
  /-- A lease that nobody has touched and that has not expired is in the table. -/
  kept : ∀ later a earlier t, s.log = later ++ a :: earlier → a.leaseUntil = some t →
    (∃ e ∈ later, touches a e = true) ∨ t < s.clock ∨ s.locks a.job = some ⟨a.owner, t⟩
  apart : ∀ later b mid a earlier t u, s.log = later ++ b :: (mid ++ a :: earlier) →
      a.leaseUntil = some t →
    b.leaseUntil = some u → a.job = b.job → a.owner ≠ b.owner →
    (∃ e ∈ mid, touches a e = true ∧ e.time ≤ b.time) ∨ t < b.time

variable {s : Leases}

theorem inv_initial (locks : String → Option LeaseRow) (clock : Time) :
    Inv (initial locks clock) where
  past _ _ h := by cases h
  times _ h := by cases h
  kept later _ _ _ h := by simp [initial] at h
  apart later _ _ _ _ _ _ h := by simp [initial] at h

/-- A step that logs nothing: the leases in the table stay there. -/
theorem Inv.quiet {s' : Leases} (h : Inv s) (hlog : s'.log = s.log) (hclock : s.clock ≤ s'.clock)
    (hcalls : ∀ i st, s'.calls i = some st → st.now ≤ s'.clock)
    (hlocks : ∀ job row, s.locks job = some row → s'.locks job = some row) : Inv s' where
  past := hcalls
  times e he := (h.times e (hlog ▸ he)).trans hclock
  kept later a earlier t hl ht :=
    (h.kept later a earlier t (hlog ▸ hl) ht).imp_right (Or.imp (·.trans_le hclock) (hlocks _ _))
  apart := hlog ▸ h.apart

/-- A step that logs an entry. It acquires a lease that is its owner's or has expired, or releases
one. -/
theorem Inv.entered {s' : Leases} {e : LeaseEntry} (h : Inv s) (hlog : s'.log = e :: s.log)
    (htime : e.time = s.clock)
    (hclock : s'.clock = s.clock) (hcalls : ∀ i st, s'.calls i = some st → st.now ≤ s'.clock)
    (hacq : ∀ u, e.leaseUntil = some u → s'.locks e.job = some ⟨e.owner, u⟩)
    (hlocks : ∀ job row, s.locks job = some row →
      s'.locks job = some row ∨ job = e.job ∧ (row.owner = e.owner ∨ row.leaseUntil < s.clock)) :
        Inv s' where
  past := hcalls
  times := by
    rw [hlog, hclock]
    exact List.forall_mem_cons.mpr ⟨htime.le, h.times⟩
  kept later a earlier t hl ht := by
    rw [hlog] at hl
    rcases later with _ | ⟨e', later⟩
    · obtain ⟨rfl, -⟩ := List.cons.inj hl
      exact .inr (.inr (hacq t ht))
    · obtain ⟨rfl, htail⟩ := List.cons.inj hl
      rw [hclock]
      rcases h.kept later a earlier t htail ht with ⟨e', he', htouch⟩ | hexp | hrow
      · exact .inl ⟨e', List.mem_cons_of_mem e he', htouch⟩
      · exact .inr (.inl hexp)
      · rcases hlocks _ _ hrow with hrow | ⟨hjob, hown | hexp⟩
        · exact .inr (.inr hrow)
        · exact .inl ⟨e, List.mem_cons_self, by
            simp [touches, hjob, show a.owner = e.owner from hown]⟩
        · exact .inr (.inl hexp)
  apart later b mid a earlier t u hl ht hu hjob hown := by
    rw [hlog] at hl
    rcases later with _ | ⟨e', later⟩
    · -- the later of the two is the new one: it met the row of the other, or that was touched or
      -- expired before
      obtain ⟨rfl, htail⟩ := List.cons.inj hl
      rw [htime]
      rcases h.kept mid a earlier t htail ht with ⟨e', he', htouch⟩ | hexp | hrow
      · exact .inl ⟨e', he', htouch, h.times e' (htail ▸ List.mem_append_left _ he')⟩
      · exact .inr hexp
      · rcases hlocks _ _ hrow with hrow | ⟨-, hown' | hexp⟩
        · rw [hjob, hacq u hu] at hrow
          exact absurd (congrArg LeaseRow.owner (Option.some.inj hrow)).symm hown
        · exact absurd hown' hown
        · exact .inr hexp
    · exact h.apart later b mid a earlier t u (List.cons.inj hl).2 ht hu hjob hown

theorem update_now {calls : ℕ → Option LeaseStmt} {clock : Time} {i : ℕ} {next : Option LeaseStmt}
    (h : ∀ i st, calls i = some st → st.now ≤ clock) (hnext : ∀ st ∈ next, st.now ≤ clock) (j : ℕ)
    (st : LeaseStmt)
    (hj : Function.update calls i next j = some st) : st.now ≤ clock := by
  rw [Function.update_apply] at hj
  split_ifs at hj
  · exact hnext st hj
  · exact h j st hj

theorem Inv.run (h : Inv s) (i : ℕ) {st : LeaseStmt} (hst : st.now ≤ s.clock) :
    Inv (s.run i st) := by
  cases st with
  | ensureRow job owner leaseUntil now =>
    refine h.quiet rfl le_rfl (update_now h.past fun st he => by cases he; exact hst)
        fun job' row hrow => ?_
    simp only [Leases.run, ensureRow, Function.update_apply]
    split_ifs with he
    · simp [← he, hrow]
    · exact hrow
  | claim job owner leaseUntil now =>
    have hcalls : ∀ j st, Function.update s.calls i none j = some st → st.now ≤ s.clock :=
      update_now h.past fun st he => by cases he
    simp only [Leases.run]
    split_ifs with hc
    · refine h.entered rfl rfl rfl hcalls (fun u hu => ?_) fun job' row hrow => ?_
      · cases hu
        exact Function.update_self ..
      · dsimp only
        rw [Function.update_apply]
        split_ifs with he
        · refine .inr ⟨he, ?_⟩
          rw [he] at hrow
          simp only [claims, hrow, Option.any_some, Bool.or_eq_true, decide_eq_true_eq] at hc
          exact hc.imp_right (·.trans_le hst)
        · exact .inl hrow
    · exact h.quiet rfl le_rfl hcalls fun _ _ hrow => hrow
  | release job owner now =>
    refine h.entered rfl rfl rfl (update_now h.past fun st he => by
        cases he) (fun u hu => by cases hu)
      fun job' row hrow => ?_
    simp only [Leases.run, Leases.release, Function.update_apply]
    split_ifs with he
    · rw [he] at hrow
      by_cases hown : row.owner = owner
      · exact .inr ⟨he, .inl hown⟩
      · exact .inl (by simp [hrow, hown])
    · exact .inl hrow

theorem Inv.step (h : Inv s) (st : Step) : Inv (s.step st) := by
  cases st with
  | acquireLease i job owner ttl =>
    exact h.quiet rfl le_rfl (update_now h.past fun st he => by cases he; exact le_rfl)
        fun _ _ hrow => hrow
  | releaseLease i job owner =>
    exact h.quiet rfl le_rfl (update_now h.past fun st he => by cases he; exact le_rfl)
        fun _ _ hrow => hrow
  | exec i =>
    rcases hi : s.calls i with _ | st
    · simpa [Leases.step, hi] using h
    · simpa [Leases.step, hi] using h.run i (h.past i st hi)
  | wait d =>
    have hle : s.clock ≤ s.clock + d := le_add_of_nonneg_right (Int.natCast_nonneg d)
    exact h.quiet rfl hle (fun i st hi => (h.past i st hi).trans hle) fun _ _ hrow => hrow

theorem inv_run (h : Inv s) (steps : List Step) : Inv (steps.foldl Leases.step s) := by
  induction steps generalizing s with
  | nil => exact h
  | cons st steps ih => exact ih (h.step st)

theorem heldUntil_le {ends : LeaseEntry → Bool} {leaseUntil : Time} {es : List LeaseEntry}
    {e : LeaseEntry}
    (he : e ∈ es) (hends : ends e = true) : heldUntil ends leaseUntil es ≤ e.time := by
  induction es with
  | nil => cases he
  | cons e' es ih =>
    unfold heldUntil
    rcases List.mem_cons.mp he with rfl | he
    · simp [hends]
    · split_ifs
      · exact (min_le_right ..).trans (ih he)
      · exact ih he

theorem heldUntil_le_leaseUntil (ends : LeaseEntry → Bool) (leaseUntil : Time)
    (es : List LeaseEntry) :
    heldUntil ends leaseUntil es ≤ leaseUntil := by
  induction es with
  | nil => exact le_rfl
  | cons e es ih =>
    unfold heldUntil
    split_ifs
    · exact (min_le_right ..).trans ih
    · exact ih

/-- A lease has ended, expired or touched by its owner, before another owner has it. -/
theorem leases_apart (locks : String → Option LeaseRow) (clock : Time) (steps : List Step)
    (later mid earlier : List LeaseEntry) (a b : LeaseEntry) (t u : Time)
    (hlog : (steps.foldl step (initial locks clock)).log = later ++ b :: (mid ++ a :: earlier))
    (ht : a.leaseUntil = some t) (hu : b.leaseUntil = some u) (hjob : a.job = b.job)
    (hown : a.owner ≠ b.owner) :
    heldUntil (touches a) t (later ++ b :: mid) ≤ b.time := by
  rcases (inv_run (inv_initial locks clock) steps).apart later b mid a earlier t u hlog ht hu
      hjob hown with
    ⟨e, he, htouch, hle⟩ | hexp
  · exact (heldUntil_le (List.mem_append_right later (List.mem_cons_of_mem b he)) htouch).trans hle
  · exact (heldUntil_le_leaseUntil ..).trans hexp.le

/-- The first owner renews for a shorter time, and the second acquires the lease after that. -/
def renewedShorter : List Step :=
  [.acquireLease 0 "sync" "a" 100, .exec 0, .exec 0, .wait 5, .acquireLease 0 "sync" "a" 10,
      .exec 0, .exec 0, .wait 15,
    .acquireLease 1 "sync" "b" 10, .exec 1, .exec 1]

theorem leases_apart_renewed :
    (renewedShorter.foldl step (initial (fun _ => none) 0)).log
        = [] ++ ⟨20, "sync", "b", some 30⟩ :: ([⟨5, "sync", "a", some 15⟩] ++ ⟨0, "sync", "a",
          some 100⟩ :: []) ∧
      heldUntil (touches ⟨0, "sync", "a", some 100⟩) 100
        ([] ++ ⟨20, "sync", "b", some 30⟩ :: [⟨5, "sync", "a", some 15⟩])
        ≤ 20 :=
  ⟨by decide, leases_apart (fun _ => none) 0 renewedShorter [] [⟨5, "sync", "a", some 15⟩] []
    ⟨0, "sync", "a", some 100⟩ ⟨20, "sync", "b", some 30⟩ 100 30 (by decide) rfl rfl
        rfl (by decide)⟩

/-- Up to its expiry or release the first lease would last until `100`, and the other owner has it
from `20` on. -/
theorem leases_overlap :
    (renewedShorter.foldl step (initial (fun _ => none) 0)).log
        = [⟨20, "sync", "b", some 30⟩, ⟨5, "sync", "a", some 15⟩, ⟨0, "sync", "a", some 100⟩] ∧
      heldUntil (releases ⟨0, "sync", "a", some 100⟩) 100
        [⟨20, "sync", "b", some 30⟩, ⟨5, "sync", "a", some 15⟩] = 100 ∧
      heldUntil (releases ⟨20, "sync", "b", some 30⟩) 30 [] = 30 := by
  decide

end Leases

end ArcadeToolbox.Metastore
