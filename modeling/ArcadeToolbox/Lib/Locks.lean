import Mathlib.Data.List.Basic
import Mathlib.Logic.Function.Basic
import Mathlib.Logic.Relation
import Mathlib.Order.Defs.PartialOrder

/-!
# Row locks

A transaction takes exclusive locks on rows, one at a time, and gives all of them back when it ends.
A statement may go on without the lock of a row that is not to be updated after all. A row may stand
behind another one, which every transaction that asks for it has locked before; then nobody waits
for it. If every transaction takes its other rows by ascending rank, the rows that a chain of
waiting transactions wait for rise, so no chain closes.
-/

namespace Txn

/-- A row, and whether it is locked for sure. -/
structure LockRequest (ρ : Type*) where
  row : ρ
  /-- the row is locked whatever the statement finds -/
  sure : Bool
  deriving DecidableEq, Repr

/-- A transaction on its way. -/
structure Locking (ρ : Type*) where
  held : List ρ
  todo : List (LockRequest ρ)

namespace Locking

variable {ι ρ κ : Type*}

/-- One transaction locks its next row, finds nothing to lock, or ends. -/
inductive Step [DecidableEq ι] (s : ι → Locking ρ) : (ι → Locking ρ) → Prop
  | lock (i : ι) (q : LockRequest ρ) (rest : List (LockRequest ρ)) (next : (s i).todo = q :: rest)
      (free : ∀ j, j ≠ i → q.row ∉ (s j).held) : Step s
          (Function.update s i ⟨q.row :: (s i).held, rest⟩)
  | skip (i : ι) (q : LockRequest ρ) (rest : List (LockRequest ρ)) (next : (s i).todo = q :: rest)
      (unsure : q.sure = false) : Step s (Function.update s i ⟨(s i).held, rest⟩)
  /-- a commit or a rollback -/
  | finish (i : ι) : Step s (Function.update s i ⟨[], []⟩)

/-- Every transaction is before its first row. -/
def start (plan : ι → List (LockRequest ρ)) : ι → Locking ρ := fun i => ⟨[], plan i⟩

/-- What the transactions can come to. -/
def Reachable [DecidableEq ι] (plan : ι → List (LockRequest ρ)) : (ι → Locking ρ) → Prop :=
  Relation.ReflTransGen Step (start plan)

/-- The next row of one transaction is held by another. -/
def Waits (s : ι → Locking ρ) (i j : ι) : Prop :=
  i ≠ j ∧ ∃ q rest, (s i).todo = q :: rest ∧ q.row ∈ (s j).held

/-- Some transactions wait for each other in a cycle. -/
def Deadlocked (s : ι → Locking ρ) : Prop := ∃ i, Relation.TransGen (Waits s) i i

section Ranked

variable [Preorder κ] (rank : ρ → κ) (Behind : ρ → ρ → Prop)

/-- The row stands behind another one, which is always locked before it. -/
def Gated (x : ρ) : Prop := ∃ g, Behind x g

/-- Different rows come in the order of the rank. -/
def Rises (x y : ρ) : Prop := x ≠ y → rank x < rank y

/-- After the rows `asked` have been asked for and `sure` of them are locked, the requests ask for
rows behind rows that are locked, or for rows that are locked already or rank above all that were
asked for. -/
def AlongFrom (sure asked : List ρ) : List (LockRequest ρ) → Prop
  | [] => True
  | q :: rest => (∀ g, Behind q.row g → g ∈ sure)
    ∧ (¬ Gated Behind q.row → q.row ∈ sure ∨ ∀ x ∈ asked, ¬ Gated Behind x → Rises rank x q.row)
    ∧ AlongFrom (if q.sure then q.row :: sure else sure) (q.row :: asked) rest

/-- The requests follow the rank from the start. -/
def Along (plan : List (LockRequest ρ)) : Prop := AlongFrom rank Behind [] [] plan

/-- What a transaction holds is accounted for by the requests it has behind it. -/
def Ranked (l : Locking ρ) : Prop :=
  ∃ sure asked, (∀ x ∈ sure, x ∈ l.held) ∧ (∀ x ∈ l.held, x ∈ asked)
    ∧ (∀ x ∈ l.held, ∀ g, Behind x g → g ∈ l.held) ∧ AlongFrom rank Behind sure asked l.todo

variable {rank Behind}

theorem AlongFrom.mono : ∀ {plan : List (LockRequest ρ)} {sure asked sure' asked' : List ρ},
    AlongFrom rank Behind sure asked plan → (∀ x ∈ sure, x ∈ sure') →
    (∀ x ∈ asked', x ∈ asked ∨ (¬ Gated Behind x → ∀ q ∈ plan, ¬ Gated Behind q.row →
      Rises rank x q.row)) →
    AlongFrom rank Behind sure' asked' plan
  | [], _, _, _, _, _, _, _ => trivial
  | q :: plan, sure, asked, sure', asked', ⟨hgate, hrow, hrest⟩, hsure, hasked => by
    refine ⟨fun g hg => hsure g (hgate g hg), fun hq =>
        (hrow hq).imp (hsure _) fun hrises x hx hxg => ?_,
      hrest.mono (fun x hx => ?_) fun x hx => ?_⟩
    · exact (hasked x hx).elim (fun hx => hrises x hx hxg) fun h => h hxg q List.mem_cons_self hq
    · by_cases hb : q.sure = true
      · rw [if_pos hb] at hx ⊢
        exact List.mem_cons.mpr ((List.mem_cons.mp hx).imp id (hsure x))
      · rw [if_neg hb] at hx ⊢
        exact hsure x hx
    · rcases List.mem_cons.mp hx with rfl | hx
      · exact Or.inl List.mem_cons_self
      · exact (hasked x hx).imp (List.mem_cons_of_mem _) fun h hxg q' hq' =>
          h hxg q' (List.mem_cons_of_mem _ hq')

/-- A second list of requests, all for rows above those of the first. -/
theorem AlongFrom.append {next : List (LockRequest ρ)} (hnext : Along rank Behind next) :
    ∀ {plan : List (LockRequest ρ)} {sure asked : List ρ}, AlongFrom rank Behind sure asked plan →
    (∀ x ∈ asked ++ plan.map (·.row), ¬ Gated Behind x → ∀ q ∈ next, ¬ Gated Behind q.row →
      Rises rank x q.row) →
    AlongFrom rank Behind sure asked (plan ++ next)
  | [], _, _, _, hrises =>
    hnext.mono (fun _ hx => absurd hx List.not_mem_nil) fun x hx =>
        Or.inr (hrises x (by simpa using hx))
  | q :: plan, sure, asked, ⟨hgate, hrow, hrest⟩, hrises => by
    refine ⟨hgate, hrow, hrest.append hnext fun x hx => hrises x ?_⟩
    simp only [List.map_cons, List.mem_append, List.mem_cons] at hx ⊢
    tauto

/-- Rows that are locked for sure may be asked for again, and rows behind them at any time. -/
theorem AlongFrom.again {next : List (LockRequest ρ)} :
    ∀ {plan : List (LockRequest ρ)} {sure asked : List ρ},
    AlongFrom rank Behind sure asked plan →
    (∀ q ∈ next, ∀ x, (Behind q.row x ∨ ¬ Gated Behind q.row ∧ q.row = x) →
      x ∈ sure ∨ ∃ q' ∈ plan, q'.sure = true ∧ q'.row = x) →
    AlongFrom rank Behind sure asked (plan ++ next)
  | q :: plan, sure, asked, ⟨hgate, hrow, hrest⟩, hnext => by
    refine ⟨hgate, hrow, hrest.again fun q' hq' x hx => ?_⟩
    have := hnext q' hq' x hx
    cases hb : q.sure <;> grind
  | [], sure, asked, _, hnext => by
    induction next generalizing sure asked with
    | nil => trivial
    | cons q next ih =>
      have hsure : ∀ q' ∈ q :: next, ∀ x, (Behind q'.row x ∨ ¬ Gated Behind q'.row ∧ q'.row = x) →
          x ∈ sure :=
        fun q' hq' x hx => (hnext q' hq' x hx).resolve_right (by simp)
      refine ⟨fun g hg => hsure q List.mem_cons_self g (Or.inl hg),
        fun hq => Or.inl (hsure q List.mem_cons_self _ (Or.inr ⟨hq, rfl⟩)),
            ih _ _ trivial fun q' hq' x hx => Or.inl ?_⟩
      have := hsure q' (List.mem_cons_of_mem _ hq') x hx
      split
      · exact List.mem_cons_of_mem _ this
      · exact this

/-- Rows by ascending rank, none of them behind another. -/
theorem along_of_rises {plan : List (LockRequest ρ)} (hfree : ∀ q ∈ plan, ¬ Gated Behind q.row)
    (hrises : (plan.map (·.row)).Pairwise (Rises rank)) : Along rank Behind plan := by
  suffices ∀ sure asked, (∀ x ∈ asked, ∀ q ∈ plan, Rises rank x q.row) →
      AlongFrom rank Behind sure asked plan from
    this [] [] (by simp)
  induction plan with
  | nil => exact fun _ _ _ => trivial
  | cons q plan ih =>
    intro sure asked hbehind
    obtain ⟨hq, hrises⟩ := List.pairwise_cons.mp hrises
    refine ⟨fun g hg => absurd ⟨g, hg⟩ (hfree q List.mem_cons_self),
      fun _ => Or.inr fun x hx _ => hbehind x hx q List.mem_cons_self,
      ih (fun q' hq' => hfree q' (List.mem_cons_of_mem _ hq')) hrises _ _ fun x hx q' hq' => ?_⟩
    rcases List.mem_cons.mp hx with rfl | hx
    · exact hq _ (List.mem_map_of_mem hq')
    · exact hbehind x hx q' (List.mem_cons_of_mem _ hq')

theorem Ranked.lock {l : Locking ρ} {q : LockRequest ρ} {rest : List (LockRequest ρ)}
    (h : Ranked rank Behind l)
    (hq : l.todo = q :: rest) : Ranked rank Behind ⟨q.row :: l.held, rest⟩ := by
  obtain ⟨sure, asked, hsure, hheld, hgates, halong⟩ := h
  rw [hq] at halong
  obtain ⟨hgate, -, hrest⟩ := halong
  refine ⟨_, _, fun x hx => ?_, fun x hx => ?_, fun x hx g hg => List.mem_cons_of_mem _ ?_, hrest⟩
  · split at hx
    · exact List.mem_cons.mpr ((List.mem_cons.mp hx).imp id (hsure x))
    · exact List.mem_cons_of_mem _ (hsure x hx)
  · exact List.mem_cons.mpr ((List.mem_cons.mp hx).imp id (hheld x))
  · rcases List.mem_cons.mp hx with rfl | hx
    · exact hsure g (hgate g hg)
    · exact hgates x hx g hg

theorem Ranked.skip {l : Locking ρ} {q : LockRequest ρ} {rest : List (LockRequest ρ)}
    (h : Ranked rank Behind l)
    (hq : l.todo = q :: rest) (hb : q.sure = false) : Ranked rank Behind ⟨l.held, rest⟩ := by
  obtain ⟨sure, asked, hsure, hheld, hgates, halong⟩ := h
  rw [hq] at halong
  obtain ⟨-, -, hrest⟩ := halong
  rw [hb] at hrest
  exact ⟨sure, _, hsure, fun x hx => List.mem_cons_of_mem _ (hheld x hx), hgates, hrest⟩

end Ranked

/-- No row is held twice, and every transaction is within its requests. -/
structure Orderly [Preorder κ] (rank : ρ → κ) (Behind : ρ → ρ → Prop)
    (s : ι → Locking ρ) : Prop where
  exclusive : ∀ i j x, i ≠ j → x ∈ (s i).held → x ∉ (s j).held
  ranked : ∀ i, Ranked rank Behind (s i)

section Orderly

variable [Preorder κ] {rank : ρ → κ} {Behind : ρ → ρ → Prop} {s s' : ι → Locking ρ}

variable {plan : ι → List (LockRequest ρ)}

theorem orderly_start (h : ∀ i, Along rank Behind (plan i)) :
    Orderly rank Behind (start plan) :=
  ⟨fun _ _ _ _ hx => absurd hx List.not_mem_nil,
    fun i => ⟨[], [], fun _ hx => hx, fun _ hx => hx, fun _ hx => absurd hx List.not_mem_nil, h i⟩⟩

/-- A row is not waited for if it stands behind another: both transactions would hold that one. -/
theorem Orderly.not_gated (h : Orderly rank Behind s) {i j : ι} {q : LockRequest ρ}
    {rest : List (LockRequest ρ)}
    (hne : i ≠ j) (hq : (s i).todo = q :: rest) (hj : q.row ∈ (s j).held) :
    ¬ Gated Behind q.row := by
  rintro ⟨g, hg⟩
  obtain ⟨sure, asked, hsure, -, -, halong⟩ := h.ranked i
  obtain ⟨-, -, -, -, hgates, -⟩ := h.ranked j
  rw [hq] at halong
  exact h.exclusive i j g hne (hsure g (halong.1 g hg)) (hgates _ hj g hg)

/-- A waiting transaction wants a row above all it holds that others may wait for. -/
theorem Orderly.above (h : Orderly rank Behind s) {i j : ι} {q : LockRequest ρ}
    {rest : List (LockRequest ρ)}
    (hne : i ≠ j) (hq : (s i).todo = q :: rest) (hj : q.row ∈ (s j).held) :
    ∀ x ∈ (s i).held, ¬ Gated Behind x → rank x < rank q.row := by
  have hopen := h.not_gated hne hq hj
  obtain ⟨sure, asked, hsure, hheld, -, halong⟩ := h.ranked i
  have hnot : q.row ∉ (s i).held := h.exclusive j i q.row hne.symm hj
  rw [hq] at halong
  intro x hx hfree
  refine (halong.2.1 hopen).resolve_left (fun hin => hnot (hsure _ hin)) x (hheld x hx) hfree ?_
  rintro rfl
  exact hnot hx

theorem Orderly.chain (h : Orderly rank Behind s) {i j k : ι} {q q' : LockRequest ρ}
    {rest rest' : List (LockRequest ρ)} (hij : Relation.TransGen (Waits s) i j)
    (hi : (s i).todo = q :: rest) (hj : (s j).todo = q' :: rest') (hjk : j ≠ k)
    (hk : q'.row ∈ (s k).held) : rank q.row < rank q'.row := by
  induction hij generalizing k q' rest' with
  | single hw =>
    obtain ⟨hne, q1, rest1, hq1, hheld⟩ := hw
    rw [hi] at hq1
    cases hq1
    exact h.above hjk hj hk _ hheld (h.not_gated hne hi hheld)
  | tail _ hw ih =>
    obtain ⟨hne, q1, rest1, hq1, hheld⟩ := hw
    exact lt_trans (ih hq1 hne hheld) (h.above hjk hj hk _ hheld (h.not_gated hne hq1 hheld))

variable [DecidableEq ι]

theorem Orderly.update (h : Orderly rank Behind s) {i : ι} {l : Locking ρ}
    (hl : Ranked rank Behind l)
    (hheld : ∀ x ∈ l.held, x ∈ (s i).held ∨ ∀ j, j ≠ i → x ∉ (s j).held) :
    Orderly rank Behind (Function.update s i l) := by
  have hfree : ∀ {x j}, j ≠ i → x ∈ l.held → x ∉ (s j).held := fun {x j} hj hx => by
    rcases hheld x hx with hx | hx
    · exact h.exclusive i j x hj.symm hx
    · exact hx j hj
  constructor
  · intro j k x hne hx hx'
    by_cases hj : j = i
    · subst hj
      rw [Function.update_self] at hx
      rw [Function.update_of_ne hne.symm] at hx'
      exact hfree hne.symm hx hx'
    · rw [Function.update_of_ne hj] at hx
      by_cases hk : k = i
      · subst hk
        rw [Function.update_self] at hx'
        exact hfree hj hx' hx
      · rw [Function.update_of_ne hk] at hx'
        exact h.exclusive j k x hne hx hx'
  · intro j
    by_cases hj : j = i
    · subst hj
      rw [Function.update_self]
      exact hl
    · rw [Function.update_of_ne hj]
      exact h.ranked j

theorem Orderly.step (h : Orderly rank Behind s) (hstep : Step s s') : Orderly rank Behind s' := by
  cases hstep with
  | lock i q rest next free =>
    refine h.update ((h.ranked i).lock next) fun x hx => ?_
    rcases List.mem_cons.mp hx with rfl | hx
    · exact Or.inr free
    · exact Or.inl hx
  | skip i q rest next unsure =>
    exact h.update ((h.ranked i).skip next unsure) fun x hx => Or.inl hx
  | finish i =>
    have hdone : Ranked rank Behind ⟨[], []⟩ :=
      ⟨[], [], fun _ hx => hx, fun _ hx => hx, fun _ hx => absurd hx List.not_mem_nil, trivial⟩
    exact h.update hdone fun x hx => absurd hx List.not_mem_nil

theorem Orderly.reachable (h : ∀ i, Along rank Behind (plan i))
    (hs : Reachable plan s) : Orderly rank Behind s := by
  induction hs with
  | refl => exact orderly_start h
  | tail _ hstep ih => exact ih.step hstep

theorem not_deadlocked (h : ∀ i, Along rank Behind (plan i))
    (hs : Reachable plan s) : ¬ Deadlocked s := by
  have hord := Orderly.reachable h hs
  rintro ⟨i, hcycle⟩
  obtain ⟨k, hw, -⟩ := Relation.TransGen.head'_iff.mp hcycle
  obtain ⟨hne, q, rest, hq, hheld⟩ := hw
  exact lt_irrefl _ (hord.chain hcycle hq hq hne hheld)

end Orderly

end Locking

end Txn
