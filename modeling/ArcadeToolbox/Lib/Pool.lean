import Mathlib.Data.List.Induction
import Mathlib.Data.Nat.Notation

/-!
# Interleaved operations

Operations run concurrently over a shared state. An operation is a stack of tasks; a task is one
atomic action, and what it pushes is what the operation does next. It may fail, which unwinds the
stack to the next task that handles failures, and it may fork new threads. A step of the pool starts
an operation or runs the top task of one thread. A thread that is never picked again has crashed, so
every run with crashes is among these runs.
-/

namespace Txn

/-- What is shared, and the tasks of each thread. -/
structure Pool (σ τ : Type*) where
  shared : σ
  threads : List (List τ)

/-- What a task leaves to be done. -/
inductive Next (τ : Type*) where
  | fail
  | go (ts : List τ)
  | fork (threads : List (List τ))

/-- The tasks that are new. -/
def Next.pushed {τ : Type*} : Next τ → List τ
  | .fail => []
  | .go ts => ts
  | .fork threads => threads.flatten

def Next.forked {τ : Type*} : Next τ → List (List τ)
  | .fork threads => threads
  | _ => []

def Next.map {τ τ' : Type*} (f : τ → τ') : Next τ → Next τ'
  | .fail => .fail
  | .go ts => .go (ts.map f)
  | .fork threads => .fork (threads.map (List.map f))

/-- What operations of type `ι` start as, and what a task does under an answer of type `ω`. -/
structure Code (σ τ ω ι : Type*) where
  start : ι → List τ
  exec : ω → τ → σ → σ × Next τ
  handles : τ → Bool

/-- A thread starts, or goes on. -/
inductive Label (ι ω : Type*) where
  | spawn (op : ι)
  | run (i : ℕ) (env : ω)

namespace Code

variable {σ τ ω ι : Type*} (c : Code σ τ ω ι)

/-- What is left of a thread when its top task has run. -/
def resume (next : Next τ) (rest : List τ) : List τ :=
  match next with
  | .go ts => ts ++ rest
  | .fork _ => rest
  | .fail => rest.dropWhile fun t => !c.handles t

/-- What a step of the pool does. -/
def step (s : Pool σ τ) : Label ι ω → Pool σ τ
  | .spawn op => { s with threads := s.threads ++ [c.start op] }
  | .run i env =>
    match s.threads[i]? with
    | some (t :: rest) =>
      ⟨(c.exec env t s.shared).1,
       s.threads.set i (c.resume (c.exec env t s.shared).2 rest)
           ++ (c.exec env t s.shared).2.forked⟩
    | _ => s

def runs (s : Pool σ τ) (ls : List (Label ι ω)) : Pool σ τ := ls.foldl c.step s

/-- Every step of the run is allowed in the state it is taken in. -/
def Along (ok : Pool σ τ → Label ι ω → Prop) : Pool σ τ → List (Label ι ω) → Prop
  | _, [] => True
  | s, l :: ls => ok s l ∧ Along ok (c.step s l) ls

instance decidableAlong (ok : Pool σ τ → Label ι ω → Prop) [∀ s l, Decidable (ok s l)] :
    ∀ (s : Pool σ τ) (ls : List (Label ι ω)), Decidable (c.Along ok s ls)
  | _, [] => isTrue trivial
  | s, l :: ls => @instDecidableAnd _ _ _ (decidableAlong ok (c.step s l) ls)

variable {c} {ok : Pool σ τ → Label ι ω → Prop}

/-- What every allowed step preserves holds after every allowed run. -/
theorem runs_invariant {I : Pool σ τ → Prop} (h : ∀ s l, ok s l → I s → I (c.step s l)) :
    ∀ (ls : List (Label ι ω)) (s : Pool σ τ), c.Along ok s ls → I s → I (c.runs s ls)
  | [], _, _, hs => hs
  | l :: ls, s, ha, hs => runs_invariant h ls (c.step s l) ha.2 (h s l ha.1 hs)

/-- The task a label runs, if it runs one. -/
def Runs (s : Pool σ τ) (l : Label ι ω) (env : ω) (t : τ) : Prop :=
  ∃ i rest, l = .run i env ∧ s.threads[i]? = some (t :: rest)

/-- The same as a function. -/
def top (s : Pool σ τ) : Label ι ω → Option τ
  | .spawn _ => none
  | .run i _ => s.threads[i]?.bind List.head?

variable {s : Pool σ τ} {l : Label ι ω} {t : τ}

theorem Runs.top {env : ω} (h : Runs s l env t) :
    top s l = some t := by
  obtain ⟨i, rest, rfl, hi⟩ := h
  simp [Code.top, hi]

theorem runs_of_top (h : Code.top s l = some t) :
    ∃ env, Runs s l env t := by
  rcases l with op | ⟨i, env⟩
  · cases h
  · rcases hi : s.threads[i]? with _ | _ | ⟨t', rest⟩ <;> simp [Code.top, hi] at h
    subst h
    exact ⟨env, i, rest, rfl, hi⟩

theorem mem_resume {next : Next τ} {rest : List τ} (h : t ∈ c.resume next rest) :
    t ∈ next.pushed ∨ t ∈ rest := by
  rcases next with _ | ts | ths
  · exact Or.inr ((List.dropWhile_suffix _).subset h)
  · exact List.mem_append.mp h
  · exact Or.inr h

theorem mem_forked {next : Next τ} {th : List τ} (hth : th ∈ next.forked) (h : t ∈ th) :
    t ∈ next.pushed := by
  rcases next with _ | ts | ths
  · cases hth
  · cases hth
  · exact List.mem_flatten.mpr ⟨th, hth, h⟩

/-- A step starts an operation, runs one task, or does nothing. -/
theorem step_cases (s : Pool σ τ) (l : Label ι ω) :
    (∃ op, l = .spawn op ∧ c.step s l = { s with threads := s.threads ++ [c.start op] })
    ∨ (∃ i env t rest, l = .run i env ∧ s.threads[i]? = some (t :: rest)
        ∧ c.step s l = ⟨(c.exec env t s.shared).1,
          s.threads.set i (c.resume (c.exec env t s.shared).2 rest)
            ++ (c.exec env t s.shared).2.forked⟩)
    ∨ c.step s l = s := by
  rcases l with op | ⟨i, env⟩
  · exact Or.inl ⟨op, rfl, rfl⟩
  · rcases hi : s.threads[i]? with _ | _ | ⟨t, rest⟩
    · exact Or.inr (Or.inr (by simp [step, hi]))
    · exact Or.inr (Or.inr (by simp [step, hi]))
    · exact Or.inr (Or.inl ⟨i, env, t, rest, rfl, hi, by simp [step, hi]⟩)

theorem Runs.step_shared {env : ω} (h : Runs s l env t) :
    (c.step s l).shared = (c.exec env t s.shared).1 := by
  obtain ⟨i, rest, rfl, hi⟩ := h
  simp [step, hi]

/-- An invariant of the shared state that every allowed task keeps is kept by every allowed
step. -/
theorem shared_step {J : σ → Prop}
    (h : ∀ s l env t, ok s l → Runs s l env t → J s.shared → J (c.exec env t s.shared).1)
    (s : Pool σ τ) (l : Label ι ω) (hok : ok s l) (hs : J s.shared) : J (c.step s l).shared := by
  rcases step_cases (c := c) s l with ⟨op, -, he⟩ | ⟨i, env, t, rest, rfl, hi, he⟩ | he
  · rw [he]
    exact hs
  · rw [he]
    exact h s _ env t hok ⟨i, rest, rfl, hi⟩ hs
  · rwa [he]

theorem along_true : ∀ (ls : List (Label ι ω)) (s : Pool σ τ), c.Along (fun _ _ => True) s ls
  | [], _ => trivial
  | _ :: ls, _ => ⟨trivial, along_true ls _⟩

theorem runs_shared {J : σ → Prop} (h : ∀ env t d, J d → J (c.exec env t d).1)
    (ls : List (Label ι ω)) (s : Pool σ τ) (hs : J s.shared) : J (c.runs s ls).shared :=
  runs_invariant (I := fun s => J s.shared) (shared_step fun _ _ _ _ _ _ => h _ _ _) ls s
    (along_true ls s) hs

/-- Every task waiting in the pool meets `A` in the shared state. -/
def Waiting (A : σ → τ → Prop) (s : Pool σ τ) : Prop := ∀ th ∈ s.threads, ∀ t ∈ th, A s.shared t

theorem Runs.waiting {A : σ → τ → Prop} {env : ω}
    (h : Runs s l env t) (hA : Waiting A s) : A s.shared t := by
  obtain ⟨i, rest, -, hi⟩ := h
  exact hA _ (List.mem_of_getElem? hi) t List.mem_cons_self

/-- The threads without the task a label runs. -/
def others (s : Pool σ τ) : Label ι ω → List (List τ)
  | .spawn _ => s.threads
  | .run i _ => s.threads.modify i List.tail

theorem mem_others {th : List τ} (hth : th ∈ others s l)
    (ht : t ∈ th) : ∃ th' ∈ s.threads, t ∈ th' := by
  rcases l with op | ⟨i, env⟩
  · exact ⟨th, hth, ht⟩
  · obtain ⟨j, hj⟩ := List.mem_iff_getElem?.mp hth
    rw [others, List.getElem?_modify] at hj
    obtain ⟨th', hth', rfl⟩ := Option.map_eq_some_iff.mp hj
    refine ⟨th', List.mem_of_getElem? hth', ?_⟩
    split at ht
    · exact List.mem_of_mem_tail ht
    · exact ht

theorem Waiting.others {A : σ → τ → Prop} (hA : Waiting A s) (l : Label ι ω) :
    ∀ th ∈ others s l, ∀ t ∈ th, A s.shared t := by
  intro th hth t ht
  obtain ⟨th', hth', ht'⟩ := mem_others hth ht
  exact hA th' hth' t ht'

/-- A thread after a task has run is what is left of that thread, or one of the others. -/
theorem mem_set_others {i : ℕ} {env : ω} {x th : List τ} (h : th ∈ s.threads.set i x) :
    th = x ∨ th ∈ others s (.run i env : Label ι ω) := by
  obtain ⟨j, hj⟩ := List.mem_iff_getElem?.mp h
  rcases eq_or_ne i j with rfl | hij
  · left
    rw [List.getElem?_set] at hj
    simp only [if_true] at hj
    split at hj
    · exact (Option.some.inj hj).symm
    · cases hj
  · right
    rw [List.getElem?_set_ne hij] at hj
    refine List.mem_iff_getElem?.mpr ⟨j, ?_⟩
    rw [others, List.getElem?_modify, hj]
    simp [hij]

theorem tail_mem_others {i : ℕ} {env : ω} {rest : List τ}
    (h : s.threads[i]? = some (t :: rest)) : rest ∈ others s (.run i env : Label ι ω) := by
  refine List.mem_iff_getElem?.mpr ⟨i, ?_⟩
  rw [others, List.getElem?_modify, h]
  simp

/-- A step takes an invariant of the shared state and what is known of the waiting tasks to another
pair: a task may use what is known of it and of the others, and has to give it for what it pushes
and keep it for the others. -/
theorem waiting_step {J J' : σ → Prop} {A A' : σ → τ → Prop}
    (hJ : J s.shared) (hA : Waiting A s) (hidle : J s.shared → J' s.shared)
    (hwait : ∀ t, A s.shared t → A' s.shared t)
    (hstart : ∀ op, l = .spawn op → ∀ t ∈ c.start op, A' s.shared t)
    (hrun : ∀ env t, Runs s l env t → J' (c.exec env t s.shared).1
      ∧ (∀ t' ∈ (c.exec env t s.shared).2.pushed, A' (c.exec env t s.shared).1 t')
      ∧ ∀ th ∈ others s l, ∀ t' ∈ th, A' (c.exec env t s.shared).1 t') :
    J' (c.step s l).shared ∧ Waiting A' (c.step s l) := by
  have hA' : Waiting A' s := fun th hth t ht => hwait t (hA th hth t ht)
  rcases step_cases (c := c) s l with ⟨op, rfl, he⟩ | ⟨i, env, t, rest, rfl, hi, he⟩ | he
  · rw [he]
    refine ⟨hidle hJ, fun th hth t ht => ?_⟩
    rcases List.mem_append.mp hth with hth | hth
    · exact hA' th hth t ht
    · rw [List.mem_singleton.mp hth] at ht
      exact hstart op rfl t ht
  · obtain ⟨h1, h2, h3⟩ := hrun env t ⟨i, rest, rfl, hi⟩
    rw [he]
    refine ⟨h1, fun th hth t' ht' => ?_⟩
    rcases List.mem_append.mp hth with hth | hth
    · rcases mem_set_others hth with rfl | hth
      · rcases mem_resume ht' with ht' | ht'
        · exact h2 t' ht'
        · exact h3 _ (tail_mem_others hi) t' ht'
      · exact h3 th hth t' ht'
    · exact h2 t' (mem_forked hth ht')
  · rw [he]
    exact ⟨hidle hJ, hA'⟩

/-- What every allowed step preserves of the shared state and the waiting tasks holds after every
allowed run. -/
theorem runs_waiting {J : σ → Prop} {A : σ → τ → Prop}
    (hstart : ∀ s op, ok s (.spawn op) → J s.shared → ∀ t ∈ c.start op, A s.shared t)
    (h : ∀ s l env t, ok s l → Runs s l env t → J s.shared → Waiting A s →
      J (c.exec env t s.shared).1
        ∧ (∀ t' ∈ (c.exec env t s.shared).2.pushed, A (c.exec env t s.shared).1 t')
        ∧ ∀ th ∈ s.threads, ∀ t' ∈ th, A (c.exec env t s.shared).1 t')
    (ls : List (Label ι ω)) (s : Pool σ τ) (ha : c.Along ok s ls) (hs : J s.shared ∧ Waiting A s) :
    J (c.runs s ls).shared ∧ Waiting A (c.runs s ls) :=
  runs_invariant (I := fun s => J s.shared ∧ Waiting A s) (fun s l hok hs =>
    waiting_step hs.1 hs.2 id (fun _ => id) (fun op hl => hstart s op (hl ▸ hok) hs.1)
      fun env t hr => by
        obtain ⟨h1, h2, h3⟩ := h s l env t hok hr hs.1 hs.2
        refine ⟨h1, h2, fun th hth t' ht' => ?_⟩
        obtain ⟨th', hth', ht'⟩ := mem_others hth ht'
        exact h3 th' hth' t' ht') ls s ha hs

theorem runs_append (s : Pool σ τ) (ls ls' : List (Label ι ω)) :
    c.runs s (ls ++ ls') = c.runs (c.runs s ls) ls' :=
  List.foldl_append

theorem runs_concat (s : Pool σ τ) (ls : List (Label ι ω)) (l : Label ι ω) :
    c.runs s (ls ++ [l]) = c.step (c.runs s ls) l :=
  runs_append s ls [l]

theorem along_concat : ∀ {ls : List (Label ι ω)} {s : Pool σ τ},
    c.Along ok s (ls ++ [l]) ↔ c.Along ok s ls ∧ ok (c.runs s ls) l
  | [], _ => ⟨fun h => ⟨trivial, h.1⟩, fun h => ⟨h.2, trivial⟩⟩
  | l' :: ls, s => by
    have ih : c.Along ok (c.step s l') (ls ++ [l])
        ↔ c.Along ok (c.step s l') ls ∧ ok (c.runs (c.step s l') ls) l := along_concat
    rw [List.cons_append, Along, ih, ← and_assoc]
    rfl

variable {s₀ : Pool σ τ}

/-- The same for what speaks of the past of the run as well, and goes on to hold when nothing
happens. -/
theorem runs_recorded {J : List (Label ι ω) → σ → Prop} {A : List (Label ι ω) → σ → τ → Prop}
    (hidle : ∀ ls l, J ls (c.runs s₀ ls).shared → J (ls ++ [l]) (c.runs s₀ ls).shared)
    (hwait : ∀ ls l t, A ls (c.runs s₀ ls).shared t → A (ls ++ [l]) (c.runs s₀ ls).shared t)
    (hstart : ∀ ls op, ok (c.runs s₀ ls) (.spawn op) → J ls (c.runs s₀ ls).shared →
      ∀ t ∈ c.start op, A (ls ++ [.spawn op]) (c.runs s₀ ls).shared t)
    (h : ∀ ls l env t, ok (c.runs s₀ ls) l → Runs (c.runs s₀ ls) l env t →
      J ls (c.runs s₀ ls).shared → Waiting (A ls) (c.runs s₀ ls) →
      J (ls ++ [l]) (c.exec env t (c.runs s₀ ls).shared).1
        ∧ (∀ t' ∈ (c.exec env t (c.runs s₀ ls).shared).2.pushed,
          A (ls ++ [l]) (c.exec env t (c.runs s₀ ls).shared).1 t')
        ∧ ∀ th ∈ others (c.runs s₀ ls) l, ∀ t' ∈ th,
          A (ls ++ [l]) (c.exec env t (c.runs s₀ ls).shared).1 t')
    (h0 : J [] s₀.shared ∧ Waiting (A []) s₀) (ls : List (Label ι ω)) (ha : c.Along ok s₀ ls) :
    J ls (c.runs s₀ ls).shared ∧ Waiting (A ls) (c.runs s₀ ls) := by
  induction ls using List.reverseRecOn with
  | nil => exact h0
  | append_singleton ls l ih =>
    obtain ⟨ha, hok⟩ := along_concat.mp ha
    obtain ⟨hJ, hA⟩ := ih ha
    rw [runs_concat]
    refine waiting_step hJ hA (hidle ls l) (hwait ls l) (fun op hl => ?_) fun env t hr =>
      h ls l env t hok hr hJ hA
    subst hl
    exact hstart ls op hok hJ

/-- The state in which a step of the run is taken. -/
def before (c : Code σ τ ω ι) (s₀ : Pool σ τ) (ls : List (Label ι ω)) (n : ℕ) : Pool σ τ :=
  c.runs s₀ (ls.take n)

variable {ls : List (Label ι ω)}

theorem before_concat {n : ℕ} (l : Label ι ω)
    (h : n ≤ ls.length) : c.before s₀ (ls ++ [l]) n = c.before s₀ ls n := by
  rw [before, List.take_append_of_le_length h, before]

theorem before_length (s₀ : Pool σ τ) (ls : List (Label ι ω)) :
    c.before s₀ ls ls.length = c.runs s₀ ls := by
  rw [before, List.take_length]

/-- Something held at some point of the run. -/
def Once (c : Code σ τ ω ι) (s₀ : Pool σ τ) (Q : σ → Prop) (ls : List (Label ι ω)) : Prop :=
  ∃ n, Q (c.runs s₀ (ls.take n)).shared

theorem Once.concat {Q : σ → Prop} (l : Label ι ω)
    (h : c.Once s₀ Q ls) : c.Once s₀ Q (ls ++ [l]) := by
  obtain ⟨n, hn⟩ := h
  refine ⟨min n ls.length, ?_⟩
  rw [List.take_append_of_le_length (Nat.min_le_right _ _), ← List.take_take]
  simpa using hn

theorem Once.now {Q : σ → Prop}
    (h : Q (c.runs s₀ ls).shared) : c.Once s₀ Q ls :=
  ⟨ls.length, by rwa [List.take_length]⟩

end Code

end Txn
