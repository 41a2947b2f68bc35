import Mathlib.Data.Int.Notation
import Mathlib.Data.Nat.Notation
import Mathlib.Order.Defs.Unbundled

/-!
# Units of work over a shared store

A unit of work is a sequence of statements against a store of type `σ`. Every statement takes a beat
of the environment: the clock moves on, and the statement may fail. A unit that ends in an error is
rolled back by a function of the store before and after it, which need not undo everything.

`Moves R x` says that `x` moves the session along a preorder `R`, however it ends: frames,
invariants and traces are such preorders.
-/

namespace Txn

/-- What the environment does to one statement. -/
structure Beat where
  advance : ℕ
  fault : Bool

/-- The state, the clock and the beats to come. -/
structure Session (σ : Type*) where
  db : σ
  now : ℤ
  beats : List Beat
  /-- which of the optimistic calls to come are told to try again -/
  busy : List Bool

/-- A unit of work: it reads and writes the session and returns a value or an error. -/
abbrev Uow (ε : Type) (σ : Type) := ExceptT ε (StateM (Session σ))

namespace Uow

variable {ε σ α β : Type}

/-- One statement's beat: without one the clock stands still and the statement succeeds. -/
def beat (e : ε) : Uow ε σ Unit := fun s =>
  match s.beats with
  | [] => (.ok (), s)
  | b :: bs =>
    let s' := { s with now := s.now + b.advance, beats := bs }
    if b.fault then (.error e, s') else (.ok (), s')

/-- A statement that runs `f` on the clock and the store. -/
def stmt (e : ε) (f : ℤ → σ → Except ε α × σ) : Uow ε σ α := do
  beat e
  fun s => ((f s.now s.db).1, { s with db := (f s.now s.db).2 })

/-- A statement that only reads. -/
def query (e : ε) (f : σ → α) : Uow ε σ α := stmt e fun _ d => (.ok (f d), d)

/-- Run `x` as a whole: what it did before an error is undone as far as `rollback` undoes it. -/
def atomically (rollback : σ → σ → σ) (x : Uow ε σ α) : Uow ε σ α := fun s =>
  match x s with
  | (.ok a, s') => (.ok a, s')
  | (.error e, s') => (.error e, { s' with db := rollback s.db s'.db })

/-- Run `x` and hand its error to the caller as a value. -/
def attempt (x : Uow ε σ α) : Uow ε σ (Except ε α) := fun s => (.ok (x s).1, (x s).2)

theorem pure_apply (a : α) (s : Session σ) : (pure a : Uow ε σ α) s = (.ok a, s) := rfl

theorem bind_apply (x : Uow ε σ α) (f : α → Uow ε σ β) (s : Session σ) :
    (x >>= f) s = match x s with
      | (.ok a, s') => f a s'
      | (.error e, s') => (.error e, s') := by
  change ExceptT.bindCont f (x s).1 (x s).2 = _
  rcases x s with ⟨_ | a, s'⟩ <;> rfl

variable {x : Uow ε σ α} {s s' : Session σ}

theorem bind_ok {f : α → Uow ε σ β} {b : β}
    (h : (x >>= f) s = (.ok b, s')) : ∃ a s1, x s = (.ok a, s1) ∧ f a s1 = (.ok b, s') := by
  rw [bind_apply] at h
  rcases hx : x s with ⟨e | a, s1⟩ <;> rw [hx] at h
  · cases h
  · exact ⟨a, s1, rfl, h⟩

theorem bind_of_ok {f : α → Uow ε σ β} {s s1 : Session σ} {a : α}
    {r : Except ε β × Session σ} (hx : x s = (.ok a, s1)) (hf : f a s1 = r) : (x >>= f) s = r := by
  rw [bind_apply, hx]
  exact hf

theorem attempt_ok {r : Except ε α}
    (h : attempt x s = (.ok r, s')) : x s = (r, s') := by
  obtain ⟨h1, h2⟩ := Prod.mk.inj h
  exact Prod.ext (Except.ok.inj h1) h2

/-- With no beats left, nothing fails and the clock stands still. -/
theorem stmt_calm (e : ε) (f : ℤ → σ → Except ε α × σ) (d : σ) (t : ℤ) :
    stmt e f ⟨d, t, [], []⟩ = ((f t d).1, ⟨(f t d).2, t, [], []⟩) := rfl

/-- The clock may move on and beats are used up; nothing else changes. -/
structure Waits (s s' : Session σ) : Prop where
  db : s'.db = s.db
  now : s.now ≤ s'.now
  busy : s'.busy = s.busy
  beats : ∀ b ∈ s'.beats, b ∈ s.beats

instance : IsPreorder (Session σ) Waits where
  refl _ := ⟨rfl, Int.le_refl _, rfl, fun _ h => h⟩
  trans _ _ _ h h' := ⟨h'.db.trans h.db, Int.le_trans h.now h'.now, h'.busy.trans h.busy,
    fun b hb => h.beats b (h'.beats b hb)⟩

/-- `x` moves the session along `R`, whether it succeeds or fails. -/
def Moves (R : Session σ → Session σ → Prop) (x : Uow ε σ α) : Prop := ∀ s, R s (x s).2

section Rules

variable {R : Session σ → Session σ → Prop} [IsPreorder (Session σ) R]

theorem moves_pure (a : α) : Moves R (pure a : Uow ε σ α) := fun s => refl_of R s

theorem moves_throw (e : ε) : Moves R (throw e : Uow ε σ α) := fun s => refl_of R s

/-- The second part runs only on what the first one answered and left. -/
theorem bind_at {x : Uow ε σ α} {f : α → Uow ε σ β} {s : Session σ} (hx : R s (x s).2)
    (hf : ∀ a s', x s = (.ok a, s') → R s' (f a s').2) : R s ((x >>= f) s).2 := by
  rw [bind_apply]
  rcases hxs : x s with ⟨e | a, s'⟩ <;> rw [hxs] at hx
  · exact hx
  · exact trans_of R hx (hf a s' hxs)

theorem moves_bind {x : Uow ε σ α} {f : α → Uow ε σ β} (hx : Moves R x)
    (hf : ∀ a, Moves R (f a)) : Moves R (x >>= f) := fun s => bind_at (hx s) fun a s' _ => hf a s'

omit [IsPreorder (Session σ) R] in
theorem moves_attempt {x : Uow ε σ α} (hx : Moves R x) : Moves R (attempt x) := hx

theorem moves_forM {γ : Type} {f : γ → Uow ε σ PUnit} :
    ∀ l : List γ, (∀ a ∈ l, Moves R (f a)) → Moves R (l.forM f)
  | [], _ => moves_pure _
  | a :: l, h => moves_bind (h a List.mem_cons_self) fun _ =>
      moves_forM l fun b hb => h b (List.mem_cons_of_mem a hb)

theorem moves_foldlM {γ : Type} {f : β → γ → Uow ε σ β} :
    ∀ (l : List γ) (b : β), (∀ b, ∀ a ∈ l, Moves R (f b a)) → Moves R (l.foldlM f b)
  | [], b, _ => moves_pure b
  | a :: l, b, h => moves_bind (h b a List.mem_cons_self) fun b' =>
      moves_foldlM l b' fun b c hc => h b c (List.mem_cons_of_mem a hc)

theorem moves_mapM {γ : Type} {f : γ → Uow ε σ β} :
    ∀ l : List γ, (∀ a ∈ l, Moves R (f a)) → Moves R (l.mapM f)
  | [], _ => moves_pure _
  | a :: l, h => by
    rw [List.mapM_cons]
    exact moves_bind (h a List.mem_cons_self) fun _ =>
      moves_bind (moves_mapM l fun b hb => h b (List.mem_cons_of_mem a hb)) fun _ => moves_pure _

omit [IsPreorder (Session σ) R] in
theorem moves_beat (hw : ∀ s s', Waits s s' → R s s') (e : ε) : Moves R (beat e) := by
  intro s
  refine hw _ _ ?_
  unfold beat
  split
  · exact refl_of Waits s
  · rename_i b bs hb
    split <;> exact ⟨rfl, by simp only; omega, rfl, fun _ h => hb ▸ List.mem_cons_of_mem b h⟩

theorem stmt_at (hw : ∀ s s', Waits s s' → R s s') {e : ε} {f : ℤ → σ → Except ε α × σ}
    {s : Session σ} (hf : ∀ s1, Waits s s1 → R s1 { s1 with db := (f s1.now s1.db).2 }) :
    R s (stmt e f s).2 :=
  bind_at (moves_beat hw e s) fun _ s1 h => hf s1 (by
    have hwait := moves_beat (R := Waits) (fun _ _ h => h) e s
    rwa [h] at hwait)

theorem moves_stmt (hw : ∀ s s', Waits s s' → R s s') (e : ε) {f : ℤ → σ → Except ε α × σ}
    (hf : ∀ s, R s { s with db := (f s.now s.db).2 }) : Moves R (stmt e f) := fun _ =>
  stmt_at hw fun s1 _ => hf s1

theorem moves_query (hw : ∀ s s', Waits s s' → R s s') (e : ε) (f : σ → α) : Moves R (query e f) :=
  moves_stmt hw e fun s => refl_of R s

end Rules

theorem Moves.run {R : Session σ → Session σ → Prop} (hx : Moves R x)
    {r : Except ε α} (h : x s = (r, s')) : R s s' := by
  have := hx s
  rwa [h] at this

theorem Moves.mono {R R' : Session σ → Session σ → Prop} (hx : Moves R x)
    (h : ∀ s s', R s s' → R' s s') : Moves R' x := fun s => h _ _ (hx s)

/-- A statement waits and then runs its function, or fails with the error of the store. -/
theorem stmt_run {e : ε} {f : ℤ → σ → Except ε α × σ} {r : Except ε α}
    (h : stmt e f s = (r, s')) : (r = .error e ∧ Waits s s')
      ∨ ∃ s1, Waits s s1 ∧ (f s1.now s1.db).1 = r ∧ s' = { s1 with db := (f s1.now s1.db).2 } := by
  unfold stmt at h
  rw [bind_apply] at h
  have hw := moves_beat (fun _ _ h => h) e s (R := Waits)
  rcases hb : beat e s with ⟨e' | _, s1⟩ <;> rw [hb] at h hw
  · obtain ⟨rfl, rfl⟩ := Prod.mk.inj h
    refine Or.inl ⟨?_, hw⟩
    unfold beat at hb
    split at hb
    · cases hb
    · dsimp only at hb
      split at hb
      · rw [Except.error.inj (Prod.mk.inj hb).1]
      · cases hb
  · obtain ⟨h1, h2⟩ := Prod.mk.inj h
    exact Or.inr ⟨s1, hw, h1, h2.symm⟩

theorem stmt_ok {e : ε} {f : ℤ → σ → Except ε α × σ} {a : α} (h : stmt e f s = (.ok a, s')) :
    ∃ s1, Waits s s1 ∧ (f s1.now s1.db).1 = .ok a ∧ s' = { s1 with db := (f s1.now s1.db).2 } := by
  rcases stmt_run h with ⟨he, -⟩ | h
  · cases he
  · exact h

/-- A run that succeeded with a value that passes a test. -/
theorem exists_of_check {r : Except ε α × Session σ} {q : α → Session σ → Bool}
    (h : (match r with
      | (.ok a, s') => q a s'
      | _ => false) = true) : ∃ a s', r = (.ok a, s') ∧ q a s' = true := by
  rcases r with ⟨e | a, s'⟩
  · cases h
  · exact ⟨a, s', rfl, h⟩

end Uow

end Txn
