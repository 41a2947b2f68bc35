import ArcadeToolbox.Lib.Program
import ArcadeToolbox.Lib.UnitOfWork

/-!
# Two runs side by side

A unit of work is blind to what two sessions differ in if from either it gives the same answer, and
the sessions it leaves differ in no more than that. `B` says which sessions may not be told apart.
For a program what may not be told apart can change on the way, with what its calls answer.
-/

namespace Txn

namespace Uow

variable {ε σ α β γ : Type} {B : Session σ → Session σ → Prop}

/-- From sessions in `B`, the same answer and sessions in `B`. -/
def Blind (B : Session σ → Session σ → Prop) (x : Uow ε σ α) : Prop :=
  ∀ s t, B s t → (x s).1 = (x t).1 ∧ B (x s).2 (x t).2

theorem blind_pure (a : α) : Blind B (pure a : Uow ε σ α) := fun _ _ h => ⟨rfl, h⟩

theorem blind_throw (e : ε) : Blind B (throw e : Uow ε σ α) := fun _ _ h => ⟨rfl, h⟩

theorem blind_bind {x : Uow ε σ α} {f : α → Uow ε σ β} (hx : Blind B x) (hf : ∀ a, Blind B (f a)) :
    Blind B (x >>= f) := by
  intro s t h
  obtain ⟨ha, h'⟩ := hx s t h
  rw [bind_apply, bind_apply]
  rcases hs : x s with ⟨r, s'⟩
  rcases ht : x t with ⟨r', t'⟩
  rw [hs, ht] at ha h'
  obtain rfl : r = r' := ha
  rcases r with e | a
  · exact ⟨rfl, h'⟩
  · exact hf a s' t' h'

theorem blind_forM {f : γ → Uow ε σ PUnit} (hf : ∀ c, Blind B (f c)) : ∀ l : List γ,
    Blind B (l.forM f)
  | [] => blind_pure _
  | c :: l => blind_bind (hf c) fun _ => blind_forM hf l

theorem blind_mapM {f : γ → Uow ε σ β} (hf : ∀ c, Blind B (f c)) : ∀ l : List γ, Blind B (l.mapM f)
  | [] => blind_pure _
  | c :: l => by
    rw [List.mapM_cons]
    exact blind_bind (hf c) fun _ => blind_bind (blind_mapM hf l) fun _ => blind_pure _

theorem blind_attempt {x : Uow ε σ α} (hx : Blind B x) : Blind B (attempt x) := by
  intro s t h
  obtain ⟨ha, h'⟩ := hx s t h
  exact ⟨congrArg Except.ok ha, h'⟩

theorem blind_stmt {e : ε} {f : ℤ → σ → Except ε α × σ} (hbeat : Blind B (beat e))
    (hf : ∀ s t, B s t → (f s.now s.db).1 = (f t.now t.db).1
      ∧ B { s with db := (f s.now s.db).2 } { t with db := (f t.now t.db).2 }) : Blind
        B (stmt e f) :=
  blind_bind hbeat fun _ => hf

theorem blind_atomically {rollback : σ → σ → σ} {x : Uow ε σ α} (hx : Blind B x)
    (hback : ∀ s t s' t', B s t → B s' t' →
      B { s' with db := rollback s.db s'.db } { t' with db := rollback t.db t'.db }) :
    Blind B (atomically rollback x) := by
  intro s t h
  obtain ⟨ha, h'⟩ := hx s t h
  unfold atomically
  rcases hs : x s with ⟨r, s'⟩
  rcases ht : x t with ⟨r', t'⟩
  rw [hs, ht] at ha h'
  obtain rfl : r = r' := ha
  rcases r with e | a
  · exact ⟨rfl, hback s t s' t' h h'⟩
  · exact ⟨rfl, h'⟩

end Uow

namespace Prog

variable {C : Type} {A : C → Type} {α β σ ε : Type} {h : (c : C) → σ → A c × σ} {B : σ → σ → Prop}

/-- From states in `B`, the same value and states in `B'`. -/
def Blind (h : (c : C) → σ → A c × σ) (B : σ → σ → Prop) (x : Prog C A α)
    (B' : α → σ → σ → Prop) : Prop :=
  ∀ s t, B s t → (x.run h s).1 = (x.run h t).1 ∧ B' (x.run h s).1 (x.run h s).2 (x.run h t).2

theorem blind_bind {x : Prog C A α} {f : α → Prog C A β} {R : α → σ → σ → Prop}
    {B' : β → σ → σ → Prop}
    (hx : Blind h B x R) (hf : ∀ a, Blind h (R a) (f a) B') : Blind h B (x >>= f) B' := by
  intro s t hB
  obtain ⟨ha, hR⟩ := hx s t hB
  rw [run_bind, run_bind, ← ha]
  exact hf _ _ _ hR

/-- An error ends the program in both runs. -/
theorem blind_except_bind {x : ExceptT ε (Prog C A) α} {f : α → ExceptT ε (Prog C A) β}
    {R : α → σ → σ → Prop} {B' : Except ε β → σ → σ → Prop}
    (hx : Blind h B x.run fun r s t => match r with
      | .ok a => R a s t
      | .error e => B' (.error e) s t)
    (hf : ∀ a, Blind h (R a) (f a).run B') : Blind h B (x >>= f).run B' := by
  refine blind_bind hx fun r => ?_
  rcases r with e | a
  · exact fun _ _ hB => ⟨rfl, hB⟩
  · exact hf a

end Prog

end Txn
