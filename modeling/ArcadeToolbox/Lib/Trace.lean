import ArcadeToolbox.Lib.UnitOfWork

/-!
# Traces of a unit of work

What a unit of work does to a part of the store is a path: single steps, each at its own time, with
waiting in between. `Follows π R` is the preorder of sessions whose part `π` went along such a path,
so the rules for `Moves` give the path of a unit from the steps of its statements. An invariant of
the part has to be checked against single steps only.
-/

namespace Txn

variable {β : Type*}

inductive TimedPath (R : ℤ → β → β → Prop) : ℤ → β → ℤ → β → Prop
  | refl (t : ℤ) (b : β) : TimedPath R t b t b
  | wait {t t₁ t₂ : ℤ} {b b₁ : β} : TimedPath R t b t₁ b₁ → t₁ ≤ t₂ → TimedPath R t b t₂ b₁
  | step {t t₁ : ℤ} {b b₁ b₂ : β} : TimedPath R t b t₁ b₁ → R t₁ b₁ b₂ → TimedPath R t b t₁ b₂

namespace TimedPath

variable {R R' : ℤ → β → β → Prop} {t t₁ t₂ : ℤ} {b b₁ b₂ : β}

theorem trans (h : TimedPath R t b t₁ b₁) (h' : TimedPath R t₁ b₁ t₂ b₂) :
    TimedPath R t b t₂ b₂ := by
  induction h' with
  | refl => exact h
  | wait _ hle ih => exact (ih h).wait hle
  | step _ hr ih => exact (ih h).step hr

theorem later (h : t ≤ t₁) : TimedPath R t b t₁ b := (refl t b).wait h

theorem single (h : R t b b₁) : TimedPath R t b t b₁ := (refl t b).step h

theorem le (h : TimedPath R t b t₁ b₁) : t ≤ t₁ := by
  induction h with
  | refl => exact Int.le_refl _
  | wait _ hle ih => exact Int.le_trans ih hle
  | step _ _ ih => exact ih

theorem mono (hR : ∀ t b b', R t b b' → R' t b b') (h : TimedPath R t b t₁ b₁) :
    TimedPath R' t b t₁ b₁ := by
  induction h with
  | refl => exact refl _ _
  | wait _ hle ih => exact ih.wait hle
  | step _ hr ih => exact ih.step (hR _ _ _ hr)

/-- A path seen through a function that each step moves along a step, or not at all. -/
theorem map {γ : Type*} {Q : ℤ → γ → γ → Prop} (f : β → γ)
    (hR : ∀ {t b b'}, R t b b' → f b' = f b ∨ Q t (f b) (f b')) (h : TimedPath R t b t₁ b₁) :
    TimedPath Q t (f b) t₁ (f b₁) := by
  induction h with
  | refl => exact refl _ _
  | wait _ hle ih => exact ih.wait hle
  | step _ hr ih =>
    rcases hR hr with he | hq
    · rwa [he]
    · exact ih.step hq

/-- What waiting and every step preserve holds at the end of a path. -/
theorem invariant {I : ℤ → β → Prop} (h : TimedPath R t b t₁ b₁)
    (hwait : ∀ {t t' b}, t ≤ t' → I t b → I t' b) (hstep : ∀ {t b b'}, R t b b' → I t b → I t b')
    (hI : I t b) : I t₁ b₁ := by
  induction h with
  | refl => exact hI
  | wait _ hle ih => exact hwait hle (ih hI)
  | step _ hr ih => exact hstep hr (ih hI)

/-- The same for what does not speak of the time. -/
theorem keeps {I : β → Prop} (h : TimedPath R t b t₁ b₁) (hstep : ∀ {t b b'}, R t b b' → I b → I b')
    (hI : I b) : I b₁ :=
  h.invariant (I := fun _ => I) (fun _ hi => hi) hstep hI

end TimedPath

namespace Uow

variable {ε σ α : Type} (π : σ → β) (R : ℤ → β → β → Prop)

/-- The part `π` of the store went along a path of `R`. -/
def Follows (s s' : Session σ) : Prop := TimedPath R s.now (π s.db) s'.now (π s'.db)

instance : IsPreorder (Session σ) (Follows π R) where
  refl _ := TimedPath.refl _ _
  trans _ _ _ h h' := TimedPath.trans h h'

variable {π R}

theorem Follows.of_waits {s s' : Session σ} (h : Waits s s') : Follows π R s s' := by
  unfold Follows
  rw [h.db]
  exact TimedPath.later h.now

/-- A unit is rolled back where it fails: to where it was, or to where it got. -/
theorem follows_atomically {rollback : σ → σ → σ} {x : Uow ε σ α} {s : Session σ}
    (hx : Follows π R s (x s).2) (hr : ∀ d d', π (rollback d d') = π d ∨ π (rollback d d') = π d') :
    Follows π R s (atomically rollback x s).2 := by
  unfold atomically
  rcases hxs : x s with ⟨e | a, s'⟩ <;> rw [hxs] at hx
  · rcases hr s.db s'.db with h | h <;> unfold Follows <;> rw [h]
    · exact TimedPath.later hx.le
    · exact hx
  · exact hx

theorem follows_atomically_of_ok {rollback : σ → σ → σ} {x : Uow ε σ α} {s : Session σ}
    (hle : s.now ≤ (x s).2.now) (hok : ∀ a s', x s = (.ok a, s') → Follows π R s s')
    (hr : ∀ d d', π (rollback d d') = π d) : Follows π R s (atomically rollback x s).2 := by
  unfold atomically
  rcases hxs : x s with ⟨e | a, s'⟩ <;> rw [hxs] at hle
  · unfold Follows
    rw [hr]
    exact TimedPath.later hle
  · exact hok a s' hxs

end Uow

end Txn
