import Mathlib.Data.List.Basic

/-!
# Runs of a state machine

A machine is its step function, a run the fold of it over the events that arrive. `Along` says that
each event of a run was allowed in the state it arrived in; what the allowed steps preserve holds
after the run.
-/

namespace Txn

variable {σ ε : Type*} (step : σ → ε → σ) (ok : σ → ε → Prop)

/-- Every event of the run is allowed in the state it arrives in. -/
def AllowedRun : σ → List ε → Prop
  | _, [] => True
  | s, e :: es => ok s e ∧ AllowedRun (step s e) es

instance decidableAllowedRun [∀ s e, Decidable (ok s e)] :
    ∀ s es, Decidable (AllowedRun step ok s es)
  | _, [] => isTrue trivial
  | s, e :: es => @instDecidableAnd _ _ _ (decidableAllowedRun (step s e) es)

variable {step ok}

theorem allowedRun_append {s : σ} {es es' : List ε} :
    AllowedRun step ok s (es ++ es') ↔ AllowedRun step ok s es ∧ AllowedRun step ok
      (es.foldl step s) es' := by
  induction es generalizing s with
  | nil => simp [AllowedRun]
  | cons e es ih => simp [AllowedRun, ih, and_assoc]

/-- What every allowed step preserves holds after the run. -/
theorem AllowedRun.invariant {I : σ → Prop} (hstep : ∀ s e, ok s e → I s → I (step s e)) {s : σ}
    {es : List ε} (h : AllowedRun step ok s es) (hs : I s) : I (es.foldl step s) := by
  induction es generalizing s with
  | nil => exact hs
  | cons e es ih =>
    obtain ⟨hok, hrest⟩ := h
    exact ih hrest (hstep s e hok hs)

end Txn
