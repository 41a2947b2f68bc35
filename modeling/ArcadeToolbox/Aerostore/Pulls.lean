import ArcadeToolbox.Aerostore.ClaimCache
import Mathlib.Data.List.Perm.Basic

/-!
# What a pull hands out

The scan runs with the best candidate so far. A pull takes the best one out, fills its place with
the last one, and scans again.
-/

namespace ArcadeToolbox.Aerostore

variable {pred : ℕ → Bool} {prefer : Option (ℕ → ℕ → Bool)}

/-- A preference is a strict order on values, as every strict weak order is. -/
def Strict (prefer : Option (ℕ → ℕ → Bool)) : Prop := ∀ p ∈ prefer, IsStrictOrder ℕ fun a b =>
    p a b = true

/-- Nobody in `cs` that passes is preferred to `d`. -/
def Unbeaten (pred : ℕ → Bool) (prefer : Option (ℕ → ℕ → Bool)) (cs : List Record)
    (d : Record) : Prop :=
  ∀ p ∈ prefer, ∀ c ∈ cs, pred c.sats = true → p c.sats d.sats = false

/-- What the scan knows of the candidates that it has seen. -/
def BestOf (pred : ℕ → Bool) (prefer : Option (ℕ → ℕ → Bool)) (cs : List Record) :
    Option (ℕ × Record) → Prop
  | none => ∀ c ∈ cs, pred c.sats = false
  | some (i, d) =>
    cs[i]? = some d ∧ pred d.sats = true ∧ (Strict prefer → Unbeaten pred prefer cs d)

theorem BestOf.skip {seen : List Record} {c : Record} {best : Option (ℕ × Record)}
    (h : BestOf pred prefer seen best)
    (hc : pred c.sats = false) : BestOf pred prefer (seen ++ [c]) best := by
  rcases best with _ | ⟨i, d⟩
  · exact List.forall_mem_append.mpr ⟨h, by simpa using hc⟩
  · obtain ⟨hi, hd, hbest⟩ := h
    refine ⟨List.getElem?_append_left (List.getElem?_eq_some_iff.1 hi).1 ▸ hi, hd,
        fun hs p hp => ?_⟩
    exact List.forall_mem_append.mpr ⟨hbest hs p hp, by simp [hc]⟩

theorem scan_bestOf (cs : List Record) {seen : List Record} {best : Option (ℕ × Record)}
    (h : BestOf pred prefer seen best) :
    BestOf pred prefer (seen ++ cs) (scan pred prefer cs seen.length best) := by
  induction cs generalizing seen best with
  | nil => simpa [scan] using h
  | cons c cs ih =>
    have hlen : seen.length + 1 = (seen ++ [c]).length := by simp
    have hself : (seen ++ [c])[seen.length]? = some c := by simp
    rw [show seen ++ c :: cs = seen ++ [c] ++ cs by simp]
    unfold scan
    split_ifs with hc
    · rcases best with _ | ⟨i, d⟩
      · -- the first match: nobody before it passes
        have hfirst : BestOf pred prefer (seen ++ [c]) (some (seen.length, c)) := by
          refine ⟨hself, hc, fun hs p hp => List.forall_mem_append.mpr ⟨fun e he hpe => ?_,
              fun e he _ => ?_⟩⟩
          · rw [h e he] at hpe
            cases hpe
          · rw [List.mem_singleton.mp he]
            exact Bool.eq_false_iff.mpr ((hs p hp).irrefl _)
        cases prefer with
        | none => exact ⟨by simp, hc, fun _ p hp => by cases hp⟩
        | some p => exact hlen ▸ ih hfirst
      · obtain ⟨hi, hd, hbest⟩ := h
        have hlt : i < seen.length := (List.getElem?_eq_some_iff.1 hi).1
        cases prefer with
        | none =>
          rw [List.append_assoc]
          exact ⟨List.getElem?_append_left hlt ▸ hi, hd, fun _ p hp => by cases hp⟩
        | some p =>
          simp only [hlen]
          apply ih
          split_ifs with hp
          · refine ⟨hself, hc, fun hs q hq => List.forall_mem_append.mpr ⟨fun e he hpe => ?_,
              fun e he _ => ?_⟩⟩
            · cases hq
              have hed := hbest hs p rfl e he hpe
              exact Bool.eq_false_iff.mpr fun hec => by simp [(hs p rfl).trans _ _ _ hec hp] at hed
            · rw [List.mem_singleton.mp he]
              exact Bool.eq_false_iff.mpr ((hs q hq).irrefl _)
          · refine ⟨List.getElem?_append_left hlt ▸ hi, hd, fun hs q hq =>
              List.forall_mem_append.mpr ⟨hbest hs q hq, ?_⟩⟩
            cases hq
            simpa using fun _ => hp
    · exact hlen ▸ ih (h.skip (Bool.eq_false_iff.mpr hc))

theorem bestOf_scan (pred : ℕ → Bool) (prefer : Option (ℕ → ℕ → Bool)) (cs : List Record) :
    BestOf pred prefer cs (scan pred prefer cs 0 none) :=
  @scan_bestOf pred prefer cs [] none fun _ hc => by cases hc

theorem swapRemove_perm {cs : List Record} {i : ℕ} {c : Record} (h : cs[i]? = some c) :
    (c :: swapRemove i cs).Perm cs := by
  rcases List.eq_nil_or_concat' cs with rfl | ⟨l, last, rfl⟩
  · cases h
  obtain ⟨hi, hc⟩ := List.getElem?_eq_some_iff.1 h
  unfold swapRemove
  rw [List.getLast?_concat]
  rcases Nat.lt_or_ge i l.length with hlt | hge
  · obtain rfl : l[i] = c := by rw [← hc, List.getElem_append_left hlt]
    simp only [List.set_append_left _ _ hlt, List.dropLast_concat]
    calc (l[i] :: l.set i last).Perm (l[i] :: last :: l.eraseIdx i) :=
      (List.set_perm_cons_eraseIdx hlt last).cons _
      _ |>.Perm (last :: l[i] :: l.eraseIdx i) := .swap ..
      _ |>.Perm (last :: l) := (List.getElem_cons_eraseIdx_perm hlt).cons _
      _ |>.Perm (l ++ [last]) := (List.perm_append_singleton ..).symm
  · -- it is the last one itself
    obtain rfl : i = l.length := by simp at hi; omega
    obtain rfl : last = c := by simpa using hc
    simpa using (List.perm_append_singleton last l).symm

/-- What a pull hands out passes, and nothing is lost or doubled. -/
theorem pull_perm : ∀ (n : ℕ) (cs : List Record),
    ((pull pred prefer n cs).1 ++ (pull pred prefer n cs).2).Perm cs
    ∧ ∀ c ∈ (pull pred prefer n cs).1, pred c.sats = true
  | 0, cs => ⟨.refl cs, fun c hc => by cases hc⟩
  | n + 1, cs => by
    have hbest := bestOf_scan pred prefer cs
    unfold pull
    rcases hs : scan pred prefer cs 0 none with _ | ⟨i, c⟩ <;> rw [hs] at hbest
    · exact ⟨.refl cs, fun c hc => by cases hc⟩
    · obtain ⟨hperm, hout⟩ := pull_perm n (swapRemove i cs)
      exact ⟨(hperm.cons c).trans (swapRemove_perm hbest.1),
          List.forall_mem_cons.mpr ⟨hbest.2.1, hout⟩⟩

theorem pull_length : ∀ (n : ℕ) (cs : List Record),
    (pull pred prefer n cs).1.length = min n (cs.countP fun c => pred c.sats)
  | 0, cs => by simp [pull]
  | n + 1, cs => by
    have hbest := bestOf_scan pred prefer cs
    unfold pull
    rcases hs : scan pred prefer cs 0 none with _ | ⟨i, c⟩ <;> rw [hs] at hbest
    · have hzero : cs.countP (fun c => pred c.sats) = 0 := List.countP_eq_zero.mpr fun c hc => by
        simp [hbest c hc]
      simp [hzero]
    · have hcount := (swapRemove_perm hbest.1).countP_eq fun c => pred c.sats
      rw [List.countP_cons, if_pos hbest.2.1] at hcount
      simp [← hcount, pull_length n]

theorem mem_of_mem_pull {n : ℕ} {cs : List Record} {c : Record}
    (h : c ∈ (pull pred prefer n cs).1 ∨ c ∈ (pull pred prefer n cs).2) : c ∈ cs :=
  (pull_perm n cs).1.subset (List.mem_append.mpr h)

/-- The best come first, and what stays is not preferred to them. -/
theorem pull_best (hs : Strict prefer) : ∀ (n : ℕ) (cs : List Record), ∀ p ∈ prefer,
    (pull pred prefer n cs).1.Pairwise (fun a b => p b.sats a.sats = false)
      ∧ ∀ c ∈ (pull pred prefer n cs).1, Unbeaten pred prefer (pull pred prefer n cs).2 c
  | 0, cs, p, _ => ⟨.nil, fun c hc => by cases hc⟩
  | n + 1, cs, p, hp => by
    have hbest := bestOf_scan pred prefer cs
    unfold pull
    rcases hs' : scan pred prefer cs 0 none with _ | ⟨i, c⟩ <;> rw [hs'] at hbest
    · exact ⟨.nil, fun c hc => by cases hc⟩
    · have hsub : ∀ d, d ∈ (pull pred prefer n (swapRemove i cs)).1
        ∨ d ∈ (pull pred prefer n (swapRemove i cs)).2 →
          d ∈ cs := fun d hd =>
        (swapRemove_perm hbest.1).subset (List.mem_cons_of_mem c (mem_of_mem_pull hd))
      obtain ⟨hsorted, hrest⟩ := pull_best hs n (swapRemove i cs) p hp
      refine ⟨List.pairwise_cons.mpr ⟨fun d hd => ?_, hsorted⟩,
          List.forall_mem_cons.mpr ⟨fun q hq d hd => ?_, hrest⟩⟩
      · exact hbest.2.2 hs p hp d (hsub d (.inl hd)) ((pull_perm n _).2 d hd)
      · exact hbest.2.2 hs q hq d (hsub d (.inr hd))

/-- The smallest sufficient, the largest insufficient, or any: a pull takes the best ones that there
are. -/
theorem pull_takes_best (pred : ℕ → Bool) (prefer : Option (ℕ → ℕ → Bool))
    (hs : Strict prefer) (want : ℕ) (cands : List Record) :
    (pull pred prefer want cands).1.length = min want (cands.countP fun c => pred c.sats)
      ∧ (∀ c ∈ (pull pred prefer want cands).1, pred c.sats = true)
      ∧ ((pull pred prefer want cands).1 ++ (pull pred prefer want cands).2).Perm cands
      ∧ ∀ p ∈ prefer, (pull pred prefer want cands).1.Pairwise (fun a b => p b.sats a.sats = false)
        ∧ ∀ c ∈ (pull pred prefer want cands).1, Unbeaten pred prefer
          (pull pred prefer want cands).2 c :=
  ⟨pull_length want cands, (pull_perm want cands).2, (pull_perm want cands).1,
      pull_best hs want cands⟩

/-- The preferences of the three claims. -/
theorem Bound.strict_prefer (bound : Bound) : Strict bound.prefer := by
  intro p hp
  cases bound <;> cases hp
  · exact { irrefl := by simp, trans := fun a b c hab hbc => by simp at hab hbc ⊢; omega }
  · exact { irrefl := by simp, trans := fun a b c hab hbc => by simp at hab hbc ⊢; omega }

def coinsWorth (values : List ℕ) : List Record :=
  values.map fun sats => mintedRecord 1 ⟨⟨"a", 0⟩, 7, "default", sats, 107, .mined⟩

theorem pull_takes_best_smallest :
    (pull (Bound.atLeast 4).pred (Bound.atLeast 4).prefer 1 (coinsWorth [9, 3, 5])).1.length
      = min 1 ((coinsWorth [9, 3, 5]).countP fun c => (Bound.atLeast 4).pred c.sats) :=
  (pull_takes_best _ _ (Bound.atLeast 4).strict_prefer _ _).1

example : (pull (Bound.atLeast 4).pred (Bound.atLeast 4).prefer 1 (coinsWorth [9, 3, 5])).1
    = coinsWorth [5] := by
  decide

end ArcadeToolbox.Aerostore
