import Mathlib.Data.List.Sort

/-!
# Sorting by insertion keeps the order of equals

So the sorted list of what a condition selects is what it selects of the sorted list, and the head
of the sorted list is what a scan for the least element finds.
-/

namespace Txn

variable {α : Type*} (le : α → α → Prop) [DecidableRel le]

/-- The element that comes first in the order; of equals, the first of the list. -/
def least? : List α → Option α
  | [] => none
  | a :: l => some (match least? l with
    | none => a
    | some b => if le a b then a else b)

theorem head?_insertionSort : ∀ l : List α, (l.insertionSort le).head? = least? le l
  | [] => rfl
  | a :: l => by
    have ih := head?_insertionSort l
    rw [List.insertionSort_cons, least?, ← ih]
    cases l.insertionSort le with
    | nil => rfl
    | cons b m =>
      rw [List.orderedInsert_cons]
      by_cases h : le a b <;> simp [h]

theorem least?_mem {l : List α} {a : α} (h : least? le l = some a) : a ∈ l := by
  rw [← head?_insertionSort] at h
  exact (List.mem_insertionSort le).mp (List.mem_of_mem_head? h)

theorem least?_eq_none {l : List α} : least? le l = none ↔ l = [] := by
  cases l <;> simp [least?]

theorem least?_map {f : α → α} (hf : ∀ a b, le (f a) (f b) ↔ le a b) : ∀ l : List α,
    least? le (l.map f) = (least? le l).map f
  | [] => rfl
  | a :: l => by
    have ih := least?_map hf l
    simp only [List.map_cons, least?, ih]
    cases least? le l with
    | none => rfl
    | some b => by_cases hab : le a b <;> simp [hf, hab]

theorem orderedInsert_of_forall {a : α} {l : List α} (h : ∀ b ∈ l, le a b) :
    l.orderedInsert le a = a :: l := by
  cases l with
  | nil => rfl
  | cons b l => exact List.orderedInsert_cons_of_le le l (h b List.mem_cons_self)

section Order

variable [IsTrans α le]

theorem filter_orderedInsert (p : α → Bool) (a : α) : ∀ l : List α, l.Pairwise le →
    (l.orderedInsert le a).filter p = if p a then (l.filter p).orderedInsert le a else l.filter p
  | [], _ => by cases h : p a <;> simp [h]
  | b :: l, hl => by
    obtain ⟨hb, hl⟩ := List.pairwise_cons.mp hl
    rw [List.orderedInsert_cons]
    by_cases hab : le a b
    · -- whatever is left of the list comes after the element
      have hall : ∀ x ∈ (b :: l).filter p, le a x := by
        intro x hx
        rcases List.mem_cons.mp (List.mem_filter.mp hx).1 with rfl | hx
        · exact hab
        · exact trans_of le hab (hb x hx)
      rw [if_pos hab, orderedInsert_of_forall le hall, List.filter_cons]
    · rw [if_neg hab, List.filter_cons, filter_orderedInsert p a l hl, List.filter_cons]
      cases ha : p a <;> cases hpb : p b <;> simp [hab]

theorem filter_insertionSort [Std.Total le] (p : α → Bool) : ∀ l : List α,
    (l.insertionSort le).filter p = (l.filter p).insertionSort le
  | [] => rfl
  | a :: l => by
    have ih := filter_insertionSort p l
    rw [List.insertionSort_cons, filter_orderedInsert le p a _ (List.pairwise_insertionSort le l),
        ih, List.filter_cons]
    cases p a <;> simp

/-- The least element is below the others. -/
theorem least?_le [Std.Total le] {l : List α} {a : α} (h : least? le l = some a) :
    ∀ b ∈ l, le a b := by
  intro b hb
  rw [← head?_insertionSort] at h
  have hs := List.pairwise_insertionSort le l
  have hb := (List.mem_insertionSort le).mpr hb
  cases hsort : l.insertionSort le with
  | nil =>
    rw [hsort] at h
    cases h
  | cons x m =>
    rw [hsort] at h hs hb
    cases h
    rcases List.mem_cons.mp hb with rfl | hb
    · exact (Std.Total.total (r := le) b b).elim id id
    · exact (List.pairwise_cons.mp hs).1 b hb

end Order

section Page

variable [Std.Total le]

/-- An element is among the first `n` of a sorted list if fewer than `n` come before it. -/
theorem mem_take_of_pairwise {a : α} : ∀ {l : List α} (n : ℕ), l.Pairwise le → a ∈ l →
    (∀ b ∈ l, le a b → le b a → b = a) → (a ∈ l.take n ↔ (l.filter fun b => ¬ le a b).length < n)
  | [], _, _, ha, _ => absurd ha List.not_mem_nil
  | b :: l, 0, _, _, _ => by simp
  | b :: l, n + 1, hl, ha, hanti => by
    obtain ⟨hb, hl⟩ := List.pairwise_cons.mp hl
    rw [List.take_succ_cons, List.mem_cons]
    by_cases hab : a = b
    · subst hab
      have haa : le a a := (Std.Total.total (r := le) a a).elim id id
      have hnone : l.filter (fun c => !decide (le a c)) = [] := by simpa using hb
      simp [haa, hnone]
    · -- what stands before the element is not after it
      have hal := (List.mem_cons.mp ha).resolve_left hab
      have hnot : ¬ le a b := fun h => hab (hanti b List.mem_cons_self h (hb a hal)).symm
      have ih := mem_take_of_pairwise n hl hal fun c hc => hanti c (List.mem_cons_of_mem b hc)
      simp [hab, hnot, ih]

theorem mem_take_insertionSort [IsTrans α le] {a : α} {l : List α} (n : ℕ) (ha : a ∈ l)
    (hanti : ∀ b ∈ l, le a b → le b a → b = a) :
    a ∈ (l.insertionSort le).take n ↔ (l.filter fun b => ¬ le a b).length < n := by
  rw [mem_take_of_pairwise le n (List.pairwise_insertionSort le l)
      ((List.mem_insertionSort le).mpr ha)
      fun b hb => hanti b ((List.mem_insertionSort le).mp hb),
    ((List.perm_insertionSort le l).filter _).length_eq]

end Page

theorem foldl_eq_least? [IsTrans α le] [Std.Total le] {before : α → α → Bool}
    (hb : ∀ a b, before a b = true ↔ ¬ le b a) :
    ∀ (l : List α) (a : α), some (l.foldl (fun best r => if before r best then r else best) a)
      = least? le (a :: l)
  | [], a => rfl
  | b :: l, a => by
    have ih := foldl_eq_least? hb l
    rw [List.foldl_cons, ih]
    simp only [least?]
    cases least? le l with
    | none => by_cases hab : le a b <;> simp [hb, hab]
    | some m =>
      by_cases hab : le a b
      · by_cases hbm : le b m
        · have ham : le a m := trans_of le hab hbm
          simp [hb, hab, hbm, ham]
        · simp [hb, hab, hbm]
      · by_cases hbm : le b m
        · simp [hb, hab, hbm]
        · -- the best of the rest is before the second element, so it is before the first
          have ham : ¬ le a m := fun ham =>
              hab (trans_of le ham ((Std.Total.total (r := le) m b).resolve_right hbm))
          simp [hb, hab, hbm, ham]

end Txn
