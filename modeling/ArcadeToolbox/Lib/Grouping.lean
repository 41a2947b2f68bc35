import Mathlib.Data.List.Induction
import Mathlib.Data.List.Nodup

/-!
# Grouping a list by a key

The groups stand in the order in which their keys first appear, and each keeps the order of its
members. Going through the groups instead of the list moves the members of a group to where its
first one stood; a search then meets first what the earliest group has to offer.
-/

namespace Txn

variable {α β κ : Type*}

theorem nodup_eraseDups [BEq α] [LawfulBEq α] : ∀ l : List α, l.eraseDups.Nodup
  | [] => List.nodup_nil
  | a :: l => by
    rw [List.eraseDups_cons, List.nodup_cons, List.mem_eraseDups]
    exact ⟨fun h => by simp at h, nodup_eraseDups _⟩
termination_by l => l.length
decreasing_by
  exact Nat.lt_succ_of_le (List.length_filter_le _ _)

theorem eraseDups_concat [BEq α] [LawfulBEq α] [DecidableEq α] (l : List α) (a : α) :
    (l ++ [a]).eraseDups = if a ∈ l then l.eraseDups else l.eraseDups ++ [a] := by
  rw [List.eraseDups_append]
  by_cases ha : a ∈ l <;> simp [List.removeAll, ha, List.eraseDups_cons]

variable [DecidableEq κ] (key : α → κ)

variable {l : List α}

/-- A member of a group that is there goes to its end; a new key opens a group. -/
def addToGroup : List (κ × List α) → α → List (κ × List α)
  | [], a => [(key a, [a])]
  | g :: gs, a => if g.1 = key a then (g.1, g.2 ++ [a]) :: gs else g :: addToGroup gs a

def group (l : List α) : List (κ × List α) := l.foldl (addToGroup key) []

/-- The members of a key, in their order. -/
def members (l : List α) (k : κ) : List α := l.filter fun a => key a = k

theorem members_concat (l : List α) (a : α) (k : κ) :
    members key (l ++ [a]) k = if key a = k then members key l k ++ [a] else members key l k := by
  unfold members
  by_cases h : key a = k <;> simp [h]

theorem members_eq_nil {k : κ} : members key l k = [] ↔ k ∉ l.map key := by
  simp [members]

theorem addToGroup_map (l : List α) (a : α) : ∀ ks : List κ, ks.Nodup →
    (key a ∉ ks → members key l (key a) = []) →
    addToGroup key (ks.map fun k => (k, members key l k)) a
      = (if key a ∈ ks then ks else ks ++ [key a]).map fun k => (k, members key (l ++ [a]) k)
  | [], _, hnew => by simp [addToGroup, members_concat, hnew]
  | k :: ks, hks, hnew => by
    obtain ⟨hk, hks⟩ := List.nodup_cons.mp hks
    simp only [List.map_cons, addToGroup]
    by_cases hka : k = key a
    · -- no other group has the key
      have hrest : ks.map (fun k => (k, members key l k)) = ks.map fun k =>
          (k, members key (l ++ [a]) k) := by
        refine List.map_congr_left fun k' hk' => ?_
        have hne : key a ≠ k' := fun h => hk (hka ▸ h ▸ hk')
        rw [members_concat, if_neg hne]
      simp [hka, hrest, members_concat]
    · have ih := addToGroup_map l a ks hks fun hn => hnew (by simp [hn, Ne.symm hka])
      have hk' : members key (l ++ [a]) k = members key l k := by
        rw [members_concat, if_neg (Ne.symm hka)]
      rw [if_neg hka, ih]
      by_cases hmem : key a ∈ ks <;> simp [hmem, Ne.symm hka, hk']

theorem group_eq (l : List α) : group key l = (l.map key).eraseDups.map fun k =>
    (k, members key l k) := by
  induction l using List.reverseRecOn with
  | nil => rfl
  | append_singleton l a ih =>
    have hnew : key a ∉ (l.map key).eraseDups → members key l (key a) = [] := by
      rw [members_eq_nil, List.mem_eraseDups]
      exact id
    have hstep : group key (l ++ [a]) = addToGroup key (group key l) a := by simp [group]
    rw [hstep, ih, addToGroup_map key l a _ (nodup_eraseDups _) hnew, List.map_append,
        List.map_singleton,
      eraseDups_concat]
    simp only [List.mem_eraseDups]

theorem mem_group {g : κ × List α} :
    g ∈ group key l ↔ g.1 ∈ l.map key ∧ g.2 = members key l g.1 := by
  rw [group_eq]
  rcases g with ⟨k, ms⟩
  simp only [List.mem_map, List.mem_eraseDups, Prod.mk.injEq]
  constructor
  · rintro ⟨k', hk', rfl, rfl⟩
    exact ⟨hk', rfl⟩
  · rintro ⟨hk, rfl⟩
    exact ⟨k, hk, rfl, rfl⟩

theorem findSome?_eraseDups (f : κ → Option β) (ks : List κ) :
    ks.eraseDups.findSome? f = ks.findSome? f := by
  induction ks using List.reverseRecOn with
  | nil => simp
  | append_singleton ks k ih =>
    rw [eraseDups_concat, List.findSome?_append]
    split
    · -- a key that is there was asked before
      rename_i hk
      rw [ih]
      cases h : ks.findSome? f with
      | some b => rfl
      | none => simp [List.findSome?_eq_none_iff.mp h k hk]
    · rw [List.findSome?_append, ih]

/-- The list in the order of its groups. -/
def regroup (l : List α) : List α := (group key l).flatMap (·.2)

theorem mem_regroup {a : α} : a ∈ regroup key l ↔ a ∈ l := by
  unfold regroup
  rw [List.mem_flatMap]
  constructor
  · rintro ⟨g, hg, ha⟩
    rw [((mem_group key).mp hg).2] at ha
    exact (List.mem_filter.mp ha).1
  · intro ha
    exact ⟨(key a, members key l (key a)), (mem_group key).mpr ⟨List.mem_map_of_mem ha, rfl⟩, by
        simp [members, ha]⟩

/-- What a search through the groups finds first. -/
theorem find?_regroup (q : α → Bool) (l : List α) :
    (regroup key l).find? q = l.findSome? fun a => l.find? fun b => key b = key a && q b := by
  unfold regroup
  rw [List.find?_flatMap, group_eq, List.findSome?_map, findSome?_eraseDups, List.findSome?_map]
  congr 1
  funext a
  simp [members, List.find?_filter]

end Txn
