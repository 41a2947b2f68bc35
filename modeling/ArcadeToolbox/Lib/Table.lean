import Mathlib.Data.List.Nodup

/-!
# Tables with a primary key

A table is a list of rows no two of which have the same key. The operations are those of a
relational store: insert where the key is free, update and delete the rows a condition selects.
An update may not change a row's key, so it takes the proof with the function.

Everything later is proved from membership: what the rows of a table are after an operation.
-/

namespace Txn

/-- Rows of type `ρ` are identified by a key of type `κ`. -/
class Keyed (ρ : Type*) (κ : outParam Type*) where
  key : ρ → κ

export Keyed (key)

/-- Rows, no two of which have the same key. -/
structure Table (ρ : Type*) {κ : Type*} [Keyed ρ κ] where
  rows : List ρ
  nodup : (rows.map key).Nodup

namespace Table

variable {ρ κ : Type*} [Keyed ρ κ]

instance : Membership ρ (Table ρ) := ⟨fun t r => r ∈ t.rows⟩

variable {t : Table ρ}

theorem mem_def {r : ρ} : r ∈ t ↔ r ∈ t.rows := Iff.rfl

theorem eq_of_rows {t t' : Table ρ} (h : t.rows = t'.rows) : t = t' := by
  cases t
  cases t'
  cases h
  rfl

/-- Two rows of a table with the same key are the same row. -/
theorem eq_of_key {r r' : ρ} (h : r ∈ t) (h' : r' ∈ t) (hk : key r = key r') :
    r = r' :=
  List.inj_on_of_nodup_map t.nodup h h' hk

def empty : Table ρ := ⟨[], List.nodup_nil⟩

instance : EmptyCollection (Table ρ) := ⟨empty⟩

@[simp] theorem not_mem_empty (r : ρ) : r ∉ (∅ : Table ρ) := List.not_mem_nil

/-- The rows that meet a condition, in table order. -/
def select (t : Table ρ) (p : ρ → Bool) : List ρ := t.rows.filter p

@[simp] theorem mem_select {t : Table ρ} {p : ρ → Bool} {r : ρ} :
    r ∈ t.select p ↔ r ∈ t ∧ p r = true := List.mem_filter

def any (t : Table ρ) (p : ρ → Bool) : Bool := t.rows.any p

variable {p : ρ → Bool}

theorem any_eq_true : t.any p = true ↔ ∃ r ∈ t, p r = true :=
  List.any_eq_true

theorem any_eq_false : t.any p = false ↔ ∀ r ∈ t, p r = false := by
  simp [any, mem_def]

section Lookup

variable [DecidableEq κ]

/-- The row of a key. -/
def get? (t : Table ρ) (k : κ) : Option ρ := t.rows.find? fun r => decide (key r = k)

theorem get?_eq_some {k : κ} {r : ρ} : t.get? k = some r ↔ r ∈ t ∧ key r = k := by
  constructor
  · intro h
    exact ⟨List.mem_of_find?_eq_some h, by simpa using List.find?_some h⟩
  · rintro ⟨hr, rfl⟩
    rcases hf : t.get? (key r) with _ | r'
    · have := List.find?_eq_none.mp hf r hr
      simp at this
    · have hk : key r' = key r := by simpa using List.find?_some hf
      rw [eq_of_key (List.mem_of_find?_eq_some hf) hr hk]

theorem get?_eq_none {k : κ} : t.get? k = none ↔ ∀ r ∈ t, key r ≠ k := by
  simp [get?, mem_def]

theorem get?_of_mem {r : ρ} (h : r ∈ t) : t.get? (key r) = some r :=
  get?_eq_some.mpr ⟨h, rfl⟩

theorem select_key (t : Table ρ) (k : κ) : (t.select fun r => key r = k) = (t.get? k).toList := by
  rcases h : t.get? k with _ | r
  · rw [Option.toList_none, select, List.filter_eq_nil_iff]
    exact fun r hr => by simpa using get?_eq_none.mp h r hr
  · obtain ⟨hr, rfl⟩ := get?_eq_some.mp h
    rw [Option.toList_some]
    have hsub : (t.select fun x => key x = key r).Nodup := (t.nodup.of_map key).filter _
    refine List.perm_singleton.mp ((List.perm_ext_iff_of_nodup hsub (List.nodup_singleton r)).mpr
        fun x => ?_)
    rw [mem_select, List.mem_singleton, decide_eq_true_eq]
    exact ⟨fun hx => eq_of_key hx.1 hr hx.2, fun hx => by rw [hx]; exact ⟨hr, rfl⟩⟩

/-- A condition on the row of one key selects that row or none. -/
theorem length_select_key {q : ρ → Bool} (t : Table ρ) (k : κ) :
    (t.select fun r => key r = k && q r).length = if (t.get? k).any q then 1 else 0 := by
  have he : (t.select fun r => key r = k && q r) = (t.get? k).toList.filter q := by
    rw [← select_key, select, select, List.filter_filter]
    exact List.filter_congr fun r _ => Bool.and_comm _ _
  rw [he]
  rcases t.get? k with _ | r
  · rfl
  · by_cases hq : q r = true <;> simp [hq]

/-- Insert a row whose key is free; a taken key leaves the table as it is. -/
def insert (t : Table ρ) (r : ρ) : Table ρ :=
  if h : key r ∈ t.rows.map key then t
  else ⟨t.rows ++ [r], by
    rw [List.map_append, List.nodup_append]
    refine ⟨t.nodup, by simp, ?_⟩
    rintro a ha b hb rfl
    simp only [List.map_cons, List.map_nil, List.mem_singleton] at hb
    exact h (hb ▸ ha)⟩

theorem mem_insert {r x : ρ} :
    x ∈ t.insert r ↔ x ∈ t ∨ (x = r ∧ t.get? (key r) = none) := by
  unfold insert
  split_ifs with h
  · obtain ⟨r', hr', hk⟩ := List.mem_map.mp h
    have : t.get? (key r) ≠ none := by
      rw [← hk, get?_of_mem hr']
      simp
    simp [this]
  · have hn : t.get? (key r) = none := by
      rw [get?_eq_none]
      intro r' hr' hk
      exact h (List.mem_map.mpr ⟨r', hr', hk⟩)
    simp [hn, mem_def]

theorem rows_insert {r : ρ} (h : t.get? (key r) = none) : (t.insert r).rows = t.rows ++ [r] := by
  unfold insert
  rw [dif_neg]
  intro hmem
  obtain ⟨x, hx, hk⟩ := List.mem_map.mp hmem
  exact get?_eq_none.mp h x hx hk

theorem get?_insert_self {r : ρ} (h : t.get? (key r) = none) :
    (t.insert r).get? (key r) = some r :=
  get?_eq_some.mpr ⟨mem_insert.mpr (Or.inr ⟨rfl, h⟩), rfl⟩

theorem get?_insert_ne {r : ρ} {k : κ} (h : key r ≠ k) :
    (t.insert r).get? k = t.get? k := by
  rcases hk : t.get? k with _ | x
  · rw [get?_eq_none] at hk ⊢
    intro x hx
    rcases mem_insert.mp hx with hx | ⟨rfl, -⟩
    · exact hk x hx
    · exact h
  · obtain ⟨hx, rfl⟩ := get?_eq_some.mp hk
    exact get?_of_mem (mem_insert.mpr (Or.inl hx))

end Lookup

/-- Apply `f` to the rows that meet a condition. -/
def update (t : Table ρ) (p : ρ → Bool) (f : ρ → ρ) (hf : ∀ r, key (f r) = key r) : Table ρ :=
  ⟨t.rows.map fun r => if p r then f r else r, by
    rw [List.map_map]
    have : key ∘ (fun r => if p r then f r else r) = (key : ρ → κ) := by
      funext r
      simp only [Function.comp]
      split
      · exact hf r
      · rfl
    rw [this]
    exact t.nodup⟩

variable {f : ρ → ρ}

theorem mem_update {hf : ∀ r, key (f r) = key r} {x : ρ} :
    x ∈ t.update p f hf ↔ ∃ r ∈ t, x = if p r then f r else r := by
  simp only [mem_def, update, List.mem_map]
  constructor <;> rintro ⟨r, hr, h⟩ <;> exact ⟨r, hr, h.symm⟩

theorem get?_update [DecidableEq κ] {hf : ∀ r, key (f r) = key r} {k : κ} :
    (t.update p f hf).get? k = (t.get? k).map fun r => if p r then f r else r := by
  have hkey : ∀ r : ρ, key (if p r then f r else r) = key r := by
    intro r
    split
    · exact hf r
    · rfl
  rcases h : t.get? k with _ | r
  · rw [Option.map_none, get?_eq_none]
    intro x hx
    obtain ⟨r, hr, rfl⟩ := mem_update.mp hx
    rw [hkey]
    exact get?_eq_none.mp h r hr
  · obtain ⟨hr, rfl⟩ := get?_eq_some.mp h
    rw [Option.map_some, get?_eq_some]
    exact ⟨mem_update.mpr ⟨r, hr, rfl⟩, hkey r⟩

/-- Apply `f` to every row. -/
def map (t : Table ρ) (f : ρ → ρ) (hf : ∀ r, key (f r) = key r) : Table ρ :=
  ⟨t.rows.map f, by
    rw [List.map_map, show key ∘ f = (key : ρ → κ) from funext hf]
    exact t.nodup⟩

theorem map_eq_map_iff {f g : ρ → ρ} {hf : ∀ r, key (f r) = key r}
    {hg : ∀ r, key (g r) = key r} : t.map f hf = t.map g hg ↔ ∀ r ∈ t, f r = g r := by
  simp only [map, mk.injEq, mem_def]
  exact List.map_inj_left

theorem map_map {f g : ρ → ρ} {hf : ∀ r, key (f r) = key r} {hg : ∀ r, key (g r) = key r} :
    (t.map f hf).map g hg = t.map (fun r => g (f r)) fun r => (hg _).trans (hf r) := by
  simp [map]

theorem map_id {hf : ∀ r, key (f r) = key r} (h : ∀ r ∈ t, f r = r) :
    t.map f hf = t := by
  rcases t with ⟨rows, hn⟩
  unfold map
  congr 1
  exact (List.map_congr_left h).trans (List.map_id rows)

theorem get?_map [DecidableEq κ] {hf : ∀ r, key (f r) = key r} {k : κ} :
    (t.map f hf).get? k = (t.get? k).map f := by
  change (t.update (fun _ => true) f hf).get? k = _
  rw [get?_update]
  rfl

/-- Drop the rows that meet a condition. -/
def delete (t : Table ρ) (p : ρ → Bool) : Table ρ :=
  ⟨t.rows.filter fun r => !p r, t.nodup.sublist (List.filter_sublist.map key)⟩

@[simp] theorem mem_delete {t : Table ρ} {p : ρ → Bool} {x : ρ} :
    x ∈ t.delete p ↔ x ∈ t ∧ p x = false := by
  simp [mem_def, delete]

theorem get?_delete [DecidableEq κ] {k : κ} :
    (t.delete p).get? k = (t.get? k).filter fun r => !p r := by
  rcases h : t.get? k with _ | r
  · rw [Option.filter_none, get?_eq_none]
    exact fun x hx => get?_eq_none.mp h x (mem_delete.mp hx).1
  · obtain ⟨hr, rfl⟩ := get?_eq_some.mp h
    cases hp : p r
    · rw [Option.filter_some, if_pos (by rw [hp]; rfl)]
      exact get?_of_mem (mem_delete.mpr ⟨hr, hp⟩)
    · rw [Option.filter_some, if_neg (by rw [hp]; decide), get?_eq_none]
      intro x hx hk
      obtain ⟨hx, hpx⟩ := mem_delete.mp hx
      rw [eq_of_key hx hr hk, hp] at hpx
      cases hpx

theorem delete_delete {p q : ρ → Bool} :
    (t.delete p).delete q = t.delete fun r => p r || q r := by
  simp only [delete, mk.injEq, List.filter_filter]
  congr 1
  funext r
  rw [Bool.not_or, Bool.and_comm]

theorem delete_of_forall_not (h : ∀ r ∈ t, p r = false) : t.delete p = t := by
  rcases t with ⟨rows, hn⟩
  unfold delete
  congr 1
  exact List.filter_eq_self.mpr fun r hr => by rw [h r hr]; rfl

theorem update_congr {p q : ρ → Bool} {f g : ρ → ρ} {hf : ∀ r, key (f r) = key r}
    {hg : ∀ r, key (g r) = key r} (h : ∀ r ∈ t, (if p r then f r else r) = if q r then g r else r) :
    t.update p f hf = t.update q g hg := by
  rcases t with ⟨rows, hn⟩
  unfold update
  congr 1
  exact List.map_congr_left h

theorem update_of_forall_fixed {hf : ∀ r, key (f r) = key r}
    (h : ∀ r ∈ t, p r = true → f r = r) : t.update p f hf = t := by
  rcases t with ⟨rows, hn⟩
  unfold update
  congr 1
  refine (List.map_congr_left fun r hr => ?_).trans (List.map_id rows)
  by_cases hp : p r = true
  · rw [if_pos hp, h r hr hp]
    rfl
  · rw [if_neg hp]
    rfl

theorem update_of_forall_not {hf : ∀ r, key (f r) = key r}
    (h : ∀ r ∈ t, p r = false) : t.update p f hf = t :=
  update_of_forall_fixed fun r hr hp => absurd (h r hr) (by rw [hp]; decide)

end Table

end Txn
