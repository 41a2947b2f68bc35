import ArcadeToolbox.Lib.Grouping
import ArcadeToolbox.Lib.Program
import ArcadeToolbox.Lib.Table
import Mathlib.Data.List.Forall2
import Mathlib.Data.List.ReduceOption

/-!
# Programs that do what functions do

A program that works through requests against one state simulates a function of another state if
from related states it gives the function's answer and leads to related states. The states here are
tables, related row by row. A function that changes many rows at once is met by a program that goes
through them one after the other; `each` is what stands between the two.
-/

namespace Txn

section Each

variable {γ β τ : Type*}

/-- The answers for the items in order, and the state after the last of them. -/
def each (g : γ → τ → β × τ) : List γ → τ → List β × τ
  | [], t => ([], t)
  | a :: l, t => ((g a t).1 :: (each g l (g a t).2).1, (each g l (g a t).2).2)

theorem each_map {δ : Type*} (g : γ → τ → β × τ) (k : δ → γ) : ∀ (l : List δ) (t : τ),
    each (fun a => g (k a)) l t = each g (l.map k) t
  | [], _ => rfl
  | a :: l, t => by rw [each, each_map g k l, List.map_cons, each]

/-- The state depends on what is done for the items, not on the answers. -/
theorem each_snd_congr {δ : Type*} {g : γ → τ → β × τ} {g' : γ → τ → δ × τ}
    (h : ∀ a t, (g a t).2 = (g' a t).2) :
    ∀ (l : List γ) (t : τ), (each g l t).2 = (each g' l t).2
  | [], _ => rfl
  | a :: l, t => by
    rw [each, each, h]
    exact each_snd_congr h l _

/-- A function of a list that does the first item and then the rest, and collects what is
refused. -/
theorem eq_each_reduceOption {ε : Type*} {F : List γ → τ → List ε × τ} {g : γ → τ → Option ε × τ}
    (hnil : ∀ t, F [] t = ([], t))
    (hcons : ∀ a l t, F (a :: l) t = ((g a t).1.toList ++ (F l (g a t).2).1, (F l (g a t).2).2)) :
    ∀ l t, F l t = ((each g l t).1.reduceOption, (each g l t).2)
  | [], t => hnil t
  | a :: l, t => by
    rw [hcons, each, eq_each_reduceOption hnil hcons l]
    cases (g a t).1 with
    | none => rw [List.reduceOption_cons_of_none]; rfl
    | some e => rw [List.reduceOption_cons_of_some]; rfl

theorem each_keeps {g : γ → τ → β × τ} {I : τ → Prop} (h : ∀ a t, I t → I (g a t).2) :
    ∀ (l : List γ) {t : τ}, I t → I (each g l t).2
  | [], _, hI => hI
  | a :: l, t, hI => each_keeps h l (h a t hI)

/-- What holds of an item and its answer when it was gone through, and is kept by the others, holds
of all in the end. -/
theorem each_settled {g : γ → τ → β × τ} {P : γ → β → τ → Prop}
    (hdone : ∀ a t, P a (g a t).1 (g a t).2) (hkeep : ∀ a b c t, P a b t → P a b (g c t).2) :
    ∀ (l : List γ) (t : τ), List.Forall₂ (fun a b => P a b (each g l t).2) l (each g l t).1
  | [], _ => .nil
  | a :: l, t =>
    .cons (each_keeps (fun c t => hkeep a _ c t) l (hdone a t))
        (each_settled hdone hkeep l (g a t).2)

theorem each_of_settled {δ : Type*} {g : γ → τ → δ × τ} {P : γ → β → Prop} {t : τ}
    (h : ∀ a b, P a b → (g a t).2 = t) :
    ∀ {l : List γ} {bs : List β}, List.Forall₂ P l bs → each g l t = (l.map fun a => (g a t).1, t)
  | [], _, _ => rfl
  | a :: l, _ :: _, .cons hab hl => by
    rw [each, h a _ hab, each_of_settled h hl]
    rfl

/-- Going through a list once more changes nothing if what was done for an item stays done. -/
theorem each_again {δ : Type*} {g : γ → τ → β × τ} {g' : γ → τ → δ × τ} {P : γ → β → τ → Prop}
    {R : β → δ → Prop}
    (hdone : ∀ a t, P a (g a t).1 (g a t).2) (hkeep : ∀ a b c t, P a b t → P a b (g c t).2)
    (hsame : ∀ a b t, P a b t → (g' a t).2 = t) (hans : ∀ a b t, P a b t → R b (g' a t).1)
    (l : List γ) (t : τ) :
    (each g' l (each g l t).2).2 = (each g l t).2 ∧ List.Forall₂ R (each g l t).1
    (each g' l (each g l t).2).1 := by
  have hset := each_settled hdone hkeep l t
  rw [each_of_settled (fun a b hab => hsame a b _ hab) hset]
  refine ⟨rfl, List.forall₂_map_right_iff.mpr ?_⟩
  exact hset.flip.imp fun b a hab => hans a b _ hab

end Each

namespace Prog

variable {C : Type} {A : C → Type} {α β γ σ τ : Type} {h : (c : C) → σ → A c × σ} {R : σ → τ → Prop}

/-- From related states, the function's answer and related states. -/
def Simulates (h : (c : C) → σ → A c × σ) (R : σ → τ → Prop) (x : Prog C A α)
    (f : τ → α × τ) : Prop :=
  ∀ s t, R s t → (x.run h s).1 = (f t).1 ∧ R (x.run h s).2 (f t).2

theorem simulates_pure (a : α) : Simulates h R (pure a : Prog C A α) fun t => (a, t) :=
  fun _ _ hR => ⟨rfl, hR⟩

theorem simulates_bind {x : Prog C A α} {k : α → Prog C A β} {f : τ → α × τ} {g : α → τ → β × τ}
    (hx : Simulates h R x f) (hk : ∀ a, Simulates h R (k a) (g a)) :
    Simulates h R (x >>= k) fun t => g (f t).1 (f t).2 := by
  intro s t hR
  obtain ⟨ha, hR'⟩ := hx s t hR
  rw [run_bind, ha]
  exact hk _ _ _ hR'

theorem simulates_map {x : Prog C A α} {f : τ → α × τ} (hx : Simulates h R x f) (k : α → β) :
    Simulates h R (x >>= fun a => pure (k a)) fun t => (k (f t).1, (f t).2) :=
  simulates_bind hx fun a => simulates_pure (k a)

/-- The items of a list, each by a program of its own. -/
def forEach (f : γ → Prog C A β) : List γ → Prog C A (List β)
  | [] => pure []
  | a :: l => do
    let b ← f a
    let bs ← forEach f l
    pure (b :: bs)

theorem simulates_forEach {f : γ → Prog C A β} {g : γ → τ → β × τ} :
    ∀ l : List γ, (∀ a ∈ l, Simulates h R (f a) (g a)) → Simulates h R (forEach f l) (each g l)
  | [], _ => simulates_pure []
  | a :: l, hf => simulates_bind (hf a List.mem_cons_self) fun b =>
      simulates_map (simulates_forEach l fun a ha => hf a (List.mem_cons_of_mem _ ha)) (b :: ·)

end Prog

section Lists

variable {α β : Type*} {R S : α → β → Prop}

theorem forall₂_map_of_mem {f : α → α} {g : β → β} : ∀ {l : List α} {l' : List β},
    List.Forall₂ R l l' →
    (∀ a ∈ l, ∀ b ∈ l', R a b → S (f a) (g b)) → List.Forall₂ S (l.map f) (l'.map g)
  | [], [], _, _ => .nil
  | a :: _, b :: _, .cons hab hl, hf =>
    .cons (hf a List.mem_cons_self b List.mem_cons_self hab) (forall₂_map_of_mem hl fun a ha b hb =>
      hf a (List.mem_cons_of_mem _ ha) b (List.mem_cons_of_mem _ hb))

theorem forall₂_filter_of_mem {p : α → Bool} {q : β → Bool} : ∀ {l : List α} {l' : List β},
    List.Forall₂ R l l' → (∀ a ∈ l, ∀ b ∈ l', R a b → p a = q b) → List.Forall₂ R (l.filter p)
      (l'.filter q)
  | [], [], _, _ => .nil
  | a :: l, b :: l', .cons hab hl, hp => by
    have ih := forall₂_filter_of_mem hl fun a ha b hb =>
      hp a (List.mem_cons_of_mem _ ha) b (List.mem_cons_of_mem _ hb)
    have he := hp a List.mem_cons_self b List.mem_cons_self hab
    rw [List.filter_cons, List.filter_cons, ← he]
    split
    · exact .cons hab ih
    · exact ih

end Lists

namespace Table

variable {ρ ρ' κ : Type*} [Keyed ρ κ] [Keyed ρ' κ]

/-- The rows are related one by one. -/
def Related (R : ρ → ρ' → Prop) (t : Table ρ) (t' : Table ρ') : Prop :=
  List.Forall₂ R t.rows t'.rows

namespace Related

variable {R : ρ → ρ' → Prop} {t : Table ρ} {t' : Table ρ'}

theorem empty : Related R (∅ : Table ρ) (∅ : Table ρ') := .nil

theorem mem_left (h : Related R t t') {r : ρ} (hr : r ∈ t) : ∃ r' ∈ t', R r r' := by
  obtain ⟨i, hi, rfl⟩ := List.mem_iff_getElem.mp hr
  have hi' : i < t'.rows.length := h.length_eq ▸ hi
  exact ⟨t'.rows[i], List.getElem_mem hi', h.get hi hi'⟩

theorem mem_right (h : Related R t t') {r' : ρ'} (hr : r' ∈ t') : ∃ r ∈ t, R r r' :=
  mem_left (R := fun r' r => R r r') h.flip hr

theorem select (h : Related R t t') {p : ρ → Bool} {p' : ρ' → Bool}
    (hp : ∀ r ∈ t, ∀ r' ∈ t', R r r' → p r = p' r') : List.Forall₂ R (t.select p) (t'.select p') :=
  forall₂_filter_of_mem h hp

theorem delete (h : Related R t t') {p : ρ → Bool} {p' : ρ' → Bool}
    (hp : ∀ r ∈ t, ∀ r' ∈ t', R r r' → p r = p' r') : Related R (t.delete p) (t'.delete p') :=
  forall₂_filter_of_mem h fun r hr r' hr' hR => by rw [hp r hr r' hr' hR]

theorem update (h : Related R t t') {p : ρ → Bool} {p' : ρ' → Bool} {f : ρ → ρ} {f' : ρ' → ρ'}
    (hf : ∀ r, key (f r) = key r) (hf' : ∀ r, key (f' r) = key r)
    (hp : ∀ r ∈ t, ∀ r' ∈ t', R r r' → p r = p' r')
    (hR : ∀ r ∈ t, ∀ r' ∈ t', R r r' → p r = true → R (f r) (f' r')) :
    Related R (t.update p f hf) (t'.update p' f' hf') := by
  refine forall₂_map_of_mem h fun r hr r' hr' hRr => ?_
  have he := hp r hr r' hr' hRr
  cases hpr : p r
  · rw [hpr] at he
    simpa [hpr, ← he] using hRr
  · rw [hpr] at he
    simpa [hpr, ← he] using hR r hr r' hr' hRr hpr

section Keys

variable [DecidableEq κ] (hkey : ∀ r r', R r r' → key r = key r') {k : κ}

include hkey in
theorem get?_left (h : Related R t t') {r : ρ} (hr : t.get? k = some r) : ∃ r', t'.get? k = some r'
    ∧ R r r' := by
  obtain ⟨hm, rfl⟩ := get?_eq_some.mp hr
  obtain ⟨r', hr', hR⟩ := h.mem_left hm
  exact ⟨r', get?_eq_some.mpr ⟨hr', (hkey r r' hR).symm⟩, hR⟩

include hkey in
theorem get?_none (h : Related R t t') (hn : t.get? k = none) : t'.get? k = none := by
  refine get?_eq_none.mpr fun r' hr' hk => ?_
  obtain ⟨r, hr, hR⟩ := h.mem_right hr'
  exact get?_eq_none.mp hn r hr ((hkey r r' hR).trans hk)

include hkey in
theorem insert (h : Related R t t') {r : ρ} {r' : ρ'} (hR : R r r') (hn : t.get? (key r) = none) :
    Related R (t.insert r) (t'.insert r') := by
  have hn' : t'.get? (key r') = none := hkey r r' hR ▸ h.get?_none hkey hn
  have hfree : key r ∉ t.rows.map key := fun hm => by
    obtain ⟨x, hx, hk⟩ := List.mem_map.mp hm
    exact get?_eq_none.mp hn x hx hk
  have hfree' : key r' ∉ t'.rows.map key := fun hm => by
    obtain ⟨x, hx, hk⟩ := List.mem_map.mp hm
    exact get?_eq_none.mp hn' x hx hk
  unfold Related Table.insert
  rw [dif_neg hfree, dif_neg hfree']
  exact List.rel_append h (.cons hR .nil)

end Keys

end Related

section OneByOne

variable [DecidableEq κ] {t : Table ρ} {q : ρ → Bool} {f : ρ → ρ} {hf : ∀ r, key (f r) = key r}

/-- The rows of a list of keys, changed one after the other: for a row that comes up again the
change is the same. -/
theorem update_each (hff : ∀ r, f (f r) = f r) : ∀ (ks : List κ) (t : Table ρ),
    (each (fun k t => ((t.get? k).any q, t.update (fun r => key r = k && q r) f hf)) ks t).2
      = t.update (fun r => key r ∈ ks && q r) f hf
  | [], t => by simp [each, update_of_forall_not]
  | k :: ks, t => by
    rw [each, update_each hff ks]
    refine eq_of_rows ?_
    simp only [update, List.map_map]
    refine List.map_congr_left fun r _ => ?_
    simp only [Function.comp_apply, List.mem_cons]
    by_cases hk : key r = k
    · by_cases hqr : q r = true
      · by_cases hqf : q (f r) = true
        · simp [hk, hqr, hf, hqf, hff]
        · simp [hk, hqr, hf, hqf]
      · simp [hk, hqr]
    · simp [hk]

/-- A row is counted as the row of `k`, or as one of the others. -/
theorem length_select_cons (t : Table ρ) (k : κ) (ks : List κ) :
    (t.select fun r => key r ∈ k :: ks && q r).length
    = (t.select fun r => key r ∈ ks && q r && key r ≠ k).length + if (t.get? k).any q then
      1 else 0 := by
  rw [← length_select_key, Nat.add_comm]
  simp only [select, ← List.countP_eq_length_filter]
  rw [List.countP_eq_countP_filter_add t.rows _ fun r => key r = k, List.countP_filter,
      List.countP_filter]
  congr 1 <;> refine List.countP_congr fun r _ => ?_
  · by_cases hk : key r = k <;> simp [hk]
  · by_cases hk : key r = k <;> simp [hk]

/-- Each row is counted once if what is done for a key leaves the other rows, and its own counts no
more. -/
theorem count_each_of {g : κ → Table ρ → Bool × Table ρ}
    (hans : ∀ k t, (g k t).1 = (t.get? k).any q)
    (hleft : ∀ k (ks : List κ) t, ((g k t).2.select fun r => key r ∈ ks && q r).length
      = (t.select fun r => key r ∈ ks && q r && key r ≠ k).length) :
    ∀ (ks : List κ) (t : Table ρ), (each g ks t).1.count true = (t.select fun r =>
      key r ∈ ks && q r).length
  | [], t => by simp [each, select]
  | k :: ks, t => by
    rw [each, List.count_cons, count_each_of hans hleft ks, hleft, length_select_cons,
        hans, beq_true]

theorem count_each (hq : ∀ r, q r = true → q (f r) = false) (ks : List κ) (t : Table ρ) :
    (each (fun k t => ((t.get? k).any q, t.update (fun r => key r = k && q r) f hf)) ks
      t).1.count true
      = (t.select fun r => key r ∈ ks && q r).length := by
  refine count_each_of (fun _ _ => rfl) (fun k ks t => ?_) ks t
  simp only [select, ← List.countP_eq_length_filter, update, List.countP_map]
  refine List.countP_congr fun r _ => ?_
  by_cases hk : key r = k
  · cases hqr : q r
    · simp [hk, hqr]
    · simp [hk, hqr, hq r hqr]
  · simp [hk]

theorem delete_each : ∀ (ks : List κ) (t : Table ρ),
    (each (fun k t => ((t.get? k).any q, t.delete fun r => key r = k && q r)) ks t).2
      = t.delete fun r => key r ∈ ks && q r
  | [], t => by simp [each, delete_of_forall_not]
  | k :: ks, t => by
    rw [each, delete_each ks, delete_delete]
    congr 1
    funext r
    simp only [← Bool.and_or_distrib_right, List.mem_cons, Bool.decide_or]

theorem count_each_delete (ks : List κ) (t : Table ρ) :
    (each (fun k t => ((t.get? k).any q, t.delete fun r => key r = k && q r)) ks t).1.count true
      = (t.select fun r => key r ∈ ks && q r).length := by
  refine count_each_of (fun _ _ => rfl) (fun k ks t => ?_) ks t
  simp only [select, ← List.countP_eq_length_filter, delete, List.countP_filter]
  refine List.countP_congr fun r _ => ?_
  cases q r <;> simp [and_comm]

variable {p q : ρ → Bool}

theorem mem_keys_select (hpq : ∀ r, p r = true → q r = true) {r : ρ} (hr : r ∈ t) :
    (decide (key r ∈ (t.select p).map key) && q r) = p r := by
  cases hp : p r
  · have hk : key r ∉ (t.select p).map key := fun hk => by
      obtain ⟨r', hr', he⟩ := List.mem_map.mp hk
      obtain ⟨hr', hp'⟩ := mem_select.mp hr'
      rw [eq_of_key hr' hr he, hp] at hp'
      cases hp'
    rw [decide_eq_false hk, Bool.false_and]
  · rw [hpq r hp, Bool.and_true,
      decide_eq_true (List.mem_map.mpr ⟨r, mem_select.mpr ⟨hr, hp⟩, rfl⟩)]

theorem update_select (hpq : ∀ r, p r = true → q r = true) :
    t.update (fun r => key r ∈ (t.select p).map key && q r) f hf = t.update p f hf :=
  update_congr fun r hr => by
    have he := mem_keys_select hpq hr
    simp only [he]

theorem delete_select (hpq : ∀ r, p r = true → q r = true) :
    (t.delete fun r => key r ∈ (t.select p).map key && q r) = t.delete p := by
  refine eq_of_rows (List.filter_congr fun r hr => ?_)
  have he := mem_keys_select hpq hr
  simp only [he]

theorem select_select (hpq : ∀ r, p r = true → q r = true) :
    (t.select fun r => key r ∈ (t.select p).map key && q r) = t.select p :=
  List.filter_congr fun _ hr => mem_keys_select hpq hr

end OneByOne

end Table

end Txn
