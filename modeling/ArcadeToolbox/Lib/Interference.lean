import ArcadeToolbox.Lib.Simulation

/-!
# Programs among others

Before each call of a program, others may have made a move. The moves are a list, with one for each
call as long as it lasts, and every interleaving is such a list. What is known of the state between
two calls has to be stable under the others' moves; apart from this the rules of `EnsuresAmid` are
those of a program that runs alone.
-/

namespace Txn.Prog

variable {C : Type} {A : C → Type} {α β γ σ E : Type} {h : (c : C) → σ → A c × σ} {act : E → σ → σ}

/-- The state that the next call meets. -/
def met (act : E → σ → σ) (st : σ × List E) : σ := st.2.head?.elim st.1 fun e => act e st.1

/-- A call that others come between. -/
def amid (h : (c : C) → σ → A c × σ) (act : E → σ → σ) (c : C) (st : σ × List E) :
    A c × σ × List E :=
  ((h c (met act st)).1, (h c (met act st)).2, st.2.tail)

/-- What the others have yet to do is part of what they had to do at first. -/
theorem moves_run : ∀ (x : Prog C A α) (st : σ × List E), (x.run (amid h act) st).2.2 ⊆ st.2
  | done _, _ => List.Subset.refl _
  | call c k, st =>
    fun _ he => List.mem_of_mem_tail (moves_run (k (amid h act c st).1) (amid h act c st).2 he)

/-- The calls of a run among others, each with the state that it meets. -/
def arrivals (h : (c : C) → σ → A c × σ) (act : E → σ → σ) (x : Prog C A α) (st : σ × List E) :
    List (C × σ) :=
  (x.calls (amid h act) st).map fun cs => (cs.1, met act cs.2)

theorem arrivals_bind (x : Prog C A α) (f : α → Prog C A β) (st : σ × List E) :
    arrivals h act (x >>= f) st
      = arrivals h act x st ++ arrivals h act (f (x.run (amid h act) st).1)
        (x.run (amid h act) st).2 := by
  rw [arrivals, calls_bind, List.map_append]
  rfl

/-- Among others whose moves are in `Φ`, if each call is `ok` in the state that it meets: from a
state in `P` a run ends with a value and a state in `Q`. -/
def EnsuresAmid (h : (c : C) → σ → A c × σ) (act : E → σ → σ) (Φ : E → Prop) (ok : C → σ → Prop)
    (P : σ → Prop)
    (x : Prog C A α) (Q : α → σ → Prop) : Prop :=
  ∀ st : σ × List E, P st.1 → (∀ e ∈ st.2, Φ e) → (∀ cs ∈ arrivals h act x st, ok cs.1 cs.2) →
    Q (x.run (amid h act) st).1 (x.run (amid h act) st).2.1

variable {Φ : E → Prop} {ok : C → σ → Prop} {P : σ → Prop}

theorem ensuresAmid_done {a : α} {Q : α → σ → Prop} (hq : ∀ s, P s → Q a s) :
    EnsuresAmid h act Φ ok P (done a) Q :=
  fun st hs _ _ => hq st.1 hs

theorem ensuresAmid_bind {x : Prog C A α} {f : α → Prog C A β} {R : α → σ → Prop} {Q : β → σ → Prop}
    (hx : EnsuresAmid h act Φ ok P x R) (hf : ∀ a, EnsuresAmid h act Φ ok (R a) (f a) Q) :
    EnsuresAmid h act Φ ok P (x >>= f) Q := by
  intro st hs hmoves hok
  rw [arrivals_bind] at hok
  rw [run_bind]
  refine hf _ _ (hx st hs hmoves fun cs hcs => hok cs (List.mem_append_left _ hcs)) (fun e he =>
      ?_) fun cs hcs => ?_
  · exact hmoves e (moves_run x st he)
  · exact hok cs (List.mem_append_right _ hcs)

/-- The others move, then the call is carried out. -/
theorem ensuresAmid_ask {c : C} {Q : A c → σ → Prop} (hstable : ∀ e, Φ e → ∀ s, P s → P (act e s))
    (hc : ∀ s, P s → ok c s → Q (h c s).1 (h c s).2) : EnsuresAmid h act Φ ok P (ask c) Q := by
  intro st hs hmoves hok
  have hmet : P (met act st) := by
    obtain ⟨s, _ | ⟨e, es⟩⟩ := st
    · exact hs
    · exact hstable e (hmoves e List.mem_cons_self) s hs
  exact hc _ hmet (hok (c, met act st) List.mem_cons_self)

theorem ensuresAmid_weaken {x : Prog C A α} {P' : σ → Prop} {Q Q' : α → σ → Prop}
    (hx : EnsuresAmid h act Φ ok P x Q) (hp : ∀ s, P' s → P s) (hq : ∀ a s, Q a s → Q' a s) :
    EnsuresAmid h act Φ ok P' x Q' :=
  fun st hs hmoves hok => hq _ _ (hx st (hp _ hs) hmoves hok)

theorem ensuresAmid_forEach {f : γ → Prog C A β} {I : List γ → σ → Prop}
    (hf : ∀ a l, EnsuresAmid h act Φ ok (I (a :: l)) (f a) fun _ => I l) :
    ∀ l, EnsuresAmid h act Φ ok (I l) (forEach f l) fun _ => I []
  | [] => ensuresAmid_done fun _ hs => hs
  | a :: l => ensuresAmid_bind (hf a l) fun _ =>
      ensuresAmid_bind (ensuresAmid_forEach hf l) fun _ => ensuresAmid_done fun _ hs => hs

end Txn.Prog
