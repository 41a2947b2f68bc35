import Mathlib.Data.Nat.Notation
import Mathlib.Order.Defs.Unbundled

/-!
# Programs over an interface

A program that talks to a service is a tree of calls: it ends with a value, or makes a call and
goes on with the answer. The same program runs to its end against one state, or step by step with
others in between; what the service does is a handler.

`Ensures` is partial correctness of a whole run, with one rule for each way a program is built.
-/

namespace Txn

/-- A program, by its calls and what it does with the answers. -/
inductive Prog (C : Type) (A : C → Type) (α : Type) where
  | done (a : α)
  | call (c : C) (k : A c → Prog C A α)

namespace Prog

variable {C : Type} {A : C → Type} {α β σ : Type}

protected def bind : Prog C A α → (α → Prog C A β) → Prog C A β
  | done a, f => f a
  | call c k, f => call c fun a => (k a).bind f

instance : Monad (Prog C A) where
  pure := done
  bind := Prog.bind

/-- Make one call and return its answer. -/
def ask (c : C) : Prog C A (A c) := call c done

/-- Run to the end against a state. -/
def run (h : (c : C) → σ → A c × σ) : Prog C A α → σ → α × σ
  | done a, s => (a, s)
  | call c k, s => run h (k (h c s).1) (h c s).2

variable {h : (c : C) → σ → A c × σ}

theorem run_bind : ∀ (x : Prog C A α) (f : α → Prog C A β) (s : σ),
    (x >>= f).run h s = (f (x.run h s).1).run h (x.run h s).2
  | done _, _, _ => rfl
  | call c k, f, s => run_bind (k (h c s).1) f (h c s).2

/-- From a state in `P`, a run ends with a value and a state in `Q`. -/
def Ensures (h : (c : C) → σ → A c × σ) (P : σ → Prop) (x : Prog C A α) (Q : α → σ → Prop) : Prop :=
  ∀ s, P s → Q (x.run h s).1 (x.run h s).2

variable {P : σ → Prop}

theorem ensures_done {a : α} {Q : α → σ → Prop} (hq : ∀ s, P s → Q a s) :
    Ensures h P (done a) Q := hq

theorem ensures_bind {x : Prog C A α} {f : α → Prog C A β} {R : α → σ → Prop} {Q : β → σ → Prop}
    (hx : Ensures h P x R) (hf : ∀ a, Ensures h (R a) (f a) Q) : Ensures h P (x >>= f) Q := by
  intro s hs
  rw [run_bind]
  exact hf _ _ (hx s hs)

theorem ensures_weaken {x : Prog C A α} {P' : σ → Prop} {Q Q' : α → σ → Prop}
    (hx : Ensures h P x Q) (hp : ∀ s, P' s → P s) (hq : ∀ a s, Q a s → Q' a s) :
    Ensures h P' x Q' := fun s hs => hq _ _ (hx s (hp s hs))

/-- Whatever the answers, every call the program makes meets `P`. -/
def Only (P : C → Prop) : Prog C A α → Prop
  | done _ => True
  | call c k => P c ∧ ∀ a, Only P (k a)

theorem only_bind {P : C → Prop} {f : α → Prog C A β} (hf : ∀ a, Only P (f a)) :
    ∀ x : Prog C A α, Only P x → Only P (x >>= f)
  | done a, _ => hf a
  | call _ k, hx => ⟨hx.1, fun a => only_bind hf (k a) (hx.2 a)⟩

theorem Only.mono {P Q : C → Prop} (hPQ : ∀ c, P c → Q c) : ∀ {x : Prog C A α}, Only P x → Only Q x
  | done _, _ => trivial
  | call c _, hx => ⟨hPQ c hx.1, fun a => (hx.2 a).mono hPQ⟩

/-- A run moves the state along what its calls move it along. -/
theorem Only.run {P : C → Prop} {R : σ → σ → Prop} [IsPreorder σ R]
    (hR : ∀ c, P c → ∀ s, R s (h c s).2) : ∀ (x : Prog C A α), Only P x → ∀ s, R s (x.run h s).2
  | done _, _, s => refl_of R s
  | call c k, hx, s => trans_of R (hR c hx.1 s) (Only.run hR (k (h c s).1) (hx.2 _) (h c s).2)

theorem Only.invariant {P : C → Prop} {I : σ → Prop} (hI : ∀ c, P c → ∀ s, I s → I (h c s).2) :
    ∀ {x : Prog C A α}, Only P x → ∀ {s}, I s → I (x.run h s).2
  | done _, _, _, hs => hs
  | call c _, hx, s, hs => (hx.2 _).invariant hI (hI c hx.1 s hs)

/-- The calls, each with the state it is made in. -/
def calls (h : (c : C) → σ → A c × σ) : Prog C A α → σ → List (C × σ)
  | done _, _ => []
  | call c k, s => (c, s) :: calls h (k (h c s).1) (h c s).2

theorem calls_bind : ∀ (x : Prog C A α) (f : α → Prog C A β) (s : σ),
    (x >>= f).calls h s = x.calls h s ++ (f (x.run h s).1).calls h (x.run h s).2
  | done _, _, _ => rfl
  | call c k, f, s => congrArg ((c, s) :: ·) (calls_bind (k (h c s).1) f (h c s).2)

theorem Only.calls {P : C → Prop} : ∀ {x : Prog C A α}, Only P x → ∀ s, ∀ cs ∈ x.calls h s, P cs.1
  | done _, _, _, _, hcs => absurd hcs List.not_mem_nil
  | call c k, hx, s, cs, hcs => by
    rcases List.mem_cons.mp hcs with rfl | hcs
    · exact hx.1
    · exact (hx.2 _).calls _ cs hcs

section Ghost

variable {τ : Type} {h' : (c : C) → τ → A c × τ} {f : τ → σ}

/-- A handler that carries more state and answers as another does runs every program as that
does. -/
theorem run_ghost (hf : ∀ c t, h c (f t) = ((h' c t).1, f (h' c t).2)) : ∀ (x : Prog C A α) (t : τ),
    x.run h (f t) = ((x.run h' t).1, f (x.run h' t).2)
  | done _, _ => rfl
  | call c k, t => by
    unfold run
    rw [hf c t]
    exact run_ghost hf (k (h' c t).1) (h' c t).2

theorem calls_ghost (hf : ∀ c t, h c (f t) = ((h' c t).1, f (h' c t).2)) :
    ∀ (x : Prog C A α) (t : τ),
    x.calls h (f t) = (x.calls h' t).map fun ct => (ct.1, f ct.2)
  | done _, _ => rfl
  | call c k, t => by
    unfold calls
    rw [hf c t, List.map_cons]
    exact congrArg ((c, f t) :: ·) (calls_ghost hf (k (h' c t).1) (h' c t).2)

end Ghost

section Fails

variable {ε : Type}

/-- An error ends the program: nothing of the continuation runs. -/
theorem run_except_bind (x : ExceptT ε (Prog C A) α) (f : α → ExceptT ε (Prog C A) β) (s : σ) :
    (x >>= f).run.run h s = match x.run.run h s with
      | (.ok a, s') => (f a).run.run h s'
      | (.error e, s') => (.error e, s') := by
  refine (run_bind x.run _ s).trans ?_
  rcases x.run.run h s with ⟨e | a, s'⟩ <;> rfl

theorem calls_except_bind (x : ExceptT ε (Prog C A) α) (f : α → ExceptT ε (Prog C A) β) (s : σ) :
    (x >>= f).run.calls h s = x.run.calls h s ++ match x.run.run h s with
      | (.ok a, s') => (f a).run.calls h s'
      | (.error _, _) => [] := by
  refine (calls_bind x.run _ s).trans ?_
  rcases x.run.run h s with ⟨e | a, s'⟩ <;> rfl

theorem run_lift (x : Prog C A α) (s : σ) :
    (ExceptT.lift x : ExceptT ε (Prog C A) α).run.run h s = (.ok (x.run h s).1, (x.run h s).2) :=
  run_bind x (fun a => done (Except.ok a)) s

theorem calls_lift (x : Prog C A α) (s : σ) :
    (ExceptT.lift x : ExceptT ε (Prog C A) α).run.calls h s = x.calls h s :=
  (calls_bind x (fun a => done (Except.ok (ε := ε) a)) s).trans (List.append_nil _)

theorem ensures_except_bind {x : ExceptT ε (Prog C A) α} {f : α → ExceptT ε (Prog C A) β}
    {R : α → σ → Prop} {Q : Except ε β → σ → Prop}
    (hx : Ensures h P x.run fun r s => match r with
      | .ok a => R a s
      | .error e => Q (.error e) s)
    (hf : ∀ a, Ensures h (R a) (f a).run Q) : Ensures h P (x >>= f).run Q := by
  refine ensures_bind hx fun r => ?_
  rcases r with e | a
  · exact ensures_done fun _ hs => hs
  · exact hf a

theorem only_except_bind {P : C → Prop} {x : ExceptT ε (Prog C A) α}
    {f : α → ExceptT ε (Prog C A) β} (hx : Only P x.run) (hf : ∀ a, Only P (f a).run) :
    Only P (x >>= f).run := by
  refine only_bind (fun r => ?_) x.run hx
  rcases r with e | a
  · trivial
  · exact hf a

def Fails : Prog C A (Except ε α) → Prop
  | done r => ∃ e, r = .error e
  | call _ k => ∀ a, Fails (k a)

/-- Every call meets `P`, and after an answer in `bad` the program can only fail. -/
def Strict (P : C → Prop) (bad : (c : C) → A c → Prop) : Prog C A (Except ε α) → Prop
  | done _ => True
  | call c k => P c ∧ ∀ a, (bad c a → Fails (k a)) ∧ Strict P bad (k a)

theorem fails_bind {f : α → Prog C A (Except ε β)} (hf : ∀ a, Fails (f a)) : ∀ x : Prog C A α,
    Fails (x >>= f)
  | done a => hf a
  | call _ k => fun a => fails_bind hf (k a)

theorem Fails.bind {f : Except ε α → Prog C A (Except ε β)} (hf : ∀ e, Fails (f (.error e))) :
    ∀ {x : Prog C A (Except ε α)}, Fails x → Fails (x >>= f)
  | done _, ⟨e, he⟩ => he ▸ hf e
  | call _ _, hx => fun a => (hx a).bind hf

theorem Fails.run : ∀ {x : Prog C A (Except ε α)}, Fails x → ∀ s, ∃ e, (x.run h s).1 = .error e
  | done _, hx, _ => hx
  | call _ _, hx, _ => (hx _).run _

variable {Q : C → Prop} {bad : (c : C) → A c → Prop}

theorem Fails.strict : ∀ {x : Prog C A (Except ε α)}, Fails x → Only Q x → Strict Q bad x
  | done _, _, _ => trivial
  | call _ _, hx, ho => ⟨ho.1, fun a => ⟨fun _ => hx a, (hx a).strict (ho.2 a)⟩⟩

theorem Strict.only : ∀ {x : Prog C A (Except ε α)}, Strict Q bad x → Only Q x
  | done _, _ => trivial
  | call _ _, hx => ⟨hx.1, fun a => (hx.2 a).2.only⟩

theorem Strict.mono {Q' : C → Prop} (hQ : ∀ c, Q c → Q' c) : ∀ {x : Prog C A (Except ε α)},
    Strict Q bad x → Strict Q' bad x
  | done _, _ => trivial
  | call c _, hx => ⟨hQ c hx.1, fun a => ⟨(hx.2 a).1, (hx.2 a).2.mono hQ⟩⟩

theorem Strict.bind {f : Except ε α → Prog C A (Except ε β)} (hok : ∀ a, Strict Q bad (f (.ok a)))
    (herr : ∀ e, Fails (f (.error e)) ∧ Strict Q bad (f (.error e))) :
    ∀ {x : Prog C A (Except ε α)}, Strict Q bad x → Strict Q bad (x >>= f)
  | done (.ok a), _ => hok a
  | done (.error e), _ => (herr e).2
  | call _ _, hx => ⟨hx.1, fun a =>
    ⟨fun hb => ((hx.2 a).1 hb).bind fun e => (herr e).1, (hx.2 a).2.bind hok herr⟩⟩

theorem strict_except_bind {x : ExceptT ε (Prog C A) α} {f : α → ExceptT ε (Prog C A) β}
    (hx : Strict Q bad x.run) (hf : ∀ a, Strict Q bad (f a).run) : Strict Q bad (x >>= f).run :=
  Strict.bind (f := ExceptT.bindCont f) hf (fun e => ⟨⟨e, rfl⟩, trivial⟩) hx

theorem lift_bind (f : α → ExceptT ε (Prog C A) β) : ∀ x : Prog C A α,
    (ExceptT.lift x >>= f : ExceptT ε (Prog C A) β).run = x >>= fun a => (f a).run
  | done _ => rfl
  | call c k => congrArg (call c) (funext fun a => lift_bind f (k a))

/-- A run that succeeds has met no bad answer. -/
theorem Strict.run_ok {I : σ → Prop} (hI : ∀ c, Q c → ∀ s, ¬bad c (h c s).1 → I s → I (h c s).2) :
    ∀ {x : Prog C A (Except ε α)}, Strict Q bad x → ∀ {s a}, (x.run h s).1 = .ok a → I s →
      I (x.run h s).2
  | done _, _, _, _, _, hs => hs
  | call c k, hx, s, a, hrun, hs => by
    refine (hx.2 _).2.run_ok hI hrun (hI c hx.1 s (fun hb => ?_) hs)
    obtain ⟨e, he⟩ := ((hx.2 _).1 hb).run (h := h) (h c s).2
    cases he.symm.trans hrun

end Fails

/-- Two handlers that answer alike from related states run a program alike. -/
theorem Only.run_related {τ : Type} {P : C → Prop} {h' : (c : C) → τ → A c × τ} {R : σ → τ → Prop}
    (hR : ∀ c, P c → ∀ s t, R s t → (h c s).1 = (h' c t).1 ∧ R (h c s).2 (h' c t).2) :
    ∀ {x : Prog C A α}, Only P x → ∀ {s t}, R s t → (x.run h s).1 = (x.run h' t).1 ∧ R (x.run h s).2
      (x.run h' t).2
  | done _, _, _, _, hs => ⟨rfl, hs⟩
  | call c k, hx, s, t, hs => by
    obtain ⟨ha, hs'⟩ := hR c hx.1 s t hs
    unfold Prog.run
    rw [ha]
    exact (hx.2 _).run_related hR hs'

end Prog

end Txn
