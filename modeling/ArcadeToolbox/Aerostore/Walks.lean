import ArcadeToolbox.Aerostore.Claims
import Mathlib.Data.Nat.Log

/-!
# Which buckets a claim walks through

A claim asks for candidates key by key. All of them are keys of its scope, and a claim has asked for
the key of every value that it could have taken unless it has found enough coins or lost too many
races on the way.
-/

namespace ArcadeToolbox.Aerostore

open Txn Prog Store

theorem bucketOf_mono : Monotone bucketOf := by
  have heq : bucketOf = Nat.log 2 := by
    funext n
    unfold bucketOf
    split_ifs with h
    · simp [h]
    · exact Nat.log2_eq_log_two
  rw [heq]
  exact Nat.log_monotone

theorem bucketOf_lt {sats : ℕ} (h : sats < 2 ^ 64) : bucketOf sats < bucketCount := by
  unfold bucketOf bucketCount
  split_ifs with h0
  · decide
  · exact (Nat.log2_lt h0).mpr h

/-- The buckets that the claim with the bound walks through. -/
def Bound.buckets : Bound → List ℕ
  | .atLeast n => (List.range bucketCount).drop (bucketOf n)
  | .below n => if n = 0 then [] else (List.range (bucketOf (n - 1) + 1)).reverse
  | .exactly n => [bucketOf n]

theorem Bound.mem_buckets {bound : Bound} {sats : ℕ} (hlt : sats < 2 ^ 64)
    (h : bound.pred sats = true) :
    bucketOf sats ∈ bound.buckets := by
  cases bound with
  | atLeast n =>
    have hle : bucketOf n ≤ bucketOf sats := bucketOf_mono (of_decide_eq_true h)
    have hb := bucketOf_lt hlt
    refine List.mem_drop_iff_getElem.mpr ⟨bucketOf sats - bucketOf n, by simp; omega, ?_⟩
    rw [List.getElem_range, Nat.add_sub_cancel' hle]
  | below n =>
    have hn : sats < n := of_decide_eq_true h
    have hle : bucketOf sats ≤ bucketOf (n - 1) := bucketOf_mono (by omega)
    rw [Bound.buckets, if_neg (by omega), List.mem_reverse, List.mem_range]
    omega
  | exactly n =>
    rw [show sats = n from of_decide_eq_true h]
    exact List.mem_singleton_self _

variable {α : Type} {sc : Scope} {bound : Bound} {k claimKey : String} {R : Token} {now : Time}

/-- A request for candidates is one for a key of the scope. -/
def OfScope (sc : Scope) : Call → Prop
  | .claimCands k _ _ => ∃ bucket, k = claimKeyFor sc.userID sc.basket sc.tier bucket
  | _ => True

theorem only_ite {P : Call → Prop} {p : Prop} [Decidable p] {x y : Method α} (hx : Only P x)
    (hy : Only P y) :
    Only P (if p then x else y) := by
  split_ifs
  · exact hx
  · exact hy

theorem only_reserve (c : Record) : Only (OfScope sc) (reserve claimKey R now c) := by
  refine only_bind (fun r => ?_) _ ⟨trivial, fun _ => trivial⟩
  cases r <;> trivial

theorem only_reserveFirst : ∀ (cs : List Record) (losses : ℕ),
    Only (OfScope sc) (reserveFirst claimKey R now cs losses)
  | [], _ => trivial
  | c :: cs, losses => by
    refine only_bind (fun r => ?_) _ (only_reserve c)
    cases r with
    | none => exact only_ite trivial (only_reserveFirst cs (losses + 1))
    | some u => trivial

theorem only_reserveCands {limit : ℕ} {budget : Option ℕ} :
    ∀ (cs : List Record) (claimed : List Utxo) (losses : ℕ),
    Only (OfScope sc) (reserveCands claimKey R now limit budget cs claimed losses)
  | [], _, _ => trivial
  | c :: cs, claimed, losses => by
    refine only_ite trivial (only_bind (fun r => ?_) _ (only_reserve c))
    cases r with
    | none => exact only_ite trivial (only_reserveCands cs claimed (losses + 1))
    | some u => exact only_reserveCands cs _ losses

theorem only_searchBucket (hk : OfScope sc (.claimCands claimKey bound 1)) :
    ∀ n losses : ℕ, Only (OfScope sc) (searchBucket claimKey bound R now n losses)
  | 0, _ => trivial
  | n + 1, losses => by
    refine only_bind (fun cands => ?_) _ ⟨hk, fun _ => trivial⟩
    refine only_ite trivial (only_bind (fun r => ?_) _ (only_reserveFirst cands losses))
    cases r with
    | lost losses => exact only_searchBucket hk n losses
    | _ => trivial

theorem only_drainBucket (hk : OfScope sc (.claimCands claimKey bound 1)) {limit : ℕ}
    {budget : Option ℕ} :
    ∀ (n : ℕ) (claimed : List Utxo) (losses : ℕ),
      Only (OfScope sc) (drainBucket claimKey bound R now limit budget n claimed losses)
  | 0, _, _ => trivial
  | n + 1, claimed, losses => by
    refine only_ite trivial (only_bind (fun cands => ?_) _ ⟨hk, fun _ => trivial⟩)
    refine only_ite trivial (only_bind (fun r => ?_) _ (only_reserveCands cands claimed losses))
    rcases r with _ | ⟨claimed', losses'⟩
    · trivial
    · exact only_ite trivial (only_drainBucket hk n claimed' losses')

theorem only_walkUp : ∀ (bs : List ℕ) (losses : ℕ),
    Only (OfScope sc) (walkUp sc bound R now bs losses)
  | [], _ => trivial
  | b :: bs, losses => by
    refine only_bind (fun r => ?_) _ (only_searchBucket ⟨b, rfl⟩ casBudget losses)
    cases r with
    | lost losses => exact only_walkUp bs losses
    | _ => trivial

theorem only_walkDown {limit : ℕ} : ∀ (bs : List ℕ) (claimed : List Utxo) (losses : ℕ),
    Only (OfScope sc) (walkDown sc bound R now limit bs claimed losses)
  | [], _, _ => trivial
  | b :: bs, claimed, losses => by
    refine only_ite trivial (only_bind (fun r =>
        ?_) _ (only_drainBucket ⟨b, rfl⟩ limit claimed losses))
    rcases r with _ | ⟨claimed', losses'⟩
    · trivial
    · exact only_walkDown bs claimed' losses'

section Requests

variable {σ : Type}

/-- Candidates of the key were asked for. -/
def Asked (k : String) (bound : Bound) (cs : List (Call × σ)) : Prop :=
  ∃ want t, (.claimCands k bound want, t) ∈ cs

/-- It was tried to reserve the coin. -/
def Tried (R : Token) (now : Time) (u : Utxo) (cs : List (Call × σ)) : Prop :=
  ∃ k t, (.server (.operate u.outpoint (.reserve k R now)), t) ∈ cs

def Call.reserves : Call → Bool
  | .server (.operate _ (.reserve _ _ _)) => true
  | _ => false

/-- How often it was tried to reserve a coin. -/
def tries (cs : List (Call × σ)) : ℕ := cs.countP fun c => c.1.reserves

variable {cs ds : List (Call × σ)} {u : Utxo}

theorem Asked.append_left (hk : Asked k bound cs) : Asked k bound (cs ++ ds) :=
  hk.imp fun _ ht => ht.imp fun _ => List.mem_append_left ds

theorem Asked.append_right (hk : Asked k bound ds) : Asked k bound (cs ++ ds) :=
  hk.imp fun _ ht => ht.imp fun _ => List.mem_append_right cs

theorem Tried.append_left (hu : Tried R now u cs) : Tried R now u (cs ++ ds) :=
  hu.imp fun _ ht => ht.imp fun _ => List.mem_append_left ds

theorem Tried.append_right (hu : Tried R now u ds) : Tried R now u (cs ++ ds) :=
  hu.imp fun _ ht => ht.imp fun _ => List.mem_append_right cs

theorem tries_append : tries (cs ++ ds) = tries cs + tries ds := List.countP_append

end Requests

/-- A claim walks: it asks for keys of its scope and returns coins that it has reserved. It comes to
the key of every value that meets the bound, unless it has enough coins, is refused, or has lost as
many races as it bears. -/
structure Walks (sc : Scope) (bound : Bound) (R : Token) (now : Time)
    (x : Method (Except UtxoErr α))
    (coins : α → List Utxo) (enough : α → Prop) : Prop where
  own : Only (OfScope sc) x
  taken : ∀ (σ : Type) (h : (c : Call) → σ → c.Answer × σ) (s : σ) (a : α), (x.run h s).1 = .ok a →
    ∀ u ∈ coins a, Tried R now u (x.calls h s)
  all : ∀ (σ : Type) (h : (c : Call) → σ → c.Answer × σ) (s : σ),
    (∃ a, (x.run h s).1 = .ok a ∧ enough a)
        ∨ (∃ e, validateClaim sc R = some e ∧ (x.run h s).1 = .error e)
      ∨ ((x.run h s).1 = .error .contention ∧ casBudget ≤ tries (x.calls h s))
      ∨ ∀ sats < 2 ^ 64, bound.pred sats = true →
        Asked (claimKeyFor sc.userID sc.basket sc.tier (bucketOf sats)) bound (x.calls h s)

section Walk

variable {σ : Type} {h : (c : Call) → σ → c.Answer × σ}

/-- One request; the coin is the one that was tried. -/
theorem reserve_spec (claimKey : String) (R : Token) (now : Time)
    (h : (c : Call) → σ → c.Answer × σ) (c : Record)
    (s : σ) : tries ((reserve claimKey R now c).calls h s) = 1
    ∧ ∀ u ∈ ((reserve claimKey R now c).run h s).1, Tried R now u
      ((reserve claimKey R now c).calls h s) := by
  unfold reserve
  rw [calls_bind, run_bind]
  rcases ((operate c.outpoint (.reserve claimKey R now)).run h s).1 with _ | _ | _
  · refine ⟨rfl, ?_⟩
    rintro _ ⟨⟩
    exact ⟨claimKey, s, List.mem_cons_self⟩
  · exact ⟨rfl, nofun⟩
  · exact ⟨rfl, nofun⟩

/-- What the search for one coin has done when it ends so, with so many races lost before. -/
def SearchOf (R : Token) (now : Time) (losses : ℕ) (cs : List (Call × σ)) : Search → Prop
  | .won u => Tried R now u cs
  | .contention => casBudget ≤ losses + tries cs
  | .lost losses' => losses' ≤ losses + tries cs

theorem SearchOf.prepend {r : Search} {losses losses' : ℕ} {cs ds : List (Call × σ)}
    (hr : SearchOf R now losses' ds r) (hle : losses' ≤ losses + tries cs) :
    SearchOf R now losses (cs ++ ds) r := by
  cases r with
  | won u => exact Tried.append_right hr
  | _ =>
    simp only [SearchOf, tries_append] at hr ⊢
    omega

theorem SearchOf.append {r : Search} {losses : ℕ} {cs ds : List (Call × σ)}
    (hr : SearchOf R now losses cs r) :
    SearchOf R now losses (cs ++ ds) r := by
  cases r with
  | won u => exact Tried.append_left hr
  | _ =>
    simp only [SearchOf, tries_append] at hr ⊢
    omega

theorem of_reserveFirst (claimKey : String) (R : Token) (now : Time)
    (h : (c : Call) → σ → c.Answer × σ) :
    ∀ (cands : List Record) (losses : ℕ) (s : σ),
    SearchOf R now losses ((reserveFirst claimKey R now cands losses).calls h s)
      ((reserveFirst claimKey R now cands losses).run h s).1
    ∧ ∀ losses', ((reserveFirst claimKey R now cands losses).run h s).1 = .lost losses' →
      losses + cands.length ≤ losses'
  | [], losses, s => ⟨Nat.le_add_right _ _, by rintro _ ⟨⟩; exact le_rfl⟩
  | c :: cands, losses, s => by
    obtain ⟨htries, htaken⟩ := reserve_spec claimKey R now h c s
    unfold reserveFirst
    rw [run_bind, calls_bind]
    rcases hr : ((reserve claimKey R now c).run h s).1 with _ | u
    · dsimp only
      split_ifs with hbudget
      · exact ⟨SearchOf.append (show casBudget ≤ losses + tries _ by rwa [htries]), by rintro _ ⟨⟩⟩
      · obtain ⟨hof, hlost⟩ := of_reserveFirst claimKey R now h cands (losses + 1)
          ((reserve claimKey R now c).run h s).2
        refine ⟨hof.prepend (by omega), fun losses' h' => ?_⟩
        have := hlost losses' h'
        rw [List.length_cons]
        omega
    · exact ⟨Tried.append_left (htaken u hr), by rintro _ ⟨⟩⟩

/-- So many rounds are enough to lose all the races that are borne. -/
theorem of_searchBucket (claimKey : String) (bound : Bound) (R : Token) (now : Time)
    (h : (c : Call) → σ → c.Answer × σ) : ∀ (n losses : ℕ) (s : σ), casBudget ≤ losses + n →
    SearchOf R now losses ((searchBucket claimKey bound R now n losses).calls h s)
      ((searchBucket claimKey bound R now n losses).run h s).1
  | 0, losses, s, hn => hn
  | n + 1, losses, s, hn => by
    unfold searchBucket
    rw [run_bind, calls_bind]
    split_ifs with hnone
    · exact Nat.le_add_right _ _
    · rw [run_bind, calls_bind]
      refine SearchOf.prepend ?_ (Nat.le_add_right losses _)
      rcases hcands : ((claimCands claimKey bound 1).run h s).1 with _ | ⟨c, cands⟩
      · exact absurd hcands hnone
      obtain ⟨hof, hlost⟩ := of_reserveFirst claimKey R now h (c :: cands) losses
        ((claimCands claimKey bound 1).run h s).2
      rcases hr : ((reserveFirst claimKey R now (c :: cands) losses).run h
          ((claimCands claimKey bound 1).run h s).2).1 with u | _ | losses' <;> rw [hr] at hof
      · exact hof.append
      · exact hof.append
      · have hmore := hlost losses' hr
        rw [List.length_cons] at hmore
        exact (of_searchBucket claimKey bound R now h n losses' _ (by omega)).prepend hof

theorem of_walkUp : ∀ (bs : List ℕ) (losses : ℕ) (s : σ),
    (∃ u, ((walkUp sc bound R now bs losses).run h s).1 = .ok (some u)
      ∧ Tried R now u ((walkUp sc bound R now bs losses).calls h s))
    ∨ (((walkUp sc bound R now bs losses).run h s).1 = .error .contention
      ∧ casBudget ≤ losses + tries ((walkUp sc bound R now bs losses).calls h s))
    ∨ (∀ u, ((walkUp sc bound R now bs losses).run h s).1 ≠ .ok (some u)) ∧ ∀ b ∈ bs,
      Asked (claimKeyFor sc.userID sc.basket sc.tier b) bound
        ((walkUp sc bound R now bs losses).calls h s)
  | [], losses, s => by
    refine Or.inr (Or.inr ⟨fun u hu => ?_, by simp⟩)
    unfold walkUp at hu
    change (if 0 < losses then Except.error UtxoErr.contention else .ok none) = _ at hu
    split_ifs at hu
    cases hu
  | b :: bs, losses, s => by
    have hof := of_searchBucket (claimKeyFor sc.userID sc.basket sc.tier b) bound R now h casBudget
        losses s (Nat.le_add_left _ _)
    have hasked : Asked (claimKeyFor sc.userID sc.basket sc.tier b) bound
        ((searchBucket (claimKeyFor sc.userID sc.basket sc.tier b) bound R now casBudget
            losses).calls h s) :=
      ⟨1, s, List.mem_cons_self⟩
    unfold walkUp
    rw [run_bind, calls_bind]
    rcases hr : ((searchBucket (claimKeyFor sc.userID sc.basket sc.tier b) bound R now casBudget
        losses).run h s).1
      with u | _ | losses' <;> rw [hr] at hof <;> dsimp only
    · exact Or.inl ⟨u, rfl, Tried.append_left hof⟩
    · exact Or.inr (Or.inl ⟨rfl, hof.trans (by rw [tries_append]; omega)⟩)
    · rcases of_walkUp bs losses' _ with ⟨u, hu, htried⟩ | ⟨hcont, hbudget⟩ | ⟨hnone, hall⟩
      · exact Or.inl ⟨u, hu, Tried.append_right htried⟩
      · refine Or.inr (Or.inl ⟨hcont, ?_⟩)
        change losses' ≤ losses + tries _ at hof
        rw [tries_append]
        omega
      · refine Or.inr (Or.inr ⟨hnone, List.forall_mem_cons.mpr ⟨hasked.append_left,
          fun b' hb' => ?_⟩⟩)
        exact Asked.append_right (hall b' hb')

/-- What a drain has done when it ends so, with so many coins claimed and races lost before. -/
def DrainOf (R : Token) (now : Time) (budget : Option ℕ) (claimed : List Utxo) (losses : ℕ)
    (cs : List (Call × σ)) :
    Option (List Utxo × ℕ) → Prop
  | none => ∃ b ∈ budget, b ≤ losses + tries cs
  | some (claimed', losses') =>
    (∀ u ∈ claimed', u ∈ claimed ∨ Tried R now u cs) ∧ losses' ≤ losses + tries cs

theorem drainOf_refl {budget : Option ℕ} (claimed : List Utxo) (losses : ℕ) (cs : List (Call × σ)) :
    DrainOf R now budget claimed losses cs (some (claimed, losses)) :=
  ⟨fun _ => Or.inl, Nat.le_add_right _ _⟩

theorem DrainOf.append {budget : Option ℕ} {claimed : List Utxo} {losses : ℕ}
    {cs ds : List (Call × σ)}
    {r : Option (List Utxo × ℕ)} (hr : DrainOf R now budget claimed losses cs r) :
    DrainOf R now budget claimed losses (cs ++ ds) r := by
  rcases r with _ | ⟨claimed', losses'⟩
  · obtain ⟨b, hb, hle⟩ := hr
    exact ⟨b, hb, by rw [tries_append]; omega⟩
  · obtain ⟨htaken, hle⟩ := hr
    exact ⟨fun u hu => (htaken u hu).imp id Tried.append_left, by rw [tries_append]; omega⟩

theorem DrainOf.prepend {budget : Option ℕ} {claimed claimed' : List Utxo} {losses losses' : ℕ}
    {cs ds : List (Call × σ)} {r : Option (List Utxo × ℕ)}
    (hfirst : DrainOf R now budget claimed losses cs (some (claimed', losses')))
    (hr : DrainOf R now budget claimed' losses' ds r) :
    DrainOf R now budget claimed losses (cs ++ ds) r := by
  obtain ⟨htaken, hle⟩ := hfirst
  rcases r with _ | ⟨claimed'', losses''⟩
  · obtain ⟨b, hb, hle'⟩ := hr
    exact ⟨b, hb, by rw [tries_append]; omega⟩
  · obtain ⟨htaken', hle'⟩ := hr
    refine ⟨fun u hu => ?_, by rw [tries_append]; omega⟩
    rcases htaken' u hu with hu | hu
    · exact (htaken u hu).imp id Tried.append_left
    · exact Or.inr hu.append_right

theorem of_reserveCands (claimKey : String) (R : Token) (now : Time) (limit : ℕ) (budget : Option ℕ)
    (h : (c : Call) → σ → c.Answer × σ) :
    ∀ (cands : List Record) (claimed : List Utxo) (losses : ℕ) (s : σ),
    DrainOf R now budget claimed losses
      ((reserveCands claimKey R now limit budget cands claimed losses).calls h s)
      ((reserveCands claimKey R now limit budget cands claimed losses).run h s).1
  | [], claimed, losses, s => drainOf_refl claimed losses _
  | c :: cands, claimed, losses, s => by
    obtain ⟨htries, htaken⟩ := reserve_spec claimKey R now h c s
    unfold reserveCands
    by_cases hfull : limit ≤ claimed.length
    · rw [if_pos hfull]
      exact drainOf_refl claimed losses _
    rw [if_neg hfull, run_bind, calls_bind]
    rcases hr : ((reserve claimKey R now c).run h s).1 with _ | u
    · dsimp only
      split_ifs with hbudget
      · obtain ⟨b, hb, hle⟩ : ∃ b ∈ budget, b ≤ losses + 1 := by
          cases budget <;> simp_all
        exact DrainOf.append ⟨b, hb, by omega⟩
      · exact DrainOf.prepend ⟨fun _ => Or.inl, htries.symm ▸ le_rfl⟩
          (of_reserveCands claimKey R now limit budget h cands _ _ _)
    · refine DrainOf.prepend ⟨fun v hv => ?_, Nat.le_add_right _ _⟩
        (of_reserveCands claimKey R now limit budget h cands _ _ _)
      refine (List.mem_append.mp hv).imp id fun hv => ?_
      rw [List.mem_singleton.mp hv]
      exact htaken u hr

theorem of_drainBucket (claimKey : String) (bound : Bound) (R : Token) (now : Time) (limit : ℕ)
    (budget : Option ℕ)
    (h : (c : Call) → σ → c.Answer × σ) : ∀ (n : ℕ) (claimed : List Utxo) (losses : ℕ) (s : σ),
    DrainOf R now budget claimed losses
      ((drainBucket claimKey bound R now limit budget n claimed losses).calls h s)
      ((drainBucket claimKey bound R now limit budget n claimed losses).run h s).1
  | 0, claimed, losses, s => drainOf_refl claimed losses _
  | n + 1, claimed, losses, s => by
    unfold drainBucket
    by_cases hfull : limit ≤ claimed.length
    · rw [if_pos hfull]
      exact drainOf_refl claimed losses _
    rw [if_neg hfull, run_bind, calls_bind]
    split_ifs with hnone
    · exact drainOf_refl claimed losses _
    refine (drainOf_refl claimed losses _).prepend ?_
    rw [run_bind, calls_bind]
    have hof := of_reserveCands claimKey R now limit budget h
      ((claimCands claimKey bound (limit - claimed.length)).run h s).1 claimed losses
      ((claimCands claimKey bound (limit - claimed.length)).run h s).2
    rcases hr : ((reserveCands claimKey R now limit budget _ claimed losses).run h _).1
        with _ | ⟨claimed', losses'⟩ <;>
      rw [hr] at hof <;> dsimp only
    · exact hof.append
    · split_ifs with hsame
      · exact hof.append
      · exact hof.prepend (of_drainBucket claimKey bound R now limit budget h n claimed' losses' _)

theorem asked_drainBucket {limit n : ℕ} {budget : Option ℕ} {claimed : List Utxo}
    {losses : ℕ} (s : σ) (hlt : claimed.length < limit) :
    Asked claimKey bound
      ((drainBucket claimKey bound R now limit budget (n + 1) claimed losses).calls h s) := by
  unfold drainBucket
  rw [if_neg hlt.not_ge]
  exact ⟨_, s, List.mem_cons_self⟩

theorem claimResult_ok {claimed us : List Utxo} {losses : ℕ}
    (h : claimResult (some (claimed, losses)) = .ok us) :
    us = claimed := by
  simp only [claimResult] at h
  split_ifs at h
  cases h
  rfl

theorem claimResult_full {limit : ℕ} {claimed : List Utxo} {losses : ℕ} (hpos : 0 < limit)
    (hle : limit ≤ claimed.length) :
    claimResult (some (claimed, losses)) = .ok claimed := by
  have hne : claimed ≠ [] := List.ne_nil_of_length_pos (by omega)
  simp [claimResult, hne]

theorem of_walkDown {limit : ℕ} (hpos : 0 < limit) :
    ∀ (bs : List ℕ) (claimed : List Utxo) (losses : ℕ) (s : σ),
    (∀ us, ((walkDown sc bound R now limit bs claimed losses).run h s).1 = .ok us →
      ∀ u ∈ us, u ∈ claimed ∨ Tried R now u
        ((walkDown sc bound R now limit bs claimed losses).calls h s))
    ∧ ((∃ us, ((walkDown sc bound R now limit bs claimed losses).run h s).1 = .ok us
      ∧ limit ≤ us.length)
      ∨ (((walkDown sc bound R now limit bs claimed losses).run h s).1 = .error .contention
        ∧ casBudget ≤ losses + tries ((walkDown sc bound R now limit bs claimed losses).calls h s))
      ∨ ∀ b ∈ bs, Asked (claimKeyFor sc.userID sc.basket sc.tier b) bound
        ((walkDown sc bound R now limit bs claimed losses).calls h s))
  | [], claimed, losses, s =>
    ⟨fun us hus u hu => Or.inl (claimResult_ok hus ▸ hu), Or.inr (Or.inr (by simp))⟩
  | b :: bs, claimed, losses, s => by
    unfold walkDown
    by_cases hle : limit ≤ claimed.length
    · rw [if_pos hle]
      exact ⟨fun us hus u hu => Or.inl (claimResult_ok hus ▸ hu),
          Or.inl ⟨claimed, claimResult_full hpos hle, hle⟩⟩
    rw [if_neg hle, run_bind, calls_bind]
    have hof := of_drainBucket (claimKeyFor sc.userID sc.basket sc.tier b) bound R now limit
        (some casBudget) h limit claimed losses s
    have hasked : Asked (claimKeyFor sc.userID sc.basket sc.tier b) bound
        ((drainBucket (claimKeyFor sc.userID sc.basket sc.tier b) bound R now limit (some casBudget)
            limit claimed
          losses).calls h s) := by
      obtain ⟨n, rfl⟩ : ∃ n, limit = n + 1 := ⟨limit - 1, by omega⟩
      exact asked_drainBucket s (by omega)
    rcases hr : ((drainBucket (claimKeyFor sc.userID sc.basket sc.tier b) bound R now limit
        (some casBudget) limit claimed
      losses).run h s).1 with _ | ⟨claimed', losses'⟩ <;> rw [hr] at hof <;> dsimp only
    · obtain ⟨_, ⟨⟩, hbudget⟩ := hof
      exact ⟨by rintro _ ⟨⟩, Or.inr (Or.inl ⟨rfl, hbudget.trans (by rw [tries_append]; omega)⟩)⟩
    · obtain ⟨htaken, hlost⟩ := hof
      obtain ⟨hcoins, hend⟩ := of_walkDown hpos bs claimed' losses'
        ((drainBucket (claimKeyFor sc.userID sc.basket sc.tier b) bound R now limit (some casBudget)
            limit claimed
          losses).run h s).2
      refine ⟨fun us hus u hu => ?_, hend.imp id (Or.imp ?_ fun hall => ?_)⟩
      · rcases hcoins us hus u hu with hu | hu
        · exact (htaken u hu).imp id Tried.append_left
        · exact Or.inr hu.append_right
      · rintro ⟨hcont, hbudget⟩
        exact ⟨hcont, by rw [tries_append]; omega⟩
      · exact List.forall_mem_cons.mpr ⟨hasked.append_left, fun b' hb' =>
          Asked.append_right (hall b' hb')⟩

end Walk

theorem walks_claimSmallestSufficient (now : Time) (sc : Scope) (R : Token) (minSats : ℕ) :
    Walks sc (.atLeast minSats) R now (claimSmallestSufficient now sc R minSats) Option.toList
      (·.isSome = true) := by
  unfold claimSmallestSufficient
  rcases hv : validateClaim sc R with _ | e
  · refine ⟨only_walkUp _ 0, fun σ h s a ha u hu => ?_, fun σ h s => ?_⟩
    · rw [Option.mem_toList] at hu
      cases hu
      rcases of_walkUp _ 0 s with ⟨u', hu', htried⟩ | ⟨hcont, -⟩ | ⟨hnone, -⟩
      · cases hu'.symm.trans ha
        exact htried
      · cases hcont.symm.trans ha
      · exact absurd ha (hnone u)
    · rcases of_walkUp _ 0 s with ⟨u, hu, -⟩ | ⟨hcont, hbudget⟩ | ⟨-, hall⟩
      · exact Or.inl ⟨some u, hu, rfl⟩
      · exact Or.inr (Or.inr (Or.inl ⟨hcont, by simpa using hbudget⟩))
      · exact Or.inr (Or.inr (Or.inr fun sats hlt hp => hall _ (Bound.mem_buckets hlt hp)))
  · exact ⟨trivial, fun σ h s a ha => (by cases ha), fun σ h s => Or.inr (Or.inl ⟨e, hv, rfl⟩)⟩

theorem walks_claimLargestInsufficient (now : Time) (sc : Scope) (R : Token) (capSats : ℕ)
    (limit : ℤ) :
    Walks sc (.below capSats) R now (claimLargestInsufficient now sc R capSats limit) id
      (limit ≤ ·.length) := by
  unfold claimLargestInsufficient
  rcases hv : validateClaim sc R with _ | e
  · dsimp only
    split_ifs with hnone
    · refine ⟨trivial, fun σ h s a ha u hu => ?_, fun σ h s => ?_⟩
      · cases ha
        cases hu
      · rcases hnone with hlim | rfl
        · exact Or.inl ⟨[], rfl, hlim⟩
        · refine Or.inr (Or.inr (Or.inr fun sats _ hp => ?_))
          have hcap : sats < 0 := of_decide_eq_true hp
          omega
    · obtain ⟨hlim, hcap⟩ := not_or.mp hnone
      have hpos : 0 < limit.toNat := by omega
      refine ⟨only_walkDown _ [] 0, fun σ h s us hus u hu => ?_, fun σ h s => ?_⟩
      · exact ((of_walkDown hpos _ [] 0 s).1 us hus u hu).resolve_left List.not_mem_nil
      · rcases (of_walkDown hpos _ [] 0 s).2 with ⟨us, hus, hle⟩ | ⟨hcont, hbudget⟩ | hall
        · exact Or.inl ⟨us, hus, by omega⟩
        · exact Or.inr (Or.inr (Or.inl ⟨hcont, by simpa using hbudget⟩))
        · refine Or.inr (Or.inr (Or.inr fun sats hlt hp => hall _ ?_))
          have hb := Bound.mem_buckets hlt hp
          rwa [Bound.buckets, if_neg hcap] at hb
  · exact ⟨trivial, fun σ h s a ha => (by cases ha), fun σ h s => Or.inr (Or.inl ⟨e, hv, rfl⟩)⟩

theorem walks_claimExact (now : Time) (sc : Scope) (R : Token) (denomination : ℕ) (count : ℤ) :
    Walks sc (.exactly denomination) R now (claimExact now sc R denomination count) id
      (count ≤ ·.length) := by
  unfold claimExact
  rcases hv : validateClaim sc R with _ | e
  · dsimp only
    split_ifs with hnone
    · refine ⟨trivial, fun σ h s a ha u hu => ?_, fun σ h s => Or.inl ⟨[], rfl, hnone⟩⟩
      cases ha
      cases hu
    · refine ⟨only_bind (fun r => ?_) _ (only_drainBucket ⟨_, rfl⟩ _ [] 0), fun σ h s us hus u hu =>
        ?_, fun σ h s => ?_⟩
      · trivial
      · rw [run_bind] at hus
        rw [calls_bind]
        have hof := of_drainBucket (claimKeyFor sc.userID sc.basket sc.tier (bucketOf denomination))
            (.exactly denomination) R
          now count.toNat none h count.toNat [] 0 s
        rcases hr : ((drainBucket (claimKeyFor sc.userID sc.basket sc.tier (bucketOf denomination))
            (.exactly denomination)
          R now count.toNat none count.toNat [] 0).run h s).1 with _ | ⟨claimed, losses⟩
              <;> rw [hr] at hof hus
        · cases hus
        · have hus : us = claimed := claimResult_ok hus
          exact ((hof.1 u (hus ▸ hu)).resolve_left List.not_mem_nil).append_left
      · refine Or.inr (Or.inr (Or.inr fun sats _ hp => ?_))
        obtain rfl : sats = denomination := of_decide_eq_true hp
        obtain ⟨n, hn⟩ : ∃ n, count.toNat = n + 1 := ⟨count.toNat - 1, by omega⟩
        rw [calls_bind, hn]
        exact (asked_drainBucket s (Nat.succ_pos n)).append_left
  · exact ⟨trivial, fun σ h s a ha => (by cases ha), fun σ h s => Or.inr (Or.inl ⟨e, hv, rfl⟩)⟩

end ArcadeToolbox.Aerostore
