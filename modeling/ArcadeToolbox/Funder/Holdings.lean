import ArcadeToolbox.Funder.Calls
import ArcadeToolbox.Funder.Collected
import Mathlib.Data.Set.Insert

/-!
# What a call of Fund holds

A store is honest if its claims reserve exactly the coins they return and its releases give back
what they are asked for; it may refuse any call at any time. Over such a store a pass holds, besides
what the token held before, the coins of the collector and of the batch at hand. A failed pass is
followed by a release of the whole token. If that is refused, what the pass held stays. Whatever the
store answers, the result is that of a collector with its coins.
-/

namespace ArcadeToolbox

open Txn

namespace Funder

open UtxoCollector

variable {α β σ : Type} {h : (c : StoreCall) → σ → c.Answer × σ} {P : σ → Prop} {x : FundM α}
  {Q : α → σ → Prop}

/-- From `P`, a part of a pass ends in `Q` unless it fails. -/
def Keeps (h : (c : StoreCall) → σ → c.Answer × σ) (P : σ → Prop) (x : FundM α)
    (Q : α → σ → Prop) : Prop :=
  Prog.Ensures h P x.run fun r s => ∀ a, r = .ok a → Q a s

theorem Keeps.ok (hx : Keeps h P x Q) {s s' : σ} {a : α} (hs : P s)
    (hrun : x.run.run h s = (.ok a, s')) : Q a s' := by
  have h := hx s hs a (congrArg Prod.fst hrun)
  rwa [hrun] at h

theorem keeps_any : Keeps h P x fun _ _ => True := fun _ _ _ _ => trivial

theorem keeps_bind {f : α → FundM β} {R : α → σ → Prop} {Q : β → σ → Prop}
    (hx : Keeps h P x R) (hf : ∀ a, Keeps h (R a) (f a) Q) : Keeps h P (x >>= f) Q := by
  refine Prog.ensures_except_bind (R := R) (Prog.ensures_weaken hx (fun _ h => h) ?_) hf
  rintro (e | a) s h
  · intro a ha
    cases ha
  · exact h a rfl

theorem keeps_pure {a : α} (ha : ∀ s, P s → Q a s) : Keeps h P (pure a) Q := by
  intro s hs a' ha'
  cases ha'
  exact ha s hs

theorem keeps_throw {e : FundErr} : Keeps h P (throw e) Q := by
  intro s hs a ha
  cases ha

theorem keeps_weaken {P' : σ → Prop} {Q Q' : α → σ → Prop} (hx : Keeps h P x Q)
    (hp : ∀ s, P' s → P s) (hq : ∀ a s, Q a s → Q' a s) : Keeps h P' x Q' :=
  fun s hs a ha => hq a _ (hx s (hp s hs) a ha)

/-- Arithmetic does not touch the store. -/
theorem keeps_collector (r : Except FundErr α) {f : α → FundM β} {Q : β → σ → Prop}
    (hf : ∀ a, r = .ok a → Keeps h P (f a) Q) : Keeps h P (liftCollector r >>= f) Q :=
  keeps_bind (R := fun a s => P s ∧ r = .ok a) (fun _ hs _ ha => ⟨hs, ha⟩) fun a s hs =>
      hf a hs.2 s hs.1

theorem keeps_ask (c : StoreCall) :
    Keeps h P (ask c) fun a s' => ∃ s, P s ∧ (h c s).1 = a ∧ s' = (h c s).2 := by
  intro s hs a ha
  cases ha
  exact ⟨s, hs, rfl, rfl⟩

/-- The error of a call ends the pass. -/
theorem keeps_liftStore (r : Except UtxoErr α) : Keeps h P (liftStore r) fun a s =>
    P s ∧ r = .ok a := by
  rcases r with e | a
  · exact keeps_throw
  · exact keeps_pure fun s hs => ⟨hs, rfl⟩

theorem keeps_orHiddenInventory {args : FundArgs} (hx : Keeps h P x Q) :
    Keeps h P (orHiddenInventory args x) Q := by
  refine keeps_bind (R := fun r s => ∀ a, r = .ok a → Q a s) ?_ fun r => ?_
  · intro s hs r hr
    rw [Prog.run_lift] at hr ⊢
    cases hr
    exact hx s hs
  · split
    · exact keeps_pure fun s hs => hs _ rfl
    · refine keeps_bind keeps_any fun tier => ?_
      cases tier <;> exact keeps_throw
    · exact keeps_throw

/-- `T` keeps count of the coins under the token: a claim adds those it returns, a release takes off
those it names. -/
structure Counts (h : (c : StoreCall) → σ → c.Answer × σ) (args : FundArgs)
    (T : List Outpoint → σ → Prop) : Prop where
  smallest : ∀ A tier n, Keeps h (T A) (claimSmallestSufficient (scope args tier)
      args.reservation n)
    fun o => T (A ++ o.toList.map (·.outpoint))
  largest : ∀ A tier n, Keeps h (T A) (claimLargestInsufficient (scope args tier)
      args.reservation n)
    fun us => T (A ++ us.map (·.outpoint))
  exact : ∀ A tier denomination count,
      Keeps h (T A) (claimExact (scope args tier) args.reservation denomination count)
    fun us => T (A ++ us.map (·.outpoint))
  release : ∀ A us, Keeps h (T (A ++ us.map (·.outpoint))) (releaseOutpoints args.reservation us)
      fun _ => T A

theorem counts_any {args : FundArgs} : Counts h args fun _ _ => True :=
  ⟨fun _ _ _ => keeps_any, fun _ _ _ => keeps_any, fun _ _ _ _ => keeps_any, fun _ _ => keeps_any⟩

/-- A pass under way: the coins of the collector are counted. -/
def Collects (fees : FeeCalc) (args : FundArgs) (T : List Outpoint → σ → Prop) (c : UtxoCollector)
    (s : σ) : Prop :=
  T (outs c) s ∧ Collected fees args c

section Pass

variable {args : FundArgs} {T : List Outpoint → σ → Prop} {fees : FeeCalc} {c : UtxoCollector}

theorem keeps_collects (hx : Collected fees args c → Keeps h (T (outs c)) x Q) :
    Keeps h (Collects fees args T c) x Q := fun s hs => hx hs.2 s hs.1

theorem keeps_result : Keeps h (Collects fees args T c) (liftCollector c.result)
    fun r s => T (r.allocatedUTXOs.map (·.outpoint)) s ∧ ResultOf fees args r := by
  rintro s ⟨hs, hc⟩ r hr
  have hr : c.result = .ok r := hr
  have ha := (result_eq_ok hr).1
  exact ⟨by rw [ha]; exact hs, c, by rw [ha]; exact hc, hr⟩

variable (hT : Counts h args T)

include hT

/-- What is left of a batch goes back, what was taken is the collector's. -/
theorem keeps_surplus {c' : UtxoCollector} {taken rest : List Utxo} (hc' : Collected fees args c')
    (ha : c'.allocatedUTXOs = c.allocatedUTXOs ++ taken) :
    Keeps h (T (outs c ++ (taken ++ rest).map (·.outpoint)))
      (releaseOutpoints args.reservation rest)
      fun _ => Collects fees args T c' := by
  have houts : outs c ++ (taken ++ rest).map (·.outpoint) = outs c' ++ rest.map (·.outpoint) := by
    simp [outs, ha]
  rw [houts]
  exact keeps_weaken (hT.release _ rest) (fun _ h => h) fun _ s hs => ⟨hs, hc'⟩

theorem keeps_drainBatch (hc : Collected fees args c) (batch : List Utxo) :
    Keeps h (T (outs c ++ batch.map (·.outpoint))) (drainBatch args batch c)
      fun res => Collects fees args T res.2 := by
  refine keeps_collector _ fun res hres => ?_
  obtain ⟨hc', taken, rfl, ha⟩ := consumeBatch_eq_ok hc hres
  exact keeps_bind (keeps_surplus hT hc' ha) fun _ => keeps_pure fun s hs => hs

theorem keeps_fromTier (hc : Collected fees args c) (remaining : ℕ) (tier : Tier) :
    Keeps h (T (outs c)) (fromTier args remaining tier c) fun res =>
      Collects fees args T res.2 := by
  refine keeps_bind (hT.smallest _ tier remaining) fun o => ?_
  rcases o with _ | x
  · rw [show (none : Option Utxo).toList.map (·.outpoint) = [] from rfl, List.append_nil]
    exact keeps_bind (hT.largest _ tier remaining) (keeps_drainBatch hT hc)
  · refine keeps_collector _ fun c' hc' => keeps_pure fun s hs => ?_
    obtain ⟨hcoll, ha⟩ := hc.allocate hc'
    exact ⟨by simpa [outs, ha] using hs, hcoll⟩

theorem keeps_round (remaining : ℕ) : ∀ (tiers : List Tier) (c : UtxoCollector),
    Keeps h (Collects fees args T c) (round args remaining tiers c) fun res =>
      Collects fees args T res.2
  | [], c => keeps_pure fun s hs => hs
  | tier :: tiers, c => by
    refine keeps_bind (keeps_collects fun hc => keeps_fromTier hT hc remaining tier) fun res => ?_
    obtain ⟨allocated, c'⟩ := res
    cases allocated
    · exact keeps_round remaining tiers c'
    · exact keeps_pure fun s hs => hs

theorem keeps_boundedTieredClaim : ∀ (n : ℕ) (c : UtxoCollector),
    Keeps h (Collects fees args T c) (boundedTieredClaim args n c) (Collects fees args T)
  | 0, _ => keeps_throw
  | n + 1, c => by
    refine keeps_collector _ fun b _ => ?_
    cases b
    · refine keeps_collector _ fun r _ => ?_
      dsimp only
      split_ifs
      · exact keeps_pure fun s hs => hs
      · refine keeps_bind (keeps_round hT r.toNat args.tiers c) fun res => ?_
        obtain ⟨allocated, c'⟩ := res
        cases allocated
        · exact keeps_throw
        · exact keeps_boundedTieredClaim n c'
    · exact keeps_pure fun s hs => hs

theorem keeps_tieredClaim (rounds : ℕ) (c : UtxoCollector) :
    Keeps h (Collects fees args T c) (tieredClaim rounds args c)
      fun r s => T (r.allocatedUTXOs.map (·.outpoint)) s ∧ ResultOf fees args r :=
  keeps_orHiddenInventory (keeps_bind (keeps_boundedTieredClaim hT rounds c) fun _ => keeps_result)

theorem keeps_claimExactTiers : ∀ (tiers : List Tier) (n : ℕ) (A : List Outpoint),
    Keeps h (T A) (claimExactTiers args tiers n) fun us => T (A ++ us.map (·.outpoint))
  | [], n, A => keeps_pure fun s hs => by simpa using hs
  | tier :: tiers, n, A => by
    unfold claimExactTiers
    split_ifs
    · exact keeps_pure fun s hs => by simpa using hs
    · refine keeps_bind (hT.exact A tier args.denomination n) fun got => ?_
      refine keeps_bind (keeps_claimExactTiers tiers _ _) fun more => ?_
      exact keeps_pure fun s hs => by simpa [List.append_assoc] using hs

theorem keeps_claimExactFastPath (hc : Collected fees args c) :
    Keeps h (T (outs c)) (claimExactFastPath fees args c) (Collects fees args T) := by
  unfold claimExactFastPath
  dsimp only
  split_ifs
  · exact keeps_throw
  refine keeps_collector _ fun baseFee _ => keeps_collector _ fun need _ => ?_
  by_cases hneed : need ≤ 0
  · rw [if_pos hneed]
    exact keeps_pure fun s hs => ⟨hs, hc⟩
  rw [if_neg hneed]
  refine keeps_bind (keeps_claimExactTiers hT args.tiers _ (outs c)) fun claimed =>
      keeps_collector _ fun res hres => ?_
  obtain ⟨hc', taken, rfl, ha⟩ := consumeExact_eq_ok hc hres
  exact keeps_bind (keeps_surplus hT hc' ha) fun _ => keeps_pure fun s hs => hs

theorem keeps_fundOnce (fees : FeeCalc) (rounds : ℕ) : Keeps h (T []) (fundOnce fees rounds args)
    fun r s => T (r.allocatedUTXOs.map (·.outpoint)) s ∧ ResultOf fees args r := by
  refine keeps_collector _ fun c hnew => ?_
  obtain ⟨hc, hnil⟩ := collected_newFor hnew
  rw [show [] = outs c by rw [outs, hnil, List.map_nil]]
  refine keeps_weaken (P := Collects fees args T c) ?_ (fun s hs => ⟨hs, hc⟩) fun _ _ h => h
  split_ifs
  · refine keeps_bind (keeps_collects (keeps_claimExactFastPath hT)) fun c' =>
      keeps_collector _ fun b _ => ?_
    cases b
    · exact keeps_tieredClaim hT rounds c'
    · exact keeps_result
  · exact keeps_tieredClaim hT rounds c

end Pass

theorem attempts_resultOf {fees : FeeCalc} {rounds : ℕ} {args : FundArgs} {r : FundResult} :
    ∀ {n : ℕ} {s : σ},
    ((attempts fees rounds args n).run.run h s).1 = .ok r → ResultOf fees args r
  | 0, s, hr => by cases hr
  | n + 1, s, hr => by
    rw [attempts, Prog.run_except_bind, Prog.run_lift] at hr
    rcases hrun : (fundOnce fees rounds args).run.run h s with ⟨e | res, s1⟩ <;> rw [hrun] at hr
    · dsimp only at hr
      split_ifs at hr with hret hcont
      · rw [Prog.run_except_bind] at hr
        exact attempts_resultOf hr
      · cases hr
      · cases hr
    · cases hr
      exact ((keeps_fundOnce counts_any fees rounds).ok trivial hrun).2

/-- Whatever the store answers, the result is that of a collector with its coins. -/
theorem fund_resultOf {fees : FeeCalc} {rounds : ℕ} {args : FundArgs} {r : FundResult} {s : σ}
    (hr : ((fund fees rounds args).run.run h s).1 = .ok r) : ResultOf fees args r := by
  unfold fund at hr
  split at hr
  · cases hr
  · exact attempts_resultOf hr

end Funder

/-- A claim took these coins: each once, and none that was held. -/
structure Took (held held' : Set Outpoint) (us : List Utxo) : Prop where
  nodup : (us.map (·.outpoint)).Nodup
  fresh : ∀ op ∈ us.map (·.outpoint), op ∉ held
  held_eq : held' = held ∪ {op | op ∈ us.map (·.outpoint)}

theorem Took.nil (held : Set Outpoint) : Took held held [] :=
  ⟨List.nodup_nil, fun _ h => absurd h List.not_mem_nil, by simp⟩

/-- `held` are the coins that one user holds under one token. -/
structure HonestStore (u : UserID) (R : Token) (σ : Type) where
  call : (c : StoreCall) → σ → c.Answer × σ
  held : σ → Set Outpoint
  smallest_ok : ∀ sc n s (o : Option Utxo), sc.userID = u →
    (call (.claimSmallestSufficient sc R n) s).1 = Except.ok o →
    Took (held s) (held (call (.claimSmallestSufficient sc R n) s).2) o.toList
  largest_ok : ∀ sc n limit s (us : List Utxo), sc.userID = u →
    (call (.claimLargestInsufficient sc R n limit) s).1 = Except.ok us →
    Took (held s) (held (call (.claimLargestInsufficient sc R n limit) s).2) us
  exact_ok : ∀ sc n count s (us : List Utxo), sc.userID = u →
    (call (.claimExact sc R n count) s).1 = Except.ok us →
    Took (held s) (held (call (.claimExact sc R n count) s).2) us
  outpoints_ok : ∀ ops s, (call (.releaseOutpoints R ops) s).1 = Except.ok () →
    held (call (.releaseOutpoints R ops) s).2 = held s \ {op | op ∈ ops}
  release_ok : ∀ s (n : ℕ), (call (.releaseReservation u R) s).1 = Except.ok n →
    held (call (.releaseReservation u R) s).2 = ∅
  release_refused : ∀ s (e : UtxoErr), (call (.releaseReservation u R) s).1 = Except.error e →
    held (call (.releaseReservation u R) s).2 = held s

namespace HonestStore

variable {α β σ : Type} {args : FundArgs} (K : HonestStore args.userID args.reservation σ)

/-- The token holds `X` and `A`. -/
structure Holds (X : Set Outpoint) (A : List Outpoint) (s : σ) : Prop where
  held_eq : K.held s = X ∪ {op | op ∈ A}
  nodup : A.Nodup
  apart : ∀ op ∈ A, op ∉ X

variable {K} {X : Set Outpoint} {A : List Outpoint}

/-- A claim adds what it took. -/
theorem Holds.took {s s' : σ} {us : List Utxo} (h : K.Holds X A s)
    (ht : Took (K.held s) (K.held s') us) :
    K.Holds X (A ++ us.map (·.outpoint)) s' := by
  have hnew : ∀ op ∈ us.map (·.outpoint), op ∉ X ∪ {op | op ∈ A} := fun op hop => by
    rw [← h.held_eq]
    exact ht.fresh op hop
  refine ⟨?_, ?_, ?_⟩
  · rw [ht.held_eq, h.held_eq]
    ext op
    simp only [Set.mem_union, Set.mem_ofPred_eq, List.mem_append, or_assoc]
  · refine List.nodup_append.mpr ⟨h.nodup, ht.nodup, ?_⟩
    rintro op hop op' hop' rfl
    exact hnew op hop' (Or.inr hop)
  · intro op hop
    rcases List.mem_append.mp hop with hop | hop
    · exact h.apart op hop
    · exact fun hX => hnew op hop (Or.inl hX)

theorem keeps_releaseOutpoints (us : List Utxo) :
    Funder.Keeps K.call (K.Holds X (A ++ us.map (·.outpoint)))
      (Funder.releaseOutpoints args.reservation us)
      fun _ => K.Holds X A := by
  unfold Funder.releaseOutpoints
  split_ifs with hnil
  · subst hnil
    exact Funder.keeps_pure fun s hs => by simpa using hs
  · refine Funder.keeps_bind (Funder.keeps_ask _) fun a =>
      Funder.keeps_weaken (Funder.keeps_liftStore a) (fun _ h => h) ?_
    rintro _ _ ⟨⟨s, hs, hok, rfl⟩, rfl⟩
    obtain ⟨hA, hus, hdisj⟩ := List.nodup_append.mp hs.nodup
    refine ⟨?_, hA, fun op hop => hs.apart op (List.mem_append_left _ hop)⟩
    rw [K.outpoints_ok _ s hok, hs.held_eq]
    ext op
    simp only [Set.mem_sdiff, Set.mem_union, Set.mem_ofPred_eq, List.mem_append]
    constructor
    · rintro ⟨hX | hA | hus, hn⟩
      · exact Or.inl hX
      · exact Or.inr hA
      · exact absurd hus hn
    · rintro (hX | hA)
      · exact ⟨Or.inl hX, fun hus => hs.apart op (List.mem_append_right _ hus) hX⟩
      · exact ⟨Or.inr (Or.inl hA), fun hus => hdisj op hA op hus rfl⟩

theorem counts_holds : Funder.Counts K.call args (K.Holds X) := by
  refine ⟨fun A tier n => ?_, fun A tier n => ?_, fun A tier denomination count => ?_, fun _ us =>
      keeps_releaseOutpoints us⟩
  all_goals
    refine Funder.keeps_bind (Funder.keeps_ask _) fun a =>
      Funder.keeps_weaken (Funder.keeps_liftStore a) (fun _ h => h) ?_
    rintro us _ ⟨⟨s, hs, ha, rfl⟩, rfl⟩
  · exact hs.took (K.smallest_ok _ n s us rfl ha)
  · exact hs.took (K.largest_ok _ n _ s us rfl ha)
  · exact hs.took (K.exact_ok _ denomination _ s us rfl ha)

theorem keeps_fundOnce (hmax : 1 ≤ args.maxChangeOutputsPerTx) (fees : FeeCalc) (rounds : ℕ) :
    Funder.Keeps K.call (fun s => K.held s = X) (Funder.fundOnce fees rounds args)
      fun r s => K.Holds X (r.allocatedUTXOs.map (·.outpoint)) s ∧ r.For args := by
  refine Funder.keeps_weaken (Funder.keeps_fundOnce counts_holds fees rounds) (fun s hs => ?_)
    fun r s h => ⟨h.1, h.2.for hmax⟩
  exact ⟨by simpa using hs, List.nodup_nil, fun _ h => absurd h List.not_mem_nil⟩

variable (K)

/-- What the token holds once its release has been tried. -/
def afterRelease (s : σ) : Set Outpoint :=
  K.held (K.call (.releaseReservation args.userID args.reservation) s).2

/-- What the releases among some calls leave of `X`. -/
def left (X : Set Outpoint) (calls : List (StoreCall × σ)) : Set Outpoint :=
  calls.foldl (fun X cs => if cs.1.isRelease then K.afterRelease cs.2 else X) X

variable {K}

theorem left_append (X : Set Outpoint) (cs cs' : List (StoreCall × σ)) :
    K.left X (cs ++ cs') = K.left (K.left X cs) cs' := List.foldl_append

theorem left_eq_self {X : Set Outpoint} : ∀ {calls : List (StoreCall × σ)},
    (∀ cs ∈ calls, cs.1.isRelease = false) → K.left X calls = X
  | [], _ => rfl
  | cs :: calls, h => by
    obtain ⟨hcs, h⟩ := List.forall_mem_cons.mp h
    unfold left
    rw [List.foldl_cons, hcs]
    exact left_eq_self h

/-- A pass releases nothing. -/
theorem left_inPass {x : FundM α} (hx : Funder.InPass args x) (X : Set Outpoint) (s : σ) :
    K.left X (x.run.calls K.call s) = X :=
  left_eq_self fun cs hcs => (hx.calls s cs hcs).2

/-- Where `Fund` succeeds the token holds the coins of the result besides what the releases left,
and where it returns an error it holds what they left. -/
theorem attempts_left (hmax : 1 ≤ args.maxChangeOutputsPerTx) (fees : FeeCalc) (rounds : ℕ) :
    ∀ (n : ℕ) (s : σ),
    let x := Funder.attempts fees rounds args n
    (∀ r, (x.run.run K.call s).1 = .ok r →
      K.Holds (K.left (K.held s) (x.run.calls K.call s)) (r.allocatedUTXOs.map (·.outpoint))
        (x.run.run K.call s).2 ∧ r.For args)
    ∧ ∀ e, (x.run.run K.call s).1 = .error e → e.returned = true →
      K.held (x.run.run K.call s).2 = K.left (K.held s) (x.run.calls K.call s)
  | 0, s => ⟨fun r hr => (by cases hr), fun _ _ _ => rfl⟩
  | n + 1, s => by
    have hpass : Funder.Keeps K.call (fun s' => K.held s' = K.held s)
        (Funder.fundOnce fees rounds args) _ :=
      keeps_fundOnce hmax fees rounds
    have hleft := left_inPass (K := K) (Funder.inPass_fundOnce fees rounds) (K.held s) s
    have hpass := hpass s rfl
    intro x
    have hx : x = Funder.attempts fees rounds args (n + 1) := rfl
    unfold Funder.attempts at hx
    rw [hx, Prog.run_except_bind, Prog.calls_except_bind, Prog.run_lift, Prog.calls_lift,
        left_append, hleft]
    rcases hrun : (Funder.fundOnce fees rounds args).run.run K.call s with ⟨e | res, s1⟩
    · dsimp only
      by_cases hret : e.returned = true
      · rw [if_pos hret, Prog.run_except_bind, Prog.calls_except_bind, left_append]
        -- the release is one call, and the rest starts where it ended
        have hrel : (Funder.release args.userID args.reservation).run.run K.call s1
            = (.ok (), (K.call (.releaseReservation args.userID args.reservation) s1).2) := rfl
        have hcall : (Funder.release args.userID args.reservation).run.calls K.call s1
            = [(.releaseReservation args.userID args.reservation, s1)] := rfl
        have hafter : K.left (K.held s) [(.releaseReservation args.userID args.reservation, s1)]
            = K.held (K.call (.releaseReservation args.userID args.reservation) s1).2 := rfl
        rw [hrel, hcall, hafter]
        dsimp only
        by_cases hc : e.isContention = true
        · rw [if_pos hc]
          exact attempts_left hmax fees rounds n _
        · rw [if_neg hc]
          exact ⟨fun r hr => (by cases hr), fun _ _ _ => rfl⟩
      · rw [if_neg hret]
        refine ⟨fun r hr => (by cases hr), fun e' he' hret' => ?_⟩
        cases he'
        exact absurd hret' hret
    · rw [hrun] at hpass
      refine ⟨fun r hr => ?_, fun e he => (by cases he)⟩
      cases hr
      exact hpass res rfl

theorem fund_left (hv : args.validate = none) (fees : FeeCalc) (rounds : ℕ) (s : σ) :
    let x := Funder.fund fees rounds args
    (∀ r, (x.run.run K.call s).1 = .ok r →
      K.Holds (K.left (K.held s) (x.run.calls K.call s)) (r.allocatedUTXOs.map (·.outpoint))
        (x.run.run K.call s).2 ∧ r.For args)
    ∧ ∀ e, (x.run.run K.call s).1 = .error e → e.returned = true →
      K.held (x.run.run K.call s).2 = K.left (K.held s) (x.run.calls K.call s) := by
  have hfund : Funder.fund fees rounds args = Funder.attempts fees rounds args
      maxFundingAttempts := by
    unfold Funder.fund
    rw [hv]
  rw [hfund]
  exact attempts_left (Funder.maxChange_pos hv) fees rounds maxFundingAttempts s

/-- If the last release of the token was refused, the token held nothing. -/
def Cleared (K : HonestStore args.userID args.reservation σ)
    (calls : List (StoreCall × σ)) : Prop :=
  ∀ c s, (calls.filter fun cs => cs.1.isRelease).getLast? = some (c, s) →
    ∀ e : UtxoErr, (K.call (.releaseReservation args.userID args.reservation) s).1
        = Except.error e →
      K.held s = ∅

theorem left_eq (X : Set Outpoint) (calls : List (StoreCall × σ)) :
    K.left X calls = ((calls.filter fun cs => cs.1.isRelease).getLast?).elim X fun cs =>
      K.afterRelease cs.2 := by
  induction calls using List.reverseRecOn with
  | nil => rfl
  | append_singleton calls cs ih =>
    rw [left_append, ih, List.filter_append]
    rcases hcs : cs.1.isRelease with _ | _
    · simp [left, hcs]
    · simp [left, hcs]

theorem left_empty_iff (calls : List (StoreCall × σ)) : K.left ∅ calls = ∅ ↔ K.Cleared calls := by
  rw [left_eq]
  unfold Cleared
  generalize (calls.filter fun cs => cs.1.isRelease).getLast? = last
  rcases last with _ | ⟨c, s⟩
  · exact ⟨fun _ c s h => (by cases h), fun _ => rfl⟩
  · change K.afterRelease s = ∅ ↔ _
    unfold afterRelease
    rcases hans : (K.call (.releaseReservation args.userID args.reservation) s).1 with e | k
    · rw [K.release_refused s e hans]
      refine ⟨fun h c' s' hs e' _ => ?_, fun h => h c s rfl e hans⟩
      cases hs
      exact h
    · refine ⟨fun _ c' s' hs e he => ?_, fun _ => K.release_ok s k hans⟩
      cases hs
      rw [hans] at he
      cases he

end HonestStore

end ArcadeToolbox
