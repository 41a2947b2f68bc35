import ArcadeToolbox.Funder.Funder

/-!
# The calls of the funder

Whatever the store answers, the funder claims and releases under its own token only, and a pass
never releases the whole token.
-/

namespace ArcadeToolbox

open Txn

/-- A call for one user under one token. -/
def StoreCall.Under (u : UserID) (R : Token) : StoreCall → Prop
  | .claimSmallestSufficient sc r _ | .claimLargestInsufficient sc r _ _ | .claimExact sc r _ _ =>
    sc.userID = u ∧ r = R
  | .releaseReservation u' r => u' = u ∧ r = R
  | .releaseOutpoints r _ => r = R
  | .claimableExists _ _ => True

/-- The release of a whole token. -/
def StoreCall.isRelease : StoreCall → Bool
  | .releaseReservation _ _ => true
  | _ => false

def StoreCall.isProbe : StoreCall → Bool
  | .claimableExists _ _ => true
  | _ => false

/-- An answer with which a pass can only fail. Whatever a probe says, the pass has failed
already. -/
def StoreCall.Refused : (c : StoreCall) → c.Answer → Prop
  | .claimSmallestSufficient .., a => a.isOk = false
  | .claimLargestInsufficient .., a => a.isOk = false
  | .claimExact .., a => a.isOk = false
  | .releaseOutpoints .., a => a.isOk = false
  | .releaseReservation .., _ => False
  | .claimableExists .., _ => True

namespace Funder

variable {α β : Type} (args : FundArgs)

def Own (x : FundM α) : Prop := Prog.Only (StoreCall.Under args.userID args.reservation) x.run

/-- Calls under the token that do not release all of it. -/
def InPass (x : FundM α) : Prop :=
  Prog.Only (fun c => c.Under args.userID args.reservation ∧ c.isRelease = false) x.run

/-- The selection of a pass: it claims and gives back, and the first refusal ends it. -/
def Selects (x : FundM α) : Prop :=
  Prog.Strict (fun c => (c.Under args.userID args.reservation ∧ c.isRelease = false)
      ∧ c.isProbe = false)
    StoreCall.Refused x.run

variable {args}

variable {x : FundM α}

theorem own_bind {f : α → FundM β} (hx : Own args x) (hf : ∀ a, Own args (f a)) :
    Own args (x >>= f) :=
  Prog.only_except_bind hx hf

theorem own_pure (a : α) : Own args (pure a) := trivial

theorem own_throw (e : FundErr) : Own args (throw e : FundM α) := trivial

theorem own_ask {c : StoreCall} (h : c.Under args.userID args.reservation) : Own args (ask c) :=
  ⟨h, fun _ => trivial⟩

theorem own_attempt (hx : Own args x) :
    Own args (ExceptT.lift x.run : FundM (Except FundErr α)) :=
  Prog.only_bind (f := fun r => Prog.done (Except.ok (ε := FundErr) r)) (fun _ => trivial) x.run hx

theorem selects_bind {f : α → FundM β} (hx : Selects args x) (hf : ∀ a, Selects args (f a)) :
    Selects args (x >>= f) :=
  Prog.strict_except_bind hx hf

theorem selects_pure (a : α) : Selects args (pure a) := trivial

theorem selects_throw (e : FundErr) : Selects args (throw e : FundM α) := trivial

theorem selects_liftCollector (r : Except FundErr α) : Selects args (liftCollector r) := trivial

theorem fails_liftStore {r : Except UtxoErr α} (h : r.isOk = false) :
    Prog.Fails (liftStore r).run := by
  rcases r with e | a
  · exact ⟨_, rfl⟩
  · cases h

theorem selects_liftStore (r : Except UtxoErr α) : Selects args (liftStore r) := by
  cases r <;> trivial

theorem selects_releaseOutpoints (us : List Utxo) :
    Selects args (releaseOutpoints args.reservation us) := by
  unfold releaseOutpoints
  split
  · exact selects_pure _
  · exact ⟨⟨⟨rfl, rfl⟩, rfl⟩, fun _ => ⟨fails_liftStore, selects_liftStore _⟩⟩

theorem selects_claimSmallestSufficient (tier : Tier) (n : ℕ) :
    Selects args (claimSmallestSufficient (scope args tier) args.reservation n) :=
  ⟨⟨⟨⟨rfl, rfl⟩, rfl⟩, rfl⟩, fun _ => ⟨fails_liftStore, selects_liftStore _⟩⟩

theorem selects_claimLargestInsufficient (tier : Tier) (n : ℕ) :
    Selects args (claimLargestInsufficient (scope args tier) args.reservation n) :=
  ⟨⟨⟨⟨rfl, rfl⟩, rfl⟩, rfl⟩, fun _ => ⟨fails_liftStore, selects_liftStore _⟩⟩

theorem selects_claimExact (tier : Tier) (denomination count : ℕ) :
    Selects args (claimExact (scope args tier) args.reservation denomination count) :=
  ⟨⟨⟨⟨rfl, rfl⟩, rfl⟩, rfl⟩, fun _ => ⟨fails_liftStore, selects_liftStore _⟩⟩

theorem selects_fromTier (remaining : ℕ) (tier : Tier) (c : UtxoCollector) :
    Selects args (fromTier args remaining tier c) := by
  refine selects_bind (selects_claimSmallestSufficient tier remaining) fun r => ?_
  rcases r with _ | u
  · refine selects_bind (selects_claimLargestInsufficient tier remaining) fun batch => ?_
    exact selects_bind (selects_liftCollector _) fun r =>
        selects_bind (selects_releaseOutpoints _) fun _ => selects_pure _
  · exact selects_bind (selects_liftCollector _) fun _ => selects_pure _

theorem selects_round (remaining : ℕ) : ∀ (tiers : List Tier) (c : UtxoCollector),
    Selects args (round args remaining tiers c)
  | [], _ => selects_pure _
  | tier :: tiers, c => by
    refine selects_bind (selects_fromTier remaining tier c) fun r => ?_
    dsimp only
    split
    · exact selects_pure _
    · exact selects_round remaining tiers r.2

theorem selects_boundedTieredClaim : ∀ (n : ℕ) (c : UtxoCollector),
    Selects args (boundedTieredClaim args n c)
  | 0, _ => selects_throw _
  | n + 1, c => by
    refine selects_bind (selects_liftCollector _) fun funded => ?_
    split
    · exact selects_pure _
    · refine selects_bind (selects_liftCollector _) fun remaining => ?_
      split
      · exact selects_pure _
      · refine selects_bind (selects_round _ _ c) fun r => ?_
        dsimp only
        split
        · exact selects_bind (selects_throw _) fun _ => selects_boundedTieredClaim n r.2
        · exact selects_boundedTieredClaim n r.2

theorem selects_claimExactTiers : ∀ (tiers : List Tier) (n : ℕ),
    Selects args (claimExactTiers args tiers n)
  | [], _ => selects_pure _
  | tier :: tiers, n => by
    unfold claimExactTiers
    split
    · exact selects_pure _
    · refine selects_bind (selects_claimExact tier args.denomination n) fun got => ?_
      exact selects_bind (selects_claimExactTiers tiers _) fun _ => selects_pure _

theorem selects_claimExactFastPath (fees : FeeCalc) (c : UtxoCollector) :
    Selects args (claimExactFastPath fees args c) := by
  unfold claimExactFastPath
  dsimp only
  split
  · exact selects_throw _
  · refine selects_bind (selects_liftCollector _) fun _ =>
      selects_bind (selects_liftCollector _) fun need => ?_
    split
    · exact selects_pure _
    · refine selects_bind (selects_claimExactTiers _ _) fun _ =>
        selects_bind (selects_liftCollector _) fun r => ?_
      exact selects_bind (selects_releaseOutpoints _) fun _ => selects_pure _

theorem inPass_probe : ∀ tiers : List Tier, InPass args (probe args tiers)
  | [] => trivial
  | tier :: tiers => by
    refine Prog.only_except_bind ⟨⟨trivial, rfl⟩, fun _ => trivial⟩ fun r => ?_
    split
    · trivial
    · trivial
    · trivial
    · exact inPass_probe tiers

variable (args) in
/-- A pass under the token that does not release all of it, and that the first refusal ends. -/
def Passes (x : FundM α) : Prop :=
  Prog.Strict (fun c => c.Under args.userID args.reservation ∧ c.isRelease = false)
      StoreCall.Refused x.run

theorem passes_bind {f : α → FundM β} (hx : Passes args x) (hf : ∀ a, Passes args (f a)) :
    Passes args (x >>= f) :=
  Prog.strict_except_bind hx hf

theorem Selects.passes (h : Selects args x) : Passes args x := Prog.Strict.mono (fun _ h => h.1) h

theorem passes_orHiddenInventory (hx : Passes args x) : Passes args (orHiddenInventory args x) := by
  unfold Passes orHiddenInventory
  rw [Prog.lift_bind]
  refine Prog.Strict.bind ?_ ?_ hx
  · exact fun a => trivial
  intro e
  cases e with
  | notEnoughFunds =>
    refine ⟨?fails, Prog.Fails.strict ?fails (Prog.only_except_bind (inPass_probe args.tiers)
        fun tier => ?_)⟩
    · refine Prog.fails_bind (fun r => ?_) _
      rcases r with e | _ | tier <;> exact ⟨_, rfl⟩
    · cases tier <;> trivial
  | _ => exact ⟨⟨_, rfl⟩, trivial⟩

theorem passes_tieredClaim (rounds : ℕ) (c : UtxoCollector) :
    Passes args (tieredClaim rounds args c) :=
  passes_orHiddenInventory (passes_bind (selects_boundedTieredClaim rounds c).passes fun _ =>
    (selects_liftCollector _).passes)

theorem passes_fundOnce (fees : FeeCalc) (rounds : ℕ) :
    Passes args (fundOnce fees rounds args) := by
  refine passes_bind (selects_liftCollector _).passes fun c => ?_
  split
  · refine passes_bind (selects_claimExactFastPath fees c).passes fun c =>
      passes_bind (selects_liftCollector _).passes fun b => ?_
    split
    · exact (selects_liftCollector _).passes
    · exact passes_tieredClaim rounds c
  · exact passes_tieredClaim rounds c

theorem inPass_fundOnce (fees : FeeCalc) (rounds : ℕ) : InPass args (fundOnce fees rounds args) :=
  (passes_fundOnce fees rounds).only

theorem own_attempts (fees : FeeCalc) (rounds : ℕ) : ∀ n : ℕ, Own args (attempts fees rounds args n)
  | 0 => own_throw _
  | n + 1 => by
    refine own_bind (own_attempt (Prog.Only.mono (fun _ h => h.1) (inPass_fundOnce fees rounds)))
        fun r => ?_
    rcases r with e | r
    · dsimp only
      split
      · refine own_bind (own_bind (own_ask ⟨rfl, rfl⟩) fun _ => own_pure _) fun _ => ?_
        split
        · exact own_attempts fees rounds n
        · exact own_throw _
      · exact own_throw _
    · exact own_pure _

theorem own_fund (fees : FeeCalc) (rounds : ℕ) : Own args (fund fees rounds args) := by
  unfold fund
  split
  · exact own_throw _
  · exact own_attempts fees rounds _

end Funder

end ArcadeToolbox
