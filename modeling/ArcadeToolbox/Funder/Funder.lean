import ArcadeToolbox.Funder.Collector
import ArcadeToolbox.Lib.Program

/-!
# The funder

Coins are claimed from the store as they are needed: tier by tier the smallest coin that suffices,
and failing that a batch of the largest that do not. A pass that meets contention is given up, the
whole reservation is released, and the selection starts again.

The funder is a program over the calls of the store.
-/

namespace ArcadeToolbox

open Txn

/-- What the funder asks of the store. -/
inductive StoreCall where
  | claimSmallestSufficient (sc : Scope) (reservation : Token) (minSats : ℕ)
  | claimLargestInsufficient (sc : Scope) (reservation : Token) (capSats : ℕ) (limit : ℤ)
  | claimExact (sc : Scope) (reservation : Token) (denomination : ℕ) (count : ℤ)
  | releaseReservation (userID : UserID) (reservation : Token)
  | releaseOutpoints (reservation : Token) (ops : List Outpoint)
  | claimableExists (sc : Scope) (minSats : ℕ)
  deriving DecidableEq, Repr

/-- A store that cannot be probed answers `none` to a probe. -/
def StoreCall.Answer : StoreCall → Type
  | claimSmallestSufficient _ _ _ => Except UtxoErr (Option Utxo)
  | claimLargestInsufficient _ _ _ _ => Except UtxoErr (List Utxo)
  | claimExact _ _ _ _ => Except UtxoErr (List Utxo)
  | releaseReservation _ _ => Except UtxoErr ℕ
  | releaseOutpoints _ _ => Except UtxoErr Unit
  | claimableExists _ _ => Option (Except UtxoErr Bool)

/-- A part of the funder, by the calls it makes. -/
abbrev FundM := ExceptT FundErr (Prog StoreCall StoreCall.Answer)

/-- What is to be funded, and from where. -/
structure FundArgs where
  userID : UserID
  basket : String
  reservation : Token
  targetSat : ℤ
  currentTxSize : ℕ
  outputCount : ℕ
  tiers : List Tier
  numberOfDesiredUTXOs : ℤ
  minimumDesiredUTXOValue : ℕ
  maxChangeOutputsPerTx : ℕ
  requireChange : Bool
  existingBasketCount : ℤ
  denomination : ℕ
  deriving DecidableEq, Repr

def FundArgs.validate (a : FundArgs) : Option FundErr :=
  if a.reservation = "" then some (.invalid "funder: reservation must be non-empty")
  else if a.userID ≤ 0 then some (.invalid "funder: user id must be positive")
  else if a.basket = "" then some (.invalid "funder: basket must be non-empty")
  else if a.tiers = [] then some (.invalid "funder: at least one tier is required")
  else if a.maxChangeOutputsPerTx = 0 then
    some (.invalid "funder: max change outputs per tx must be >= 1")
  else none

def insufficientBatchSize : ℤ := 16
def maxFundingAttempts : ℕ := 3
def maxExactClaim : ℕ := 2 ^ 20
def fuelInputSizeBytes : ℕ := 148

namespace Funder

/-- Make one call and return its answer. -/
def ask (c : StoreCall) : FundM c.Answer := ExceptT.lift (Prog.ask c)

/-- A call whose error ends the pass. -/
def liftStore {α : Type} (r : Except UtxoErr α) : FundM α :=
  match r with
  | .ok a => pure a
  | .error e => throw (.store e)

def liftCollector {α : Type} (r : Except FundErr α) : FundM α := ExceptT.mk (.done r)

def claimSmallestSufficient (sc : Scope) (reservation : Token) (minSats : ℕ) :
    FundM (Option Utxo) := do
  liftStore (← ask (.claimSmallestSufficient sc reservation minSats))

def claimLargestInsufficient (sc : Scope) (reservation : Token) (capSats : ℕ) :
    FundM (List Utxo) := do
  liftStore (← ask (.claimLargestInsufficient sc reservation capSats insufficientBatchSize))

def claimExact (sc : Scope) (reservation : Token) (denomination count : ℕ) : FundM (List Utxo) := do
  liftStore (← ask (.claimExact sc reservation denomination count))

/-- The coins that were claimed and are not needed. -/
def releaseOutpoints (reservation : Token) (us : List Utxo) : FundM Unit := do
  if us = [] then return
  liftStore (← ask (.releaseOutpoints reservation (us.map (·.outpoint))))

/-- Everything held under the token; best effort. -/
def release (userID : UserID) (reservation : Token) : FundM Unit := do
  let _ ← ask (.releaseReservation userID reservation)

def scope (args : FundArgs) (tier : Tier) : Scope := ⟨args.userID, args.basket, tier⟩

/-- Take coins of a batch, largest first, while each is still below the remaining need. What is
left of the batch comes back. -/
def consumeBatch : List Utxo → UtxoCollector → Except FundErr (List Utxo × UtxoCollector)
  | [], c => .ok ([], c)
  | u :: us, c => do
    if ← c.isFunded then return (u :: us, c)
    let remaining ← c.remaining
    if remaining ≤ 0 ∨ remaining ≤ u.satoshis then return (u :: us, c)
    consumeBatch us (← c.allocateUTXO u)

/-- The coins of a batch, until there is enough; the rest is left over. -/
def drainBatch (args : FundArgs) (batch : List Utxo) (c : UtxoCollector) :
    FundM (Bool × UtxoCollector) := do
  let (rest, c') ← liftCollector (consumeBatch batch c)
  releaseOutpoints args.reservation rest
  return (decide (rest.length < batch.length), c')

/-- One coin that is enough, or a batch of smaller ones. -/
def fromTier (args : FundArgs) (remaining : ℕ) (tier : Tier) (c : UtxoCollector) :
    FundM (Bool × UtxoCollector) := do
  match ← claimSmallestSufficient (scope args tier) args.reservation remaining with
  | some u => return (true, ← liftCollector (c.allocateUTXO u))
  | none =>
    let batch ← claimLargestInsufficient (scope args tier) args.reservation remaining
    drainBatch args batch c

/-- The tiers in order, up to the first that allocates. -/
def round (args : FundArgs) (remaining : ℕ) : List Tier → UtxoCollector →
    FundM (Bool × UtxoCollector)
  | [], c => return (false, c)
  | tier :: tiers, c => do
    let (allocated, c') ← fromTier args remaining tier c
    if allocated then return (true, c')
    round args remaining tiers c'

/-- Rounds until the collector is funded; `n` bounds how many the model runs. -/
def boundedTieredClaim (args : FundArgs) : ℕ → UtxoCollector → FundM UtxoCollector
  | 0, _ => throw .outOfRounds
  | n + 1, c => do
    if ← liftCollector c.isFunded then return c
    let remaining ← liftCollector c.remaining
    if remaining ≤ 0 then return c
    let (allocated, c') ← round args remaining.toNat args.tiers c
    if !allocated then throw .notEnoughFunds
    boundedTieredClaim args n c'

/-- Whether some tier has a claimable coin that the pass did not get. -/
def probe (args : FundArgs) : List Tier → FundM (Option Tier)
  | [] => return none
  | tier :: tiers => do
    match ← ask (.claimableExists (scope args tier) 0) with
    | none | some (.error _) => return none
    | some (.ok true) => return some tier
    | some (.ok false) => probe args tiers

/-- `contentionIfInventoryHidden`, the last thing a failing pass does. -/
def orHiddenInventory {α : Type} (args : FundArgs) (x : FundM α) : FundM α := do
  match ← ExceptT.lift x.run with
  | .ok a => return a
  | .error .notEnoughFunds =>
    match ← probe args args.tiers with
    | some tier => throw (.hiddenInventory tier)
    | none => throw .notEnoughFunds
  | .error e => throw e

/-- Coins of one denomination across the tiers, up to `n`. -/
def claimExactTiers (args : FundArgs) : List Tier → ℕ → FundM (List Utxo)
  | [], _ => return []
  | tier :: tiers, n => do
    if n = 0 then return []
    let got ← claimExact (scope args tier) args.reservation args.denomination n
    return got ++ (← claimExactTiers args tiers (n - got.length))

def consumeExact : List Utxo → UtxoCollector → Except FundErr (List Utxo × UtxoCollector)
  | [], c => .ok ([], c)
  | u :: us, c => do
    if ← c.isFunded then return (u :: us, c)
    consumeExact us (← c.allocateUTXO u)

/-- Coins of the wanted worth, all at once. -/
def claimExactFastPath (fees : FeeCalc) (args : FundArgs) (c : UtxoCollector) :
    FundM UtxoCollector :=
  let marginal := fees fuelInputSizeBytes
  if args.denomination ≤ marginal then
    throw (.invalid "funder: denomination must exceed the marginal input fee")
  else do
    let baseFee ← liftCollector (calculateFee fees args.currentTxSize)
    let need ← liftCollector (satoshiAdd args.targetSat baseFee)
    if need ≤ 0 then return c
    let net := args.denomination - marginal
    let n := (need.toNat + net - 1) / net
    let claimed ← claimExactTiers args args.tiers (if maxExactClaim < n then maxExactClaim else n)
    let (rest, c') ← liftCollector (consumeExact claimed c)
    releaseOutpoints args.reservation rest
    return c'

/-- The tiered selection of a pass. -/
def tieredClaim (rounds : ℕ) (args : FundArgs) (c : UtxoCollector) : FundM FundResult :=
  orHiddenInventory args do liftCollector (← boundedTieredClaim args rounds c).result

/-- One full selection pass. -/
def fundOnce (fees : FeeCalc) (rounds : ℕ) (args : FundArgs) : FundM FundResult := do
  let c ← liftCollector (UtxoCollector.start fees args.targetSat args.currentTxSize
    args.outputCount (args.numberOfDesiredUTXOs - args.existingBasketCount)
    args.minimumDesiredUTXOValue args.maxChangeOutputsPerTx args.requireChange)
  if args.denomination > 0 then
    let c ← claimExactFastPath fees args c
    if ← liftCollector c.isFunded then liftCollector c.result else tieredClaim rounds args c
  else tieredClaim rounds args c

/-- Passes until one succeeds, fails for good, or the attempts are used up. Whatever ends a pass
in an error releases the whole token; a panic releases nothing. -/
def attempts (fees : FeeCalc) (rounds : ℕ) (args : FundArgs) : ℕ → FundM FundResult
  | 0 => throw .utxoContention
  | n + 1 => do
    match ← ExceptT.lift (fundOnce fees rounds args).run with
    | .ok r => return r
    | .error e =>
      if e.returned then
        release args.userID args.reservation
        if e.isContention then attempts fees rounds args n else throw e
      else throw e

/-- The exact coins first, then the general walk, tried anew on contention. -/
def fund (fees : FeeCalc) (rounds : ℕ) (args : FundArgs) : FundM FundResult :=
  match args.validate with
  | some e => throw e
  | none => attempts fees rounds args maxFundingAttempts

end Funder

end ArcadeToolbox
