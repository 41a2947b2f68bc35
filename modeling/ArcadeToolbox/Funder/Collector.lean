import ArcadeToolbox.Lib.Binary64
import ArcadeToolbox.Utxostore.Types
import Mathlib.Order.Hom.Basic

/-!
# The collector: fee and change arithmetic

The collector adds up the coins allocated to a transaction, the fee for its size and the change
it will have. Satoshi amounts are bounded by the supply, and an amount out of range is an error;
where the source panics on one, the model has the error `panic`. The source computes a fee in
binary64 numbers, which round; the collector is modelled over every calculator that never asks less
for a larger size.
-/

namespace ArcadeToolbox

open Txn

/-- Why the funding fails. -/
inductive FundErr where
  | invalid (text : String)
  | notEnoughFunds
  /-- contention that lasted through every attempt -/
  | utxoContention
  | store (e : UtxoErr)
  /-- a pass allocated nothing although this tier has claimable coins -/
  | hiddenInventory (tier : Tier)
  | satoshiRange
  | panic
  /-- the model ran out of rounds; no error of the code -/
  | outOfRounds
  deriving DecidableEq, Repr

/-- What `errors.Is(err, utxostore.ErrContention)` matches. -/
def FundErr.isContention : FundErr → Bool
  | .store .contention | .hiddenInventory _ => true
  | _ => false

/-- An error `Fund` returns: a panic unwinds through it, and a model without rounds left has not got
to its end. -/
def FundErr.returned : FundErr → Bool
  | .panic | .outOfRounds => false
  | _ => true

/-! ## Satoshis and sizes -/

def maxSatoshis : ℤ := 2100000000000000

def satoshiFrom (v : ℤ) : Except FundErr ℤ :=
  if -maxSatoshis ≤ v ∧ v ≤ maxSatoshis then .ok v else .error .satoshiRange

def satoshiAdd (a b : ℤ) : Except FundErr ℤ := do
  satoshiFrom ((← satoshiFrom a) + (← satoshiFrom b))

def satoshiSubtract (a b : ℤ) : Except FundErr ℤ := do
  satoshiFrom ((← satoshiFrom a) - (← satoshiFrom b))

/-- The `Must` variants panic. -/
def must {α : Type} (x : Except FundErr α) : Except FundErr α :=
  match x with
  | .ok a => .ok a
  | .error _ => .error .panic

def varIntSize (n : ℕ) : ℕ :=
  if n < 0xFD then 1 else if n < 0x10000 then 3 else if n < 0x100000000 then 5 else 9

/-- The outpoint, the sequence number and the script. -/
def transactionInputSize (scriptSize : ℕ) : ℕ := 40 + varIntSize scriptSize + scriptSize

def transactionOutputSize (scriptSize : ℕ) : ℕ := varIntSize scriptSize + scriptSize + 8

def transactionSizeFromScriptLengths (inputs outputs : List ℕ) : ℕ :=
  8 + varIntSize inputs.length + (inputs.map transactionInputSize).sum
    + varIntSize outputs.length + (outputs.map transactionOutputSize).sum

def p2pkhUnlockingScriptLength : ℕ := 107
def p2pkhLockingScriptLength : ℕ := 25
def p2pkhOutputSize : ℕ := transactionOutputSize p2pkhLockingScriptLength
def p2pkhEstimatedInputSize : ℕ := transactionInputSize p2pkhUnlockingScriptLength

/-! ## Fees -/

/-- A fee calculator: the fee for a size in bytes, never lower for a larger size. -/
abbrev FeeCalc := ℕ →o ℕ

namespace FeeCalc

/-- The calculator of a rate in satoshis per thousand bytes: `ceil(size / 1000 * rate)`, with every
operation rounded as binary64 numbers are. -/
def satPerKB (rate : ℕ) : FeeCalc where
  toFun size := ⌈binary64 (binary64 (binary64 size / 1000) * binary64 rate)⌉₊
  monotone' m n h := by
    have hm : (0 : ℚ) ≤ m := Nat.cast_nonneg m
    have hrate : 0 ≤ binary64 rate := binary64_nonneg (Nat.cast_nonneg rate)
    have hsize : binary64 m / 1000 ≤ binary64 n / 1000 :=
      div_le_div_of_nonneg_right (binary64_mono hm (Nat.cast_le.mpr h)) (by norm_num)
    have hpos : 0 ≤ binary64 m / 1000 := div_nonneg (binary64_nonneg hm) (by norm_num)
    exact Nat.ceil_mono (binary64_mono (mul_nonneg (binary64_nonneg hpos) hrate)
      (mul_le_mul_of_nonneg_right (binary64_mono hpos hsize) hrate))

/-- The fee without rounding on the way, as exact arithmetic has it. -/
def exact (rate : ℕ) : FeeCalc where
  toFun size := (size * rate + 999) / 1000
  monotone' _ _ h := Nat.div_le_div_right (Nat.add_le_add_right (Nat.mul_le_mul_right rate h) 999)

theorem exact_apply (rate size : ℕ) : exact rate size = (size * rate + 999) / 1000 := rfl

-- the binary64 quotient of 280 by 1000 is above 0.28
example : satPerKB 100 280 = 29 ∧ exact 100 280 = 28 := by decide +kernel

end FeeCalc

/-- `feeCalc.Calculate`. -/
def calculateFee (fees : FeeCalc) (size : ℕ) : Except FundErr ℤ := satoshiFrom (fees size)

/-! ## The collector -/

/-- What has been allocated so far, and what it pays for. -/
structure UtxoCollector where
  fees : FeeCalc
  txSats : ℤ
  txSize : ℕ
  fee : ℤ
  satsCovered : ℤ
  allocatedUTXOs : List Utxo
  outputCount : ℕ
  numberOfDesiredUTXOs : ℕ
  minimumDesiredUTXOValue : ℕ
  maxChangeOutputsPerTx : ℕ
  changeOutputsCount : ℕ
  minimumChange : ℕ
  requireChange : Bool
  dustFloor : ℕ

/-- What the funder allocated, and the change. -/
structure FundResult where
  allocatedUTXOs : List Utxo
  changeOutputsCount : ℕ
  changeAmount : ℤ
  fee : ℤ
  dustFloor : ℕ
  deriving DecidableEq, Repr

namespace UtxoCollector

def satsToCover (c : UtxoCollector) : Except FundErr ℤ := must (satoshiAdd c.txSats c.fee)

def change (c : UtxoCollector) : Except FundErr ℤ := do
  must (satoshiSubtract c.satsCovered (← c.satsToCover))

/-- A transaction without change would have no output, or not the shape the caller pinned. -/
def changeMandatory (c : UtxoCollector) : Bool := c.outputCount = 0 || c.requireChange

def isFunded (c : UtxoCollector) : Except FundErr Bool := do
  if c.changeMandatory then
    if c.changeOutputsCount > 0 then return decide ((c.dustFloor : ℤ) ≤ (← c.change))
        else return false
  else return decide ((← c.satsToCover) ≤ c.satsCovered)

/-- What is still to cover when the next input is to leave change above the dust floor, with the
size of the transaction then. -/
def shortOfChange (c : UtxoCollector) (size : ℕ) : Except FundErr (Option ℤ) := do
  let fee ← must (calculateFee c.fees size)
  let toCover ← must (satoshiAdd (← must (satoshiAdd c.txSats fee)) c.dustFloor)
  if toCover > c.satsCovered then return some (← must (satoshiSubtract toCover c.satsCovered))
  return none

/-- The need while change is mandatory and not above the dust floor. -/
def needForChange (c : UtxoCollector) : Except FundErr (Option ℤ) := do
  let change ← c.change
  if c.changeOutputsCount > 0 && change < c.dustFloor then
    c.shortOfChange (c.txSize + p2pkhEstimatedInputSize)
  else if c.changeOutputsCount = 0 then
    c.shortOfChange (c.txSize + p2pkhEstimatedInputSize + p2pkhOutputSize)
  else return none

def uncovered (c : UtxoCollector) : Except FundErr ℤ := do
  must (satoshiSubtract (← c.satsToCover) c.satsCovered)

def remaining (c : UtxoCollector) : Except FundErr ℤ :=
  if c.changeMandatory then do
    match ← c.needForChange with
    | some r => return r
    | none => c.uncovered
  else c.uncovered

def increaseSize (c : UtxoCollector) (size : ℕ) : Except FundErr UtxoCollector := do
  let fee ← calculateFee c.fees (c.txSize + size)
  return { c with txSize := c.txSize + size, fee := fee }

/-- The number of change outputs, lowered until each gets the dust floor. -/
def dropDust (changeVal dustFloor : ℕ) : ℕ → ℕ
  | 0 => 0
  | 1 => 1
  | n + 2 => if changeVal / (n + 2) < dustFloor then dropDust changeVal dustFloor (n + 1) else n + 2

/-- The number of change outputs that the desired value, the desired count and the cap ask for. -/
def wantedOutputs (c : UtxoCollector) (changeVal : ℕ) : ℕ :=
  let wanted := changeVal / c.minimumDesiredUTXOValue + 1
  let kept := if changeVal % c.minimumDesiredUTXOValue < c.minimumChange then wanted - 1 else wanted
  let cap := if c.maxChangeOutputsPerTx < c.numberOfDesiredUTXOs then c.maxChangeOutputsPerTx
    else c.numberOfDesiredUTXOs
  if kept < 1 then 1 else if cap < kept then cap else kept

/-- How many change outputs the change is split into. -/
def calculateChangeCount (c : UtxoCollector) (changeVal : ℕ) : ℕ :=
  dropDust changeVal c.dustFloor (c.wantedOutputs changeVal)

/-- Without change the count stays what it was; with change its outputs are added to the size on
every call. -/
def calculateChangeOutputs (c : UtxoCollector) : Except FundErr UtxoCollector := do
  let change ← c.change
  if change ≤ 0 then return c
  let count := c.calculateChangeCount change.toNat
  ({ c with changeOutputsCount := count }).increaseSize (count * p2pkhOutputSize)

/-- One more coin, with the fee for its size. -/
def allocateUTXO (c : UtxoCollector) (u : Utxo) : Except FundErr UtxoCollector := do
  let c ← ({ c with allocatedUTXOs := c.allocatedUTXOs ++ [u] }).increaseSize
    (transactionInputSize u.inputSize)
  let covered ← satoshiAdd c.satsCovered (← must (satoshiFrom u.satoshis))
  ({ c with satsCovered := covered }).calculateChangeOutputs

/-- `newCollector`. -/
def start (fees : FeeCalc) (txSats : ℤ) (txSize outputCount : ℕ) (numberOfDesiredUTXOs : ℤ)
    (minimumDesiredUTXOValue maxChangeOutputsPerTx : ℕ) (requireChange : Bool) :
    Except FundErr UtxoCollector := do
  let minimum := if minimumDesiredUTXOValue < 1 then 1 else minimumDesiredUTXOValue
  let minSpendTxSize := transactionSizeFromScriptLengths [p2pkhUnlockingScriptLength]
    [p2pkhLockingScriptLength]
  let c : UtxoCollector ← increaseSize
    { fees := fees, txSats := txSats, txSize := 0, fee := 0, satsCovered := 0,
      allocatedUTXOs := [], outputCount := outputCount,
      numberOfDesiredUTXOs := if numberOfDesiredUTXOs < 1 then 1 else numberOfDesiredUTXOs.toNat,
      minimumDesiredUTXOValue := minimum, maxChangeOutputsPerTx := maxChangeOutputsPerTx,
      changeOutputsCount := 0, minimumChange := minimum / 4, requireChange := requireChange,
      dustFloor := max 1 (fees minSpendTxSize * 2) } txSize
  c.calculateChangeOutputs

/-- Change below the dust floor goes to the fee. -/
def result (c : UtxoCollector) : Except FundErr FundResult := do
  if ← c.isFunded then
    let change ← c.change
    return { allocatedUTXOs := c.allocatedUTXOs, fee := c.fee, changeAmount := change,
             changeOutputsCount := if change < c.dustFloor then 0 else c.changeOutputsCount,
             dustFloor := c.dustFloor }
  else throw .notEnoughFunds

end UtxoCollector

end ArcadeToolbox
