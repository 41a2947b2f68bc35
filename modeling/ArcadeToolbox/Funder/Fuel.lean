import ArcadeToolbox.Funder.Pricing
import Mathlib.Algebra.Order.Floor.Div

/-!
# Coins of one denomination

The number of fuel coins is asked for in closed form: the target and the fee of the transaction
without them, divided by what a coin is worth after the fee of its own input. The fee is rounded up
once for the whole transaction and once for each input here, so so many coins always cover their
transaction.
-/

namespace ArcadeToolbox

open Txn UtxoCollector

namespace Funder

variable {fees : FeeCalc} {rate : ℕ} {args : FundArgs} {us : List Utxo}

theorem exact_add_le (rate m n : ℕ) :
    FeeCalc.exact rate (m + n) ≤ FeeCalc.exact rate m + FeeCalc.exact rate n := by
  rw [FeeCalc.exact_apply, FeeCalc.exact_apply, FeeCalc.exact_apply, Nat.add_mul]
  omega

theorem exact_mul_le (rate size : ℕ) :
    ∀ n : ℕ, FeeCalc.exact rate (n * size) ≤ n * FeeCalc.exact rate size
  | 0 => by simp [FeeCalc.exact_apply]
  | n + 1 => by
    have hadd := exact_add_le rate (n * size) size
    have ih := exact_mul_le rate size n
    rw [Nat.succ_mul, Nat.succ_mul]
    omega

theorem fuelInputSizeBytes_eq : fuelInputSizeBytes = transactionInputSize
    defaultP2PKHInputSize := by decide

/-- Coins of the denomination, spent by a P2PKH input each. -/
def FuelCoins (denomination : ℕ) (us : List Utxo) : Prop :=
  ∀ u ∈ us, u.satoshis = denomination ∧ u.inputSize = defaultP2PKHInputSize

theorem FuelCoins.totalSatoshis {denomination : ℕ} (h : FuelCoins denomination us) :
    totalSatoshis us = us.length * denomination := by
  unfold UtxoCollector.totalSatoshis
  rw [List.map_congr_left fun u hu => (h u hu).1, List.map_const', List.sum_replicate_nat]

theorem FuelCoins.inputsSize {denomination : ℕ} (h : FuelCoins denomination us) :
    inputsSize us = us.length * fuelInputSizeBytes := by
  unfold UtxoCollector.inputsSize
  rw [List.map_congr_left fun u hu => congrArg transactionInputSize (h u hu).2, List.map_const',
      List.sum_replicate_nat,
    fuelInputSizeBytes_eq]

/-- What is to be covered without the fuel. -/
def need (fees : FeeCalc) (args : FundArgs) : ℤ := args.targetSat + fees args.currentTxSize

/-- What a fuel coin is worth after the fee of its input. -/
def netFuel (fees : FeeCalc) (args : FundArgs) : ℕ := args.denomination - fees fuelInputSizeBytes

/-- The fee of the fuel inputs together is at most the marginal fee of each. -/
theorem exact_fuel_le (rate size n : ℕ) : FeeCalc.exact rate (size + n * fuelInputSizeBytes)
    ≤ FeeCalc.exact rate size + n * FeeCalc.exact rate fuelInputSizeBytes :=
  (exact_add_le rate size _).trans (Nat.add_le_add_left (exact_mul_le rate _ n) _)

theorem covers_of_enough (hd : FeeCalc.exact rate fuelInputSizeBytes < args.denomination)
    (hus : FuelCoins args.denomination us)
    (h : (need (.exact rate) args).toNat ≤ us.length * netFuel (.exact rate) args) :
    args.targetSat + FeeCalc.exact rate (args.currentTxSize + inputsSize us)
      ≤ totalSatoshis us := by
  have hfee := exact_fuel_le rate args.currentTxSize us.length
  have hnet : us.length * netFuel (.exact rate) args + us.length * FeeCalc.exact rate
      fuelInputSizeBytes
      = us.length * args.denomination := by
    rw [← Nat.mul_add, netFuel, Nat.sub_add_cancel hd.le]
  unfold need at h
  rw [hus.inputsSize, hus.totalSatoshis]
  omega

theorem short_of_fewer (hd : fees fuelInputSizeBytes < args.denomination)
    (hus : FuelCoins args.denomination us)
    (h : us.length * netFuel fees args < (need fees args).toNat) :
    (totalSatoshis us : ℤ) < need fees args + us.length * fees fuelInputSizeBytes := by
  have hnet : us.length * netFuel fees args + us.length * fees fuelInputSizeBytes
      = us.length * args.denomination := by
    rw [← Nat.mul_add, netFuel, Nat.sub_add_cancel hd.le]
  rw [hus.totalSatoshis, ← hnet, Nat.cast_add, Nat.cast_mul us.length (fees _)]
  omega

theorem liftCollector_bind {α β : Type} (a : α) (f : α → FundM β) :
    liftCollector (.ok a) >>= f = f a := rfl

theorem claimExactFastPath_asks {σ : Type} (h : (c : StoreCall) → σ → c.Answer × σ) (s : σ)
    (c : UtxoCollector) {tier : Tier} {tiers : List Tier} (htiers : args.tiers = tier :: tiers)
    (hd : fees fuelInputSizeBytes < args.denomination) (hneed : 0 < need fees args)
    (hfee : calculateFee fees args.currentTxSize = .ok (fees args.currentTxSize))
    (hsum : satoshiAdd args.targetSat (fees args.currentTxSize) = .ok (need fees args))
    (hcap : (need fees args).toNat ⌈/⌉ netFuel fees args ≤ maxExactClaim) :
    ((claimExactFastPath fees args c).run.calls h s).head? = some
    (.claimExact (scope args tier) args.reservation
      args.denomination ((need fees args).toNat ⌈/⌉ netFuel fees args : ℕ), s) := by
  have hnet : 0 < netFuel fees args := Nat.sub_pos_of_lt hd
  have hpos : 0 < (need fees args).toNat ⌈/⌉ netFuel fees args :=
    Nat.pos_of_ne_zero fun hzero => by
      have hle := (ceilDiv_le_iff_le_smul hnet).mp hzero.le
      rw [smul_zero] at hle
      omega
  have hcount : (if maxExactClaim < ((need fees args).toNat + netFuel fees args - 1)
      / netFuel fees args
      then maxExactClaim else ((need fees args).toNat + netFuel fees args - 1) / netFuel fees args)
      = (need fees args).toNat ⌈/⌉ netFuel fees args := by
    rw [← Nat.ceilDiv_eq_add_pred_div, if_neg (Nat.not_lt.mpr hcap)]
  unfold claimExactFastPath
  rw [if_neg (Nat.not_le.mpr hd), hfee, liftCollector_bind, hsum, liftCollector_bind,
      if_neg (not_le.mpr hneed)]
  rw [htiers]
  change (((claimExactTiers args (tier :: tiers) _ >>= _ : FundM _)).run.calls h s).head? = _
  rw [show args.denomination - fees fuelInputSizeBytes = netFuel fees args from rfl, hcount]
  rw [Prog.calls_except_bind, claimExactTiers, if_neg hpos.ne']
  rfl

/-- A denomination above the marginal fee, for a need that is positive: the rounded quotient is what
the fast path asks for, so many coins cover the target with the fee of the transaction they make,
and one coin fewer does not cover the need with the marginal fees. -/
theorem exact_fuel_covers (rate : ℕ) (args : FundArgs) (n : ℕ)
    (hd : FeeCalc.exact rate fuelInputSizeBytes < args.denomination)
    (hneed : 0 < need (.exact rate) args)
    (hn : n = (need (.exact rate) args).toNat ⌈/⌉ netFuel (.exact rate) args)
    (hcap : n ≤ maxExactClaim) :
    (∀ us, FuelCoins args.denomination us → us.length = n →
      args.targetSat + FeeCalc.exact rate (args.currentTxSize + inputsSize us) ≤ totalSatoshis us)
    ∧ (∀ us, FuelCoins args.denomination us → us.length + 1 = n →
      (totalSatoshis us : ℤ) < need (.exact rate) args + us.length * FeeCalc.exact rate
        fuelInputSizeBytes)
    ∧ (∀ tier tiers, args.tiers = tier :: tiers → -maxSatoshis ≤ args.targetSat →
      need (.exact rate) args ≤ maxSatoshis →
      FeeCalc.exact rate args.currentTxSize ≤ maxSatoshis →
      ∀ (σ : Type) (h : (c : StoreCall) → σ → c.Answer × σ) (s : σ) (c : UtxoCollector),
        ((claimExactFastPath (.exact rate) args c).run.calls h s).head?
          = some (.claimExact (scope args tier) args.reservation args.denomination n, s)) := by
  have hnet : 0 < netFuel (.exact rate) args := Nat.sub_pos_of_lt hd
  subst hn
  refine ⟨fun us hus hlen => covers_of_enough hd hus ?_, fun us hus hlen =>
      short_of_fewer hd hus ?_, ?_⟩
  · rw [hlen, Nat.mul_comm]
    exact le_smul_ceilDiv hnet
  · rw [← Nat.not_le]
    intro hle
    rw [Nat.mul_comm] at hle
    have hfewer := (ceilDiv_le_iff_le_smul hnet).mpr hle
    omega
  · intro tier tiers htiers htarget hrange hfee σ h s c
    have htarget' : args.targetSat ≤ maxSatoshis := by
      unfold need at hrange
      omega
    have hfee' : -maxSatoshis ≤ FeeCalc.exact rate args.currentTxSize := by
      unfold maxSatoshis
      omega
    have hneed' : -maxSatoshis ≤ need (.exact rate) args := by
      unfold maxSatoshis
      omega
    refine claimExactFastPath_asks h s c htiers hd hneed (satoshiFrom_of_le hfee' hfee) ?_ hcap
    unfold satoshiAdd
    rw [satoshiFrom_of_le htarget htarget', satoshiFrom_of_le hfee' hfee]
    exact satoshiFrom_of_le hneed' hrange

/-- A payment from a pool of coins of 1000 satoshis. -/
def fuelPayment : FundArgs := { payment 44 with denomination := 1000 }

theorem exact_fuel_covers_two :
    0 < need (.exact 1000) fuelPayment ∧ 2 = (need (.exact 1000) fuelPayment).toNat ⌈/⌉ netFuel
      (.exact 1000) fuelPayment
      ∧ 1000 + FeeCalc.exact 1000 (44 + inputsSize [coin 0 1000, coin 1 1000])
        ≤ (totalSatoshis [coin 0 1000, coin 1 1000] : ℤ)
      ∧ (totalSatoshis [coin 0 1000] : ℤ) < need
        (.exact 1000) fuelPayment + 1 * FeeCalc.exact 1000 fuelInputSizeBytes := by
  obtain ⟨henough, hfewer, -⟩ := exact_fuel_covers 1000 fuelPayment 2 (by decide) (by decide)
      (by decide) (by decide)
  have hcoin : ∀ i, FuelCoins 1000 [coin i 1000] := fun i u hu => by
    rw [List.mem_singleton.mp hu]
    exact ⟨rfl, rfl⟩
  have hcoins : FuelCoins 1000 [coin 0 1000, coin 1 1000] := fun u hu =>
    (List.mem_cons.mp hu).elim (fun h => hcoin 0 u (List.mem_singleton.mpr h)) (hcoin 1 u)
  exact ⟨by decide, by decide, henough _ hcoins rfl, hfewer _ (hcoin 0) rfl⟩

end Funder

end ArcadeToolbox
