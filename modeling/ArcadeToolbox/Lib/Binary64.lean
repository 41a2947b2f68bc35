import Mathlib.Data.Int.Log
import Mathlib.Data.Rat.Floor
import Mathlib.Tactic.Linarith

/-!
# Rounding to 53 significant bits

The nearest number with 53 significant bits, and of two equally near the one whose last bit is even,
as a binary64 operation rounds a result that is neither too large nor too small for its exponent.
Rounding keeps the order.
-/

namespace Txn

/-- The nearest integer; halfway between two, the even one. -/
def nearestEven (x : ℚ) : ℤ :=
  if x - ⌊x⌋ < 1 / 2 ∨ x - ⌊x⌋ = 1 / 2 ∧ 2 ∣ ⌊x⌋ then ⌊x⌋ else ⌊x⌋ + 1

theorem floor_le_nearestEven (x : ℚ) : ⌊x⌋ ≤ nearestEven x := by
  unfold nearestEven
  split <;> omega

theorem nearestEven_le_floor_add_one (x : ℚ) : nearestEven x ≤ ⌊x⌋ + 1 := by
  unfold nearestEven
  split <;> omega

theorem nearestEven_mono {x y : ℚ} (h : x ≤ y) : nearestEven x ≤ nearestEven y := by
  rcases (Int.floor_mono h).lt_or_eq with hlt | heq
  · exact (nearestEven_le_floor_add_one x).trans
      (Int.add_one_le_of_lt hlt |>.trans (floor_le_nearestEven y))
  · unfold nearestEven
    rw [heq]
    -- between the same two integers the fraction of `x` is the smaller one
    split
    · split <;> omega
    · rename_i hx
      rw [if_neg]
      intro hy
      refine hx (hy.elim (fun hlt => Or.inl (by linarith)) fun hhalf => ?_)
      rcases (show x - ⌊y⌋ ≤ 1 / 2 by linarith [hhalf.1]).lt_or_eq with hlt | heq'
      · exact Or.inl hlt
      · exact Or.inr ⟨heq', hhalf.2⟩

theorem nearestEven_intCast (n : ℤ) : nearestEven n = n := by
  simp [nearestEven]

/-- The unit in the last place of a number of the magnitude of `x`. -/
def ulp (x : ℚ) : ℚ := 2 ^ (Int.log 2 x - 52)

/-- The rounded number. -/
def binary64 (x : ℚ) : ℚ := nearestEven (x / ulp x) * ulp x

theorem ulp_pos (x : ℚ) : 0 < ulp x := zpow_pos two_pos _

@[simp]
theorem binary64_zero : binary64 0 = 0 := by
  have h := nearestEven_intCast 0
  rw [Int.cast_zero] at h
  rw [binary64, zero_div, h, Int.cast_zero, zero_mul]

/-- A number stays below the next power of two or becomes it. -/
theorem binary64_le_zpow (x : ℚ) : binary64 x ≤ 2 ^ (Int.log 2 x + 1) := by
  have hpow : ((2 ^ 53 : ℤ) : ℚ) * ulp x = 2 ^ (Int.log 2 x + 1) := by
    rw [ulp, Int.cast_pow, Int.cast_two, ← zpow_natCast, ← zpow_add₀ two_ne_zero]
    congr 1
    omega
  rw [← hpow]
  refine mul_le_mul_of_nonneg_right ?_ (ulp_pos x).le
  have hlt : x / ulp x ≤ (2 ^ 53 : ℤ) := by
    rw [div_le_iff₀ (ulp_pos x), hpow]
    exact (Int.lt_zpow_succ_log_self one_lt_two x).le
  have hround := nearestEven_mono hlt
  rw [nearestEven_intCast] at hround
  exact_mod_cast hround

/-- A positive number does not fall below its power of two. -/
theorem zpow_le_binary64 {x : ℚ} (hx : 0 < x) : 2 ^ Int.log 2 x ≤ binary64 x := by
  have hpow : ((2 ^ 52 : ℤ) : ℚ) * ulp x = 2 ^ Int.log 2 x := by
    rw [ulp, Int.cast_pow, Int.cast_two, ← zpow_natCast, ← zpow_add₀ two_ne_zero]
    congr 1
    omega
  rw [← hpow]
  refine mul_le_mul_of_nonneg_right ?_ (ulp_pos x).le
  have hle : ((2 ^ 52 : ℤ) : ℚ) ≤ x / ulp x := by
    rw [le_div_iff₀ (ulp_pos x), hpow]
    exact Int.zpow_log_le_self one_lt_two hx
  have hround := nearestEven_mono hle
  rw [nearestEven_intCast] at hround
  exact_mod_cast hround

theorem binary64_nonneg {x : ℚ} (hx : 0 ≤ x) : 0 ≤ binary64 x := by
  rcases hx.eq_or_lt with rfl | hpos
  · exact binary64_zero.ge
  · exact (zpow_pos two_pos _).le.trans (zpow_le_binary64 hpos)

theorem binary64_mono {x y : ℚ} (hx : 0 ≤ x) (h : x ≤ y) : binary64 x ≤ binary64 y := by
  rcases hx.eq_or_lt with rfl | hpos
  · rw [binary64_zero]
    exact binary64_nonneg h
  have hy : 0 < y := hpos.trans_le h
  rcases (Int.log_mono_right hpos h : Int.log 2 x ≤ Int.log 2 y).lt_or_eq with hlt | heq
  -- a power of two stands between numbers of different magnitude
  · calc binary64 x ≤ 2 ^ (Int.log 2 x + 1) := binary64_le_zpow x
      _ ≤ 2 ^ Int.log 2 y := zpow_le_zpow_right₀ one_le_two hlt
      _ ≤ binary64 y := zpow_le_binary64 hy
  · have hulp : ulp x = ulp y := by rw [ulp, ulp, heq]
    have hquot : x / ulp y ≤ y / ulp y := div_le_div_of_nonneg_right h (ulp_pos y).le
    rw [binary64, binary64, hulp]
    exact mul_le_mul_of_nonneg_right (Int.cast_le.mpr (nearestEven_mono hquot)) (ulp_pos y).le

end Txn
