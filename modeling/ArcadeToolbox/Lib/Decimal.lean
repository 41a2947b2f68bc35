import Mathlib.Algebra.Group.Nat.Defs
import Mathlib.Algebra.Ring.Int.Defs
import Mathlib.Data.Nat.Notation

/-!
# Decimal numbers

Integers of 64 bits read from a text: an optional sign, then digits and nothing else. And integers
written as a text, which has no other characters and tells the integer.
-/

namespace Txn

/-- The value of a decimal digit. -/
def digit (c : Char) : Option ℕ := if '0' ≤ c ∧ c ≤ '9' then some (c.toNat - '0'.toNat) else none

def parseDigits : List Char → Option ℕ
  | [] => none
  | ds => ds.foldlM (fun n c => (digit c).map (10 * n + ·)) 0

/-- `strconv.ParseInt(s, 10, 64)`. -/
def parseInt (s : String) : Option ℤ :=
  match s.toList with
  | '-' :: ds => (parseDigits ds).bind fun n => if n ≤ 2 ^ 63 then some (-n) else none
  | '+' :: ds => (parseDigits ds).bind fun n => if n < 2 ^ 63 then some n else none
  | ds => (parseDigits ds).bind fun n => if n < 2 ^ 63 then some n else none

example : parseInt "-12" = some (-12) ∧ parseInt "1 2" = none ∧ parseInt "" = none := by
  decide

theorem isDigit_of_mem_repr {n : ℕ} {c : Char} (h : c ∈ n.repr.toList) : c.isDigit = true := by
  rw [Nat.toList_repr] at h
  exact Nat.isDigit_of_mem_toDigits (by decide) (by decide) h

theorem isDigit_or_sign_of_mem_repr {i : ℤ} {c : Char} (h : c ∈ i.repr.toList) :
    c.isDigit = true ∨ c = '-' := by
  cases i with
  | ofNat n => exact .inl (isDigit_of_mem_repr h)
  | negSucc n =>
    rw [Int.repr, String.toList_append] at h
    rcases List.mem_append.mp h with h | h
    · exact .inr (List.mem_singleton.mp h)
    · exact .inl (isDigit_of_mem_repr h)

theorem eq_of_toList_natRepr {m n : ℕ} (h : m.repr.toList = n.repr.toList) : m = n := by
  rw [Nat.toList_repr, Nat.toList_repr] at h
  simpa only [Nat.ofDigitChars_ten_toDigits] using congrArg (Nat.ofDigitChars 10 · 0) h

theorem eq_of_toList_intRepr {i j : ℤ} (h : i.repr.toList = j.repr.toList) : i = j := by
  -- the sign is no digit, so that two texts that are equal have the same sign
  have hsign : ∀ m n : ℕ, m.repr.toList ≠ ("-" ++ n.repr).toList := by
    intro m n h
    have hmem : '-' ∈ m.repr.toList := by
      rw [h, String.toList_append]
      exact List.mem_cons_self
    exact absurd (isDigit_of_mem_repr hmem) (by decide)
  cases i with
  | ofNat m =>
    cases j with
    | ofNat n => exact congrArg Int.ofNat (eq_of_toList_natRepr h)
    | negSucc n => exact absurd h (hsign _ _)
  | negSucc m =>
    cases j with
    | ofNat n => exact absurd h.symm (hsign _ _)
    | negSucc n =>
      rw [Int.repr, Int.repr, String.toList_append, String.toList_append] at h
      have := eq_of_toList_natRepr (List.append_cancel_left h)
      exact congrArg Int.negSucc (Nat.succ_injective this)

end Txn
