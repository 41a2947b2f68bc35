import ArcadeToolbox.Funder.Collector

/-!
# Satoshi arithmetic on machine integers

An operand of any integer type is checked against the supply, converted to 64 bits, and the result
is checked again. Two amounts in range have a sum and a difference that fit into 64 bits. Their
product need not fit, and what is left of it can be in range.
-/

namespace ArcadeToolbox.Satoshi

/-- The integer types by what `Validate` does with them. -/
inductive IntKind where
  | signed
  | unsigned
  | uintptr
  deriving DecidableEq, Repr

/-- A value of an integer type of at most 64 bits. -/
structure Operand where
  kind : IntKind
  value : ℤ
  nonneg : kind ≠ .signed → 0 ≤ value

/-- Why an amount is refused. -/
inductive SatoshiErr where
  | exceeded
  | belowMinimum
  | unsupported
  deriving DecidableEq, Repr

def validateInt (v : ℤ) : Except SatoshiErr Unit :=
  if v > maxSatoshis then .error .exceeded else if v < -maxSatoshis then .error .belowMinimum
      else .ok ()

def validateUint (v : ℤ) : Except SatoshiErr Unit :=
  if v > maxSatoshis then .error .exceeded else .ok ()

def validate (a : Operand) : Except SatoshiErr Unit :=
  match a.kind with
  | .signed => validateInt a.value
  | .unsigned => validateUint a.value
  | .uintptr => .error .unsupported

/-- What an `int64` holds of a result. -/
def wrap (v : ℤ) : ℤ := v.bmod (2 ^ 64)

def «from» (a : Operand) : Except SatoshiErr ℤ := do
  validate a
  return wrap a.value

/-- The operation on two operands, in range before and after. -/
def checked (op : ℤ → ℤ → ℤ) (a b : Operand) : Except SatoshiErr ℤ := do
  let c := wrap (op (← «from» a) (← «from» b))
  validateInt c
  return c

def add (a b : Operand) : Except SatoshiErr ℤ := checked (· + ·) a b

def subtract (a b : Operand) : Except SatoshiErr ℤ := checked (· - ·) a b

def multiply (a b : Operand) : Except SatoshiErr ℤ := checked (· * ·) a b

def sumFrom (val : ℤ) : List Operand → Except SatoshiErr ℤ
  | [] => .ok val
  | it :: values => do
    let val := wrap (val + (← «from» it))
    validateInt val
    sumFrom val values

def sum (values : List Operand) : Except SatoshiErr ℤ := sumFrom 0 values

/-- The amounts that a change was computed from are in range. -/
def InRange (v : ℤ) : Prop := -maxSatoshis ≤ v ∧ v ≤ maxSatoshis

/-- A result is the exact one, and in range. -/
def Exact (r : Except SatoshiErr ℤ) (x : ℤ) : Prop := ∀ v, r = .ok v → v = x ∧ InRange x

def Accepted (a : Operand) : Prop := a.kind ≠ .uintptr ∧ InRange a.value

theorem validateInt_eq_ok {v : ℤ} : validateInt v = .ok () ↔ InRange v := by
  unfold validateInt InRange
  split_ifs <;> simp <;> omega

theorem wrap_of_lt {v : ℤ} (h : -2 ^ 63 ≤ v) (h' : v < 2 ^ 63) : wrap v = v :=
  Int.bmod_eq_of_le (by omega) (by omega)

theorem validate_eq_ok {a : Operand} : validate a = .ok () ↔ Accepted a := by
  have hnn := a.nonneg
  unfold validate Accepted
  rcases hk : a.kind with _ | _ | _
  · simp [validateInt_eq_ok]
  · simp only [hk, ne_eq, reduceCtorEq, not_false_eq_true, true_implies] at hnn
    unfold validateUint InRange maxSatoshis
    split_ifs <;> simp <;> omega
  · simp

theorem from_eq_ok {a : Operand} {v : ℤ} : «from» a = .ok v ↔ Accepted a ∧ v = a.value := by
  have hfrom : «from» a = .ok v ↔ validate a = .ok () ∧ wrap a.value = v := by
    unfold «from»
    cases validate a <;> simp [bind, Except.bind, pure, Except.pure]
  rw [hfrom, validate_eq_ok]
  refine and_congr_right fun ha => ?_
  have hr := ha.2
  unfold InRange maxSatoshis at hr
  rw [wrap_of_lt (by omega) (by omega), eq_comm]

theorem checked_eq_ok {op : ℤ → ℤ → ℤ} {a b : Operand} {v : ℤ} :
    checked op a b = .ok v ↔ Accepted a ∧ Accepted b ∧ InRange v ∧ wrap
      (op a.value b.value) = v := by
  unfold checked
  constructor
  · intro h
    rcases ha : «from» a with e | x
    · simp [ha, bind, Except.bind] at h
    rcases hb : «from» b with e | y
    · simp [ha, hb, bind, Except.bind] at h
    obtain ⟨hacc, rfl⟩ := from_eq_ok.1 ha
    obtain ⟨hbcc, rfl⟩ := from_eq_ok.1 hb
    rcases hc : validateInt (wrap (op a.value b.value)) with e | u
    · simp [ha, hb, hc, bind, Except.bind] at h
    simp only [ha, hb, hc, bind, Except.bind, pure, Except.pure, Except.ok.injEq] at h
    exact ⟨hacc, hbcc, h ▸ validateInt_eq_ok.1 hc, h⟩
  · rintro ⟨ha, hb, hv, rfl⟩
    simp [from_eq_ok.2 ⟨ha, rfl⟩, from_eq_ok.2 ⟨hb, rfl⟩, validateInt_eq_ok.2 hv, bind, Except.bind,
        pure, Except.pure]

/-- An operation whose result on amounts in range fits into 64 bits is exact. -/
theorem checked_exact {op : ℤ → ℤ → ℤ} {a b : Operand}
    (hop : ∀ x y, InRange x → InRange y → -2 ^ 63 ≤ op x y ∧ op x y < 2 ^ 63) :
    Exact (checked op a b) (op a.value b.value) := by
  intro v h
  obtain ⟨ha, hb, hv, hw⟩ := checked_eq_ok.1 h
  obtain ⟨hlo, hhi⟩ := hop _ _ ha.2 hb.2
  rw [wrap_of_lt hlo hhi] at hw
  exact ⟨hw.symm, hw ▸ hv⟩

theorem sumFrom_exact {values : List Operand} {val : ℤ} (hval : InRange val) :
    Exact (sumFrom val values) (val + (values.map Operand.value).sum) := by
  induction values generalizing val with
  | nil =>
    intro v h
    cases h
    simpa using hval
  | cons it values ih =>
    intro v h
    rcases hit : «from» it with e | x
    · simp [sumFrom, hit, bind, Except.bind] at h
    obtain ⟨hacc, rfl⟩ := from_eq_ok.1 hit
    -- both summands are in range, so the running total has not wrapped
    have hw : wrap (val + it.value) = val + it.value := by
      have hr := hacc.2
      unfold InRange maxSatoshis at hr hval
      exact wrap_of_lt (by omega) (by omega)
    rcases hc : validateInt (val + it.value) with e | u
    · simp [sumFrom, hit, hw, hc, bind, Except.bind] at h
    simp only [sumFrom, hit, hw, hc, bind, Except.bind] at h
    simpa [add_assoc] using ih (validateInt_eq_ok.1 hc) v h

/-- What is left of a result in 64 bits is the result less a multiple of `2 ^ 64`. -/
theorem wrap_eq_iff {v w : ℤ} (hw : InRange w) : wrap v = w ↔ ∃ k : ℤ, w = v - k * 2 ^ 64 := by
  constructor
  · rintro rfl
    obtain ⟨k, hk⟩ := Int.dvd_self_sub_bmod (x := v) (m := 2 ^ 64)
    exact ⟨k, by unfold wrap; omega⟩
  · rintro ⟨k, rfl⟩
    unfold InRange maxSatoshis at hw
    rw [← wrap_of_lt (v := v - k * 2 ^ 64) (by omega) (by omega)]
    exact (Int.sub_mul_bmod_self_right v k (2 ^ 64)).symm

/-- A returned sum or difference is exact. A product is, unless the factors are in range and their
product is by a multiple of `2 ^ 64` off an amount in range. -/
theorem arithmetic_exact_iff (a b : Operand) (values : List Operand) :
    Exact (add a b) (a.value + b.value) ∧ Exact (subtract a b) (a.value - b.value) ∧
      Exact (sum values) (values.map Operand.value).sum ∧
      (Exact (multiply a b) (a.value * b.value) ↔
        ¬ (Accepted a ∧ Accepted b ∧ ∃ k : ℤ,
          k ≠ 0 ∧ InRange (a.value * b.value - k * 2 ^ 64))) := by
  refine ⟨checked_exact fun x y hx hy => ?_, checked_exact fun x y hx hy => ?_, ?_, ?_, ?_⟩
  · unfold InRange maxSatoshis at hx hy
    omega
  · unfold InRange maxSatoshis at hx hy
    omega
  · have hzero : InRange 0 := by unfold InRange maxSatoshis; omega
    rw [← zero_add (values.map Operand.value).sum]
    exact sumFrom_exact hzero
  · rintro h ⟨ha, hb, k, hk, hr⟩
    have := (h _ (checked_eq_ok.2 ⟨ha, hb, hr, (wrap_eq_iff hr).2 ⟨k, rfl⟩⟩)).1
    omega
  · intro h v hv
    obtain ⟨ha, hb, hr, hw⟩ := checked_eq_ok.1 hv
    obtain ⟨k, rfl⟩ := (wrap_eq_iff hr).1 hw
    rcases eq_or_ne k 0 with rfl | hk
    · simpa using hr
    · exact absurd ⟨ha, hb, k, hk, hr⟩ h

/-- `2 ^ 32` times `2 ^ 32` is zero satoshis. -/
theorem multiply_wraps : ∃ a : Operand, a.value = 4294967296 ∧ multiply a a = .ok 0 :=
  ⟨⟨.signed, 4294967296, fun h => absurd rfl h⟩, rfl, rfl⟩

end ArcadeToolbox.Satoshi
