import ArcadeToolbox.Funder.Collector
import Mathlib.Tactic.SplitIfs

/-!
# The collector's arithmetic

A collector that is not funded always needs more: what remains to be covered is positive. So the
rounds of a pass end with a funded collector or for want of coins, never because the remaining
need was computed as nothing while the change still sat below the dust floor.
-/

namespace ArcadeToolbox

theorem satoshiFrom_eq_ok {v w : ℤ} (h : satoshiFrom v = .ok w) : w = v := by
  unfold satoshiFrom at h
  split_ifs at h
  injection h with h
  exact h.symm

theorem satoshiAdd_eq_ok {a b w : ℤ} (h : satoshiAdd a b = .ok w) : w = a + b := by
  unfold satoshiAdd at h
  rcases ha : satoshiFrom a with _ | a' <;> rcases hb : satoshiFrom b with _ | b' <;>
    simp only [ha, hb, bind, Except.bind] at h <;> try cases h
  rw [satoshiFrom_eq_ok h, satoshiFrom_eq_ok ha, satoshiFrom_eq_ok hb]

theorem satoshiSubtract_eq_ok {a b w : ℤ} (h : satoshiSubtract a b = .ok w) : w = a - b := by
  unfold satoshiSubtract at h
  rcases ha : satoshiFrom a with _ | a' <;> rcases hb : satoshiFrom b with _ | b' <;>
    simp only [ha, hb, bind, Except.bind] at h <;> try cases h
  rw [satoshiFrom_eq_ok h, satoshiFrom_eq_ok ha, satoshiFrom_eq_ok hb]

theorem must_eq_ok {α : Type} {x : Except FundErr α} {a : α} (h : must x = .ok a) : x = .ok a := by
  rcases x with e | b
  · cases h
  · exact h

theorem Except.bind_eq_ok {ε α β : Type} {x : Except ε α} {f : α → Except ε β} {b : β}
    (h : (x >>= f) = .ok b) : ∃ a, x = .ok a ∧ f a = .ok b := by
  rcases x with e | a
  · cases h
  · exact ⟨a, rfl, h⟩

namespace UtxoCollector

/-- The fee is that of the size, and without change nothing is left over. -/
structure Sound (c : UtxoCollector) : Prop where
  fee : c.fee = c.fees c.txSize
  dust : 1 ≤ c.dustFloor
  desired : 1 ≤ c.numberOfDesiredUTXOs
  maxChange : 1 ≤ c.maxChangeOutputsPerTx
  /-- as long as there is no change output, nothing is left over -/
  count : c.changeOutputsCount = 0 → c.satsCovered ≤ c.txSats + c.fee

variable {c : UtxoCollector}

theorem satsToCover_eq_ok {v : ℤ} (h : c.satsToCover = .ok v) :
    v = c.txSats + c.fee :=
  satoshiAdd_eq_ok (must_eq_ok h)

theorem change_eq_ok {v : ℤ} (h : c.change = .ok v) :
    v = c.satsCovered - (c.txSats + c.fee) := by
  obtain ⟨w, hw, hv⟩ := Except.bind_eq_ok h
  rw [satoshiSubtract_eq_ok (must_eq_ok hv), satsToCover_eq_ok hw]

theorem shortOfChange_eq_ok {size : ℕ} {o : Option ℤ}
    (h : c.shortOfChange size = .ok o) (hc : c.satsCovered < c.txSats + c.fees size + c.dustFloor) :
    ∃ r, o = some r ∧ 0 < r := by
  unfold shortOfChange at h
  obtain ⟨fee, hfee, h⟩ := Except.bind_eq_ok h
  obtain ⟨a, ha, h⟩ := Except.bind_eq_ok h
  obtain ⟨cover, hcover, h⟩ := Except.bind_eq_ok h
  have hfee := satoshiFrom_eq_ok (must_eq_ok hfee)
  have ha := satoshiAdd_eq_ok (must_eq_ok ha)
  have hcover := satoshiAdd_eq_ok (must_eq_ok hcover)
  have hgt : cover > c.satsCovered := by omega
  rw [if_pos hgt] at h
  obtain ⟨r, hr, h⟩ := Except.bind_eq_ok h
  have hr := satoshiSubtract_eq_ok (must_eq_ok hr)
  cases h
  exact ⟨r, rfl, by omega⟩

theorem isFunded_eq_false (h : c.isFunded = .ok false) :
    (c.changeMandatory = true ∧ (c.changeOutputsCount = 0
        ∨ c.satsCovered - (c.txSats + c.fee) < c.dustFloor))
      ∨ (c.changeMandatory = false ∧ c.satsCovered < c.txSats + c.fee) := by
  unfold isFunded at h
  split_ifs at h with hm hcount
  · obtain ⟨v, hv, h⟩ := Except.bind_eq_ok h
    have hv := change_eq_ok hv
    simp only [pure, Except.pure, Except.ok.injEq, decide_eq_false_iff_not] at h
    exact Or.inl ⟨hm, by omega⟩
  · exact Or.inl ⟨hm, Or.inl (by omega)⟩
  · obtain ⟨v, hv, h⟩ := Except.bind_eq_ok h
    have hv := satsToCover_eq_ok hv
    simp only [pure, Except.pure, Except.ok.injEq, decide_eq_false_iff_not] at h
    exact Or.inr ⟨by simpa using hm, by omega⟩

theorem needForChange_eq_ok {o : Option ℤ} (hc : c.Sound)
    (hshort : c.changeOutputsCount = 0 ∨ c.satsCovered - (c.txSats + c.fee) < c.dustFloor)
    (h : c.needForChange = .ok o) : ∃ r, o = some r ∧ 0 < r := by
  obtain ⟨change, hchange, h⟩ := Except.bind_eq_ok h
  have hchange := change_eq_ok hchange
  have hfee := hc.fee
  split_ifs at h with hlow hcount
  · rw [Bool.and_eq_true, decide_eq_true_iff, decide_eq_true_iff] at hlow
    have hmono := c.fees.monotone
      (show c.txSize ≤ c.txSize + p2pkhEstimatedInputSize by omega)
    exact shortOfChange_eq_ok h (by omega)
  · have hmono := c.fees.monotone
      (show c.txSize ≤ c.txSize + p2pkhEstimatedInputSize + p2pkhOutputSize by omega)
    have := hc.count hcount
    have := hc.dust
    exact shortOfChange_eq_ok h (by omega)
  · refine absurd ?_ hlow
    rw [Bool.and_eq_true, decide_eq_true_iff, decide_eq_true_iff]
    omega

/-- A collector that is not funded needs more. -/
theorem remaining_pos {r : ℤ} (hc : c.Sound) (hf : c.isFunded = .ok false)
    (hr : c.remaining = .ok r) : 0 < r := by
  unfold remaining at hr
  rcases isFunded_eq_false hf with ⟨hm, hshort⟩ | ⟨hm, hshort⟩
  · rw [if_pos hm] at hr
    obtain ⟨o, ho, hr⟩ := Except.bind_eq_ok hr
    obtain ⟨v, rfl, hv⟩ := needForChange_eq_ok hc hshort ho
    cases hr
    exact hv
  · rw [if_neg (by simp [hm])] at hr
    obtain ⟨v, hv, hr⟩ := Except.bind_eq_ok hr
    have hv := satsToCover_eq_ok hv
    have hr := satoshiSubtract_eq_ok (must_eq_ok hr)
    omega

theorem dropDust_pos (changeVal dustFloor : ℕ) : ∀ n, 1 ≤ n → 1 ≤ dropDust changeVal dustFloor n
  | 1, _ => by simp [dropDust]
  | n + 2, _ => by
    unfold dropDust
    split_ifs
    · exact dropDust_pos changeVal dustFloor (n + 1) (by omega)
    · omega

theorem wantedOutputs_pos (hdes : 1 ≤ c.numberOfDesiredUTXOs) (hmax : 1 ≤ c.maxChangeOutputsPerTx)
    (v : ℕ) : 1 ≤ c.wantedOutputs v := by
  unfold wantedOutputs
  dsimp only
  split_ifs <;> omega

theorem calculateChangeCount_pos (hdes : 1 ≤ c.numberOfDesiredUTXOs)
    (hmax : 1 ≤ c.maxChangeOutputsPerTx) (v : ℕ) : 1 ≤ c.calculateChangeCount v :=
  dropDust_pos _ _ _ (wantedOutputs_pos hdes hmax v)

theorem increaseSize_eq_ok {c c' : UtxoCollector} {size : ℕ} (h : c.increaseSize size = .ok c') :
    c' = { c with txSize := c.txSize + size, fee := c.fees (c.txSize + size) } := by
  obtain ⟨fee, hfee, h⟩ := Except.bind_eq_ok h
  cases h
  rw [satoshiFrom_eq_ok hfee]

theorem calculateChangeOutputs_sound {c c' : UtxoCollector} (h : c.calculateChangeOutputs = .ok c')
    (hfee : c.fee = c.fees c.txSize) (hdust : 1 ≤ c.dustFloor)
    (hdes : 1 ≤ c.numberOfDesiredUTXOs) (hmax : 1 ≤ c.maxChangeOutputsPerTx) :
    c'.Sound ∧ c'.allocatedUTXOs = c.allocatedUTXOs := by
  unfold calculateChangeOutputs at h
  obtain ⟨change, hchange, h⟩ := Except.bind_eq_ok h
  have hchange := change_eq_ok hchange
  split_ifs at h with hle
  · cases h
    exact ⟨⟨hfee, hdust, hdes, hmax, fun _ => by omega⟩, rfl⟩
  · have hpos := calculateChangeCount_pos hdes hmax change.toNat
    rw [increaseSize_eq_ok h]
    exact ⟨⟨rfl, hdust, hdes, hmax, fun h0 => absurd h0 (by simp only; omega)⟩, rfl⟩

end UtxoCollector

/-- `x` fails, if it does, on an amount out of range. -/
def Arith {α : Type} (x : Except FundErr α) : Prop :=
  ∀ e, x = .error e → e = .panic ∨ e = .satoshiRange

section Arith

variable {α β : Type}

theorem arith_ok (a : α) : Arith (Except.ok a) := fun _ h => by cases h

theorem arith_bind {x : Except FundErr α} {f : α → Except FundErr β} (hx : Arith x)
    (hf : ∀ a, x = .ok a → Arith (f a)) : Arith (x >>= f) := by
  intro e h
  rcases x with e' | a
  · cases h
    exact hx _ rfl
  · exact hf a rfl e h

theorem arith_must {x : Except FundErr α} : Arith (must x) := by
  intro e h
  rcases x with e' | a
  · cases h
    exact Or.inl rfl
  · cases h

theorem arith_satoshiFrom (v : ℤ) : Arith (satoshiFrom v) := by
  intro e h
  unfold satoshiFrom at h
  split_ifs at h
  cases h
  exact Or.inr rfl

theorem arith_satoshiAdd (a b : ℤ) : Arith (satoshiAdd a b) :=
  arith_bind (arith_satoshiFrom a) fun _ _ =>
    arith_bind (arith_satoshiFrom b) fun _ _ => arith_satoshiFrom _

namespace UtxoCollector

variable (c : UtxoCollector)

theorem arith_change : Arith c.change := arith_bind arith_must fun _ _ => arith_must

theorem arith_isFunded : Arith c.isFunded := by
  unfold isFunded
  split_ifs
  · exact arith_bind c.arith_change fun _ _ => arith_ok _
  · exact arith_ok _
  · exact arith_bind arith_must fun _ _ => arith_ok _

theorem arith_shortOfChange (size : ℕ) : Arith (c.shortOfChange size) := by
  refine arith_bind arith_must fun _ _ => arith_bind arith_must fun _ _ =>
    arith_bind arith_must fun _ _ => ?_
  split_ifs
  · exact arith_bind arith_must fun _ _ => arith_ok _
  · exact arith_ok _

theorem arith_increaseSize (size : ℕ) : Arith (c.increaseSize size) :=
  arith_bind (arith_satoshiFrom _) fun _ _ => arith_ok _

theorem arith_calculateChangeOutputs : Arith c.calculateChangeOutputs := by
  refine arith_bind c.arith_change fun _ _ => ?_
  split_ifs
  · exact arith_ok _
  · exact arith_increaseSize _ _

theorem arith_allocateUTXO (u : Utxo) : Arith (c.allocateUTXO u) :=
  arith_bind (arith_increaseSize _ _) fun _ _ => arith_bind arith_must fun _ _ =>
    arith_bind (arith_satoshiAdd _ _) fun _ _ => arith_calculateChangeOutputs _

theorem arith_needForChange : Arith c.needForChange := by
  refine arith_bind c.arith_change fun _ _ => ?_
  split_ifs
  · exact c.arith_shortOfChange _
  · exact c.arith_shortOfChange _
  · exact arith_ok _

theorem arith_remaining : Arith c.remaining := by
  have hlast : Arith c.uncovered := arith_bind arith_must fun _ _ => arith_must
  unfold remaining
  split_ifs
  · refine arith_bind c.arith_needForChange fun o _ => ?_
    rcases o with _ | r
    · exact hlast
    · exact arith_ok r
  · exact hlast

/-- A funded collector has a result, or its arithmetic failed. -/
theorem arith_result (h : c.isFunded = .ok true) : Arith c.result := by
  unfold result
  rw [h]
  refine arith_bind (arith_ok true) fun b hb => ?_
  cases hb
  exact arith_bind c.arith_change fun _ _ => arith_ok _

end UtxoCollector

end Arith

end ArcadeToolbox
