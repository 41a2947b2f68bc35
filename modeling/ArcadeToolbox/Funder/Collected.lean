import ArcadeToolbox.Funder.Covers
import ArcadeToolbox.Funder.Funder
import Mathlib.Data.List.Induction

/-!
# Collectors and the coins they were given

A collector is what `newCollector` and one `allocateUTXO` for each of its coins make of the
arguments. Change is planned at the end of each of the two.
-/

namespace ArcadeToolbox

open Txn

/-- A collector for these arguments: it adds up what it has allocated. -/
structure UtxoCollector.For (args : FundArgs) (c : UtxoCollector) : Prop where
  sound : c.Sound
  txSats : c.txSats = args.targetSat
  covered : c.satsCovered = ((c.allocatedUTXOs.map (·.satoshis)).sum : ℕ)
  outputCount : c.outputCount = args.outputCount
  requireChange : c.requireChange = args.requireChange

/-- What a result says about the money: the coins pay the target, the fee and the change, and the
change is split into outputs exactly if it reaches the dust floor. -/
structure FundResult.For (args : FundArgs) (r : FundResult) : Prop where
  balance : (((r.allocatedUTXOs.map (·.satoshis)).sum : ℕ) : ℤ) = args.targetSat + r.fee
      + r.changeAmount
  nonneg : 0 ≤ r.changeAmount
  dust : 1 ≤ r.dustFloor
  count : r.changeOutputsCount = 0 ↔ r.changeAmount < r.dustFloor
  mandatory : args.requireChange = true ∨ args.outputCount = 0 → (r.dustFloor : ℤ) ≤ r.changeAmount

theorem UtxoCollector.For.result {c : UtxoCollector} {args : FundArgs} {r : FundResult}
    (hc : c.For args)
    (h : c.result = .ok r) : r.allocatedUTXOs = c.allocatedUTXOs ∧ r.For args := by
  unfold UtxoCollector.result at h
  obtain ⟨b, hb, h⟩ := Except.bind_eq_ok h
  cases b
  · cases h
  obtain ⟨change, hchange, h⟩ := Except.bind_eq_ok h
  have hval := change_eq_ok hchange
  have hsum := hc.covered
  have hsats := hc.txSats
  have hdust := hc.sound.dust
  have hcount := hc.sound.count
  -- a funded collector has change, or at least nothing left to cover
  have hfunded : 0 ≤ change ∧ (c.changeMandatory = true → (c.dustFloor : ℤ) ≤ change) := by
    unfold isFunded at hb
    by_cases hm : c.changeMandatory = true
    · rw [if_pos hm] at hb
      split_ifs at hb
      · obtain ⟨change', hchange', hb⟩ := Except.bind_eq_ok hb
        rw [hchange] at hchange'
        cases hchange'
        have hle : (c.dustFloor : ℤ) ≤ change := of_decide_eq_true (Except.ok.inj hb)
        exact ⟨by omega, fun _ => hle⟩
      · cases hb
    · rw [if_neg hm] at hb
      obtain ⟨v, hv, hb⟩ := Except.bind_eq_ok hb
      have hle : v ≤ c.satsCovered := of_decide_eq_true (Except.ok.inj hb)
      have := satsToCover_eq_ok hv
      exact ⟨by omega, fun h => absurd h hm⟩
  cases h
  refine ⟨rfl, ⟨?_, hfunded.1, hdust, ?_, fun hm => hfunded.2 ?_⟩⟩
  · dsimp only
    omega
  · dsimp only
    split_ifs with hlt
    · exact ⟨fun _ => hlt, fun _ => rfl⟩
    · exact ⟨fun h0 => by have := hcount h0; omega, fun h => absurd h hlt⟩
  · unfold changeMandatory
    rw [hc.outputCount, hc.requireChange]
    rcases hm with hm | hm <;> simp [hm]

namespace UtxoCollector

variable {fees : FeeCalc} {args : FundArgs} {c c' : UtxoCollector} {u : Utxo} {us : List Utxo}

/-- What the coins leave over the target and the fee for the size so far. -/
def surplus (c : UtxoCollector) : ℤ := c.satsCovered - (c.txSats + c.fee)

/-- The collector with so many change outputs, and their bytes added to its size. -/
def withChange (c : UtxoCollector) (count : ℕ) : UtxoCollector :=
  { c with changeOutputsCount := count, txSize := c.txSize + count * p2pkhOutputSize
           fee := c.fees (c.txSize + count * p2pkhOutputSize) }

/-- Change is planned for a surplus only. -/
theorem calculateChangeOutputs_eq_ok (h : c.calculateChangeOutputs = .ok c') :
    c' = if c.surplus ≤ 0 then c else c.withChange (c.calculateChangeCount c.surplus.toNat) := by
  unfold calculateChangeOutputs at h
  obtain ⟨change, hchange, h⟩ := Except.bind_eq_ok h
  have hval : change = c.surplus := change_eq_ok hchange
  rw [hval] at h
  split_ifs at h ⊢
  · cases h
    rfl
  · exact increaseSize_eq_ok h

/-- The collector with one more coin, for which no change is planned yet. -/
def adding (c : UtxoCollector) (u : Utxo) : UtxoCollector :=
  { c with allocatedUTXOs := c.allocatedUTXOs ++ [u],
           txSize := c.txSize + transactionInputSize u.inputSize
           fee := c.fees (c.txSize + transactionInputSize u.inputSize)
           satsCovered := c.satsCovered + u.satoshis }

theorem allocateUTXO_eq_ok (h : c.allocateUTXO u = .ok c') :
    (c.adding u).calculateChangeOutputs = .ok c' := by
  unfold allocateUTXO at h
  obtain ⟨c1, h1, h⟩ := Except.bind_eq_ok h
  obtain ⟨v, hv, h⟩ := Except.bind_eq_ok h
  obtain ⟨covered, hcov, h⟩ := Except.bind_eq_ok h
  have hv := satoshiFrom_eq_ok (must_eq_ok hv)
  have hcov := satoshiAdd_eq_ok hcov
  rw [increaseSize_eq_ok h1] at h hcov
  rw [hcov, hv] at h
  exact h

/-- The least transaction that spends a P2PKH coin. -/
def minSpendTxSize : ℕ := transactionSizeFromScriptLengths [p2pkhUnlockingScriptLength]
    [p2pkhLockingScriptLength]

/-- The collector without coins, for which no change is planned yet. -/
def blank (fees : FeeCalc) (args : FundArgs) : UtxoCollector where
  fees := fees
  txSats := args.targetSat
  txSize := args.currentTxSize
  fee := fees args.currentTxSize
  satsCovered := 0
  allocatedUTXOs := []
  outputCount := args.outputCount
  numberOfDesiredUTXOs := if args.numberOfDesiredUTXOs - args.existingBasketCount < 1 then 1
    else (args.numberOfDesiredUTXOs - args.existingBasketCount).toNat
  minimumDesiredUTXOValue := if args.minimumDesiredUTXOValue < 1 then 1
      else args.minimumDesiredUTXOValue
  maxChangeOutputsPerTx := args.maxChangeOutputsPerTx
  changeOutputsCount := 0
  minimumChange := (if args.minimumDesiredUTXOValue < 1 then 1
      else args.minimumDesiredUTXOValue) / 4
  requireChange := args.requireChange
  dustFloor := max 1 (fees minSpendTxSize * 2)

/-- `newCollector`, as a pass calls it. -/
def newFor (fees : FeeCalc) (args : FundArgs) : Except FundErr UtxoCollector :=
  start fees args.targetSat args.currentTxSize args.outputCount
    (args.numberOfDesiredUTXOs - args.existingBasketCount) args.minimumDesiredUTXOValue
    args.maxChangeOutputsPerTx args.requireChange

theorem newFor_eq_ok (h : newFor fees args = .ok c) :
    (blank fees args).calculateChangeOutputs = .ok c := by
  unfold newFor start at h
  obtain ⟨c1, h1, h⟩ := Except.bind_eq_ok h
  rw [increaseSize_eq_ok h1, Nat.zero_add] at h
  exact h

/-- `newCollector`, and `allocateUTXO` for each coin. -/
def collect (fees : FeeCalc) (args : FundArgs) (us : List Utxo) : Except FundErr UtxoCollector := do
  us.foldlM allocateUTXO (← newFor fees args)

theorem collect_nil : collect fees args [] = newFor fees args := by
  unfold collect
  cases newFor fees args <;> rfl

theorem collect_append : collect fees args (us ++ [u]) = collect fees args us
    >>= (allocateUTXO · u) := by
  unfold collect
  cases newFor fees args with
  | error e => rfl
  | ok c =>
    change List.foldlM allocateUTXO c (us ++ [u]) = List.foldlM allocateUTXO c us
        >>= (allocateUTXO · u)
    rw [List.foldlM_append]
    simp

/-- The collector with the coins, before change is planned for the last time. -/
def beforeChange (fees : FeeCalc) (args : FundArgs) (us : List Utxo) :
    Except FundErr UtxoCollector :=
  match us.getLast? with
  | none => .ok (blank fees args)
  | some u => (collect fees args us.dropLast).map (·.adding u)

theorem beforeChange_append : beforeChange fees args (us ++ [u]) = (collect fees args us).map
    (·.adding u) := by
  unfold beforeChange
  rw [List.getLast?_concat, List.dropLast_concat]

theorem collect_eq_ok (h : collect fees args us = .ok c) :
    ∃ d, beforeChange fees args us = .ok d ∧ d.calculateChangeOutputs = .ok c := by
  induction us using List.reverseRecOn with
  | nil =>
    rw [collect_nil] at h
    exact ⟨_, rfl, newFor_eq_ok h⟩
  | append_singleton us u _ =>
    rw [collect_append] at h
    obtain ⟨c1, h1, h⟩ := Except.bind_eq_ok h
    exact ⟨c1.adding u, by rw [beforeChange_append, h1]; rfl, allocateUTXO_eq_ok h⟩

def inputsSize (us : List Utxo) : ℕ := (us.map fun u => transactionInputSize u.inputSize).sum

def totalSatoshis (us : List Utxo) : ℕ := (us.map (·.satoshis)).sum

theorem inputsSize_append (us : List Utxo) (u : Utxo) :
    inputsSize (us ++ [u]) = inputsSize us + transactionInputSize u.inputSize := by
  simp [inputsSize]

theorem totalSatoshis_append (us : List Utxo) (u : Utxo) :
    totalSatoshis (us ++ [u]) = totalSatoshis us + u.satoshis := by
  simp [totalSatoshis]

/-- The collector is for these arguments and these coins. Its size is that of the transaction with
them, and of some change outputs. -/
structure Tally (fees : FeeCalc) (args : FundArgs) (us : List Utxo) (c : UtxoCollector) : Prop where
  rate : c.fees = fees
  txSats : c.txSats = args.targetSat
  outputCount : c.outputCount = args.outputCount
  requireChange : c.requireChange = args.requireChange
  maxChange : c.maxChangeOutputsPerTx = args.maxChangeOutputsPerTx
  desired : 1 ≤ c.numberOfDesiredUTXOs
  dust : c.dustFloor = max 1 (fees minSpendTxSize * 2)
  allocated : c.allocatedUTXOs = us
  covered : c.satsCovered = totalSatoshis us
  fee : c.fee = fees c.txSize
  size : args.currentTxSize + inputsSize us ≤ c.txSize

theorem tally_blank (fees : FeeCalc) (args : FundArgs) : Tally fees args [] (blank fees args) where
  rate := rfl
  txSats := rfl
  outputCount := rfl
  requireChange := rfl
  maxChange := rfl
  desired := by
    simp only [blank]
    split_ifs <;> omega
  dust := rfl
  allocated := rfl
  covered := rfl
  fee := rfl
  size := by simp [inputsSize, blank]

theorem Tally.adding (h : Tally fees args us c) (u : Utxo) :
    Tally fees args (us ++ [u]) (c.adding u) where
  rate := h.rate
  txSats := h.txSats
  outputCount := h.outputCount
  requireChange := h.requireChange
  maxChange := h.maxChange
  desired := h.desired
  dust := h.dust
  allocated := congrArg (· ++ [u]) h.allocated
  covered := by
    rw [totalSatoshis_append, Nat.cast_add, ← h.covered]
    rfl
  fee := by
    rw [← h.rate]
    rfl
  size := by
    rw [inputsSize_append, ← Nat.add_assoc]
    exact Nat.add_le_add_right h.size _

theorem Tally.withChange (h : Tally fees args us c) (count : ℕ) :
    Tally fees args us (c.withChange count) where
  rate := h.rate
  txSats := h.txSats
  outputCount := h.outputCount
  requireChange := h.requireChange
  maxChange := h.maxChange
  desired := h.desired
  dust := h.dust
  allocated := h.allocated
  covered := h.covered
  fee := by
    rw [← h.rate]
    rfl
  size := Nat.le_trans h.size (Nat.le_add_right _ _)

theorem Tally.planned (h : Tally fees args us c) (hc : c.calculateChangeOutputs = .ok c') :
    Tally fees args us c' := by
  rw [calculateChangeOutputs_eq_ok hc]
  split_ifs
  · exact h
  · exact h.withChange _

theorem Tally.allocate (h : Tally fees args us c) (hc : c.allocateUTXO u = .ok c') :
    Tally fees args (us ++ [u]) c' := (h.adding u).planned (allocateUTXO_eq_ok hc)

theorem tally_collect (h : collect fees args us = .ok c) : Tally fees args us c := by
  induction us using List.reverseRecOn generalizing c with
  | nil =>
    rw [collect_nil] at h
    exact (tally_blank fees args).planned (newFor_eq_ok h)
  | append_singleton us u ih =>
    rw [collect_append] at h
    obtain ⟨c1, h1, h⟩ := Except.bind_eq_ok h
    exact (ih h1).allocate h

theorem tally_beforeChange (h : beforeChange fees args us = .ok c) : Tally fees args us c := by
  induction us using List.reverseRecOn with
  | nil =>
    cases h
    exact tally_blank fees args
  | append_singleton us u _ =>
    rw [beforeChange_append] at h
    cases h1 : collect fees args us with
    | error e =>
      rw [h1] at h
      cases h
    | ok c1 =>
      rw [h1] at h
      cases h
      exact (tally_collect h1).adding u

/-- With room for a change output, a collector has one whenever something is left over. -/
theorem sound_collect (hmax : 1 ≤ args.maxChangeOutputsPerTx) (h : collect fees args us = .ok c) :
    c.Sound := by
  obtain ⟨d, hd, hplan⟩ := collect_eq_ok h
  have ht := tally_beforeChange hd
  have hdust : 1 ≤ d.dustFloor := by
    rw [ht.dust]
    exact Nat.le_max_left _ _
  exact (calculateChangeOutputs_sound hplan (ht.rate.symm ▸ ht.fee) hdust ht.desired
      (ht.maxChange ▸ hmax)).1

theorem for_collect (hmax : 1 ≤ args.maxChangeOutputsPerTx) (h : collect fees args us = .ok c) :
    c.For args := by
  have ht := tally_collect h
  exact ⟨sound_collect hmax h, ht.txSats, ht.allocated.symm ▸ ht.covered, ht.outputCount,
      ht.requireChange⟩

/-- The coins of the collector are those that it was made of. -/
def Collected (fees : FeeCalc) (args : FundArgs) (c : UtxoCollector) : Prop :=
  collect fees args c.allocatedUTXOs = .ok c

theorem Collected.allocate (h : Collected fees args c) (hc : c.allocateUTXO u = .ok c') :
    Collected fees args c' ∧ c'.allocatedUTXOs = c.allocatedUTXOs ++ [u] := by
  have halloc : c'.allocatedUTXOs = c.allocatedUTXOs ++ [u] :=
    ((tally_collect h).allocate hc).allocated
  refine ⟨?_, halloc⟩
  unfold Collected at h ⊢
  rw [halloc, collect_append, h]
  exact hc

theorem collected_newFor (h : newFor fees args = .ok c) :
    Collected fees args c ∧ c.allocatedUTXOs = [] := by
  have h' : collect fees args [] = .ok c := collect_nil.trans h
  have hnil := (tally_collect h').allocated
  exact ⟨by rwa [Collected, hnil], hnil⟩

end UtxoCollector

namespace Funder

open UtxoCollector

variable {fees : FeeCalc} {args : FundArgs} {c : UtxoCollector}

def outs (c : UtxoCollector) : List Outpoint := c.allocatedUTXOs.map (·.outpoint)

/-- A batch is consumed from the front, coin by coin. -/
theorem consumeBatch_eq_ok :
    ∀ {us rest : List Utxo} {c c' : UtxoCollector}, Collected fees args c → consumeBatch us c = .ok
      (rest, c') →
      Collected fees args c' ∧ ∃ taken, us = taken ++ rest
        ∧ c'.allocatedUTXOs = c.allocatedUTXOs ++ taken
  | [], rest, c, c', hc, h => by
    cases h
    exact ⟨hc, [], rfl, by simp⟩
  | u :: us, rest, c, c', hc, h => by
    obtain ⟨b, -, h⟩ := Except.bind_eq_ok h
    split_ifs at h
    · cases h
      exact ⟨hc, [], rfl, by simp⟩
    · obtain ⟨r, -, h⟩ := Except.bind_eq_ok h
      split_ifs at h
      · cases h
        exact ⟨hc, [], rfl, by simp⟩
      · obtain ⟨c1, h1, h⟩ := Except.bind_eq_ok h
        obtain ⟨hs, ha⟩ := hc.allocate h1
        obtain ⟨hs', taken, rfl, ha'⟩ := consumeBatch_eq_ok hs h
        exact ⟨hs', u :: taken, rfl, by simp [ha', ha]⟩

theorem arith_consumeExact : ∀ (us : List Utxo) (c : UtxoCollector), Arith (consumeExact us c)
  | [], c => arith_ok _
  | u :: us, c => by
    refine arith_bind c.arith_isFunded fun b _ => ?_
    split_ifs
    · exact arith_ok _
    · exact arith_bind (c.arith_allocateUTXO u) fun c' _ => arith_consumeExact us c'

theorem consumeExact_eq_ok :
    ∀ {us rest : List Utxo} {c c' : UtxoCollector}, Collected fees args c → consumeExact us c = .ok
      (rest, c') →
      Collected fees args c' ∧ ∃ taken, us = taken ++ rest
        ∧ c'.allocatedUTXOs = c.allocatedUTXOs ++ taken
  | [], rest, c, c', hc, h => by
    cases h
    exact ⟨hc, [], rfl, by simp⟩
  | u :: us, rest, c, c', hc, h => by
    obtain ⟨b, -, h⟩ := Except.bind_eq_ok h
    split_ifs at h
    · cases h
      exact ⟨hc, [], rfl, by simp⟩
    · obtain ⟨c1, h1, h⟩ := Except.bind_eq_ok h
      obtain ⟨hs, ha⟩ := hc.allocate h1
      obtain ⟨hs', taken, rfl, ha'⟩ := consumeExact_eq_ok hs h
      exact ⟨hs', u :: taken, rfl, by simp [ha', ha]⟩

theorem maxChange_pos {args : FundArgs} (hv : args.validate = none) :
    1 ≤ args.maxChangeOutputsPerTx := by
  unfold FundArgs.validate at hv
  split_ifs at hv
  omega

/-- The result is that of a collector with its coins. -/
def ResultOf (fees : FeeCalc) (args : FundArgs) (r : FundResult) : Prop :=
  ∃ c, collect fees args r.allocatedUTXOs = .ok c ∧ c.result = .ok r

/-- The result has the coins and the fee of the collector, and its change outputs unless they were
dust. -/
theorem result_eq_ok {r : FundResult} (h : c.result = .ok r) :
    r.allocatedUTXOs = c.allocatedUTXOs ∧ r.fee = c.fee ∧
      (r.changeOutputsCount = c.changeOutputsCount ∨ r.changeOutputsCount = 0) := by
  unfold UtxoCollector.result at h
  obtain ⟨b, -, h⟩ := Except.bind_eq_ok h
  cases b with
  | false => cases h
  | true =>
    obtain ⟨change, -, h⟩ := Except.bind_eq_ok h
    cases h
    refine ⟨rfl, rfl, ?_⟩
    dsimp only
    split_ifs
    · exact Or.inr rfl
    · exact Or.inl rfl

theorem ResultOf.for {r : FundResult} (hmax : 1 ≤ args.maxChangeOutputsPerTx)
    (h : ResultOf fees args r) : r.For args := by
  obtain ⟨c, hc, hr⟩ := h
  exact ((for_collect hmax hc).result hr).2

end Funder

end ArcadeToolbox
