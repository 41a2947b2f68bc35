import ArcadeToolbox.Funder.Exact

/-!
# What a transaction is priced for

The fee is that of the size the collector has added up, which need not be that of the transaction.
The outputs for the change are added each time there is a surplus, and before it is known that the
surplus pays for them. And the counts in front of the inputs and of the outputs are counted with the
width they had before.
-/

namespace ArcadeToolbox

open Txn

namespace UtxoCollector

variable {fees : FeeCalc} {args : FundArgs} {c c' d : UtxoCollector} {u : Utxo} {us : List Utxo}

/-- Change is planned at most once: a coin that leaves a surplus comes to a collector without change
outputs. -/
def PlansOnce (fees : FeeCalc) (args : FundArgs) (us : List Utxo) : Prop :=
  ∀ vs u, vs ++ [u] <+: us → ∀ c, collect fees args vs = .ok c →
    c.changeOutputsCount = 0 ∨ (c.adding u).surplus ≤ 0

theorem plansOnce_nil : PlansOnce fees args [] := by
  intro vs u h
  simp at h

theorem plansOnce_append (hc : collect fees args us = .ok c) : PlansOnce fees args (us ++ [u]) ↔
    PlansOnce fees args us ∧ (c.changeOutputsCount = 0 ∨ (c.adding u).surplus ≤ 0) := by
  constructor
  · intro h
    exact ⟨fun vs v hvs => h vs v (hvs.trans (List.prefix_append us [u])),
        h us u (List.prefix_refl _) c hc⟩
  · rintro ⟨hall, hlast⟩ vs v hvs c' hc'
    rcases List.prefix_concat_iff.mp hvs with heq | hvs
    · obtain ⟨rfl, hlist⟩ := List.append_inj' heq rfl
      cases hlist
      cases hc.symm.trans hc'
      exact hlast
    · exact hall vs v hvs c' hc'

/-- So many outputs were planned in all, and `once` says that they are the ones that are planned
now. -/
structure Planned (args : FundArgs) (us : List Utxo) (once : Prop) (count : ℕ)
    (c : UtxoCollector) : Prop where
  size : c.txSize = args.currentTxSize + inputsSize us + count * p2pkhOutputSize
  le : c.changeOutputsCount ≤ count
  none : c.changeOutputsCount = 0 ↔ count = 0
  once : c.changeOutputsCount = count ↔ once

theorem planned_blank (fees : FeeCalc) (args : FundArgs) :
    Planned args [] True 0 (blank fees args) where
  size := by simp [inputsSize, blank]
  le := le_rfl
  none := by simp [blank]
  once := by simp [blank]

theorem Planned.adding {once : Prop} {count : ℕ} (h : Planned args us once count c) (u : Utxo) :
    Planned args (us ++ [u]) once count (c.adding u) where
  size := by
    have hsize : (c.adding u).txSize = c.txSize + transactionInputSize u.inputSize := rfl
    rw [hsize, h.size, inputsSize_append]
    omega
  le := h.le
  none := h.none
  once := h.once

/-- A planning adds what it plans. It keeps the count right if there is no surplus, or if nothing
was planned. -/
theorem Planned.plan {once : Prop} {count : ℕ} (h : Planned args us once count c)
    (hc : c.calculateChangeOutputs = .ok c')
    (hdes : 1 ≤ c.numberOfDesiredUTXOs) (hmax : 1 ≤ c.maxChangeOutputsPerTx) :
    ∃ count', Planned args us (once ∧ (c.changeOutputsCount = 0 ∨ c.surplus ≤ 0)) count' c' := by
  rw [calculateChangeOutputs_eq_ok hc]
  by_cases hs : c.surplus ≤ 0
  · rw [if_pos hs]
    exact ⟨count, h.size, h.le, h.none, by simp [hs, h.once]⟩
  · rw [if_neg hs]
    have hpos := calculateChangeCount_pos hdes hmax c.surplus.toNat
    have hn : (c.withChange (c.calculateChangeCount c.surplus.toNat)).changeOutputsCount
      = c.calculateChangeCount c.surplus.toNat := rfl
    refine ⟨count + c.calculateChangeCount c.surplus.toNat, ?_, by omega, by omega, ?_⟩
    · have hsize : (c.withChange (c.calculateChangeCount c.surplus.toNat)).txSize
        = c.txSize + c.calculateChangeCount c.surplus.toNat * p2pkhOutputSize := rfl
      rw [hsize, h.size, Nat.add_mul]
      omega
    · have hnone := h.none
      have honce := h.once
      rw [← honce]
      simp only [hs, or_false]
      omega

theorem planned_collect (hmax : 1 ≤ args.maxChangeOutputsPerTx) (h : collect fees args us = .ok c) :
    ∃ count, Planned args us (PlansOnce fees args us) count c := by
  induction us using List.reverseRecOn generalizing c with
  | nil =>
    rw [collect_nil] at h
    have htally := tally_blank fees args
    obtain ⟨count, hp⟩ := (planned_blank fees args).plan (newFor_eq_ok h) htally.desired hmax
    refine ⟨count, hp.size, hp.le, hp.none, ?_⟩
    rw [hp.once]
    simp [plansOnce_nil, blank]
  | append_singleton us u ih =>
    rw [collect_append] at h
    obtain ⟨c1, h1, h⟩ := Except.bind_eq_ok h
    obtain ⟨count₁, hp1⟩ := ih h1
    have htally := (tally_collect h1).adding u
    have hmax' : 1 ≤ (c1.adding u).maxChangeOutputsPerTx := htally.maxChange ▸ hmax
    obtain ⟨count, hp⟩ := (hp1.adding u).plan (allocateUTXO_eq_ok h) htally.desired hmax'
    refine ⟨count, hp.size, hp.le, hp.none, ?_⟩
    rw [hp.once, plansOnce_append h1]
    exact Iff.rfl

theorem le_of_satoshiFrom {v w : ℤ} (h : satoshiFrom v = .ok w) :
    -maxSatoshis ≤ v ∧ v ≤ maxSatoshis := by
  unfold satoshiFrom at h
  split_ifs at h with hv
  exact hv

theorem satoshiFrom_of_le {v : ℤ} (h : -maxSatoshis ≤ v) (h' : v ≤ maxSatoshis) :
    satoshiFrom v = .ok v :=
  if_pos ⟨h, h'⟩

/-- The amounts that a change was computed from are in range. -/
structure InRange (c : UtxoCollector) : Prop where
  covered : -maxSatoshis ≤ c.satsCovered ∧ c.satsCovered ≤ maxSatoshis
  target : -maxSatoshis ≤ c.txSats ∧ c.txSats ≤ maxSatoshis
  fee : -maxSatoshis ≤ c.fee ∧ c.fee ≤ maxSatoshis
  toCover : -maxSatoshis ≤ c.txSats + c.fee ∧ c.txSats + c.fee ≤ maxSatoshis

theorem inRange_of_satsToCover {v : ℤ} (h : c.satsToCover = .ok v)
    (hcov : -maxSatoshis ≤ c.satsCovered ∧ c.satsCovered ≤ maxSatoshis) : InRange c := by
  obtain ⟨a, ha, h⟩ := Except.bind_eq_ok (must_eq_ok h)
  obtain ⟨b, hb, h⟩ := Except.bind_eq_ok h
  have hsum := le_of_satoshiFrom h
  rw [satoshiFrom_eq_ok ha, satoshiFrom_eq_ok hb] at hsum
  exact ⟨hcov, le_of_satoshiFrom ha, le_of_satoshiFrom hb, hsum⟩

theorem inRange_of_change {v : ℤ} (h : c.change = .ok v) : InRange c := by
  obtain ⟨w, hw, hv⟩ := Except.bind_eq_ok h
  obtain ⟨a, ha, -⟩ := Except.bind_eq_ok (must_eq_ok hv)
  exact inRange_of_satsToCover hw (le_of_satoshiFrom ha)

/-- Where change is not mandatory, the collector is funded when the coins cover the target and the
fee, and these are in range. -/
theorem isFunded_iff (hm : c.changeMandatory = false) : c.isFunded = .ok true ↔
    c.txSats + c.fee ≤ c.satsCovered ∧ c.satsToCover = .ok (c.txSats + c.fee) := by
  unfold isFunded
  rw [if_neg (by simp [hm])]
  constructor
  · intro h
    obtain ⟨v, hv, h⟩ := Except.bind_eq_ok h
    have hval := satsToCover_eq_ok hv
    simp only [pure, Except.pure, Except.ok.injEq, decide_eq_true_iff] at h
    exact ⟨hval ▸ h, hval ▸ hv⟩
  · rintro ⟨hle, hok⟩
    rw [hok]
    simp [bind, Except.bind, pure, Except.pure, hle]

theorem satsToCover_of_le (ht : -maxSatoshis ≤ c.txSats ∧ c.txSats ≤ maxSatoshis)
    (hf : -maxSatoshis ≤ c.fee ∧ c.fee ≤ maxSatoshis)
    (hs : -maxSatoshis ≤ c.txSats + c.fee ∧ c.txSats + c.fee ≤ maxSatoshis) :
    c.satsToCover = .ok (c.txSats + c.fee) := by
  unfold satsToCover satoshiAdd
  rw [satoshiFrom_of_le ht.1 ht.2, satoshiFrom_of_le hf.1 hf.2]
  change must (satoshiFrom (c.txSats + c.fee)) = _
  rw [satoshiFrom_of_le hs.1 hs.2]
  rfl

/-- The fee once outputs for the surplus are planned. -/
def plannedFee (d : UtxoCollector) : ℕ :=
  d.fees (d.txSize + d.calculateChangeCount d.surplus.toNat * p2pkhOutputSize)

/-- There is no surplus, or one that pays for the outputs planned for it. -/
def PaysForChange (d : UtxoCollector) : Prop :=
  d.surplus = 0 ∨ 0 < d.surplus ∧ (d.plannedFee : ℤ) ≤ d.fee + d.surplus

theorem isFunded_of_no_surplus (hd : d.InRange) (hm : d.changeMandatory = false)
    (hs : d.surplus ≤ 0) : d.isFunded = .ok true ↔ PaysForChange d := by
  have hval : d.surplus = d.satsCovered - (d.txSats + d.fee) := rfl
  rw [isFunded_iff hm]
  unfold PaysForChange
  constructor
  · rintro ⟨hle, -⟩
    exact Or.inl (by omega)
  · intro hpays
    exact ⟨by omega, satsToCover_of_le hd.target hd.fee hd.toCover⟩

theorem fee_planned_le (hc : d.calculateChangeOutputs = .ok c) (hs : ¬ d.surplus ≤ 0) :
    c.fee ≤ maxSatoshis := by
  obtain ⟨v, hv, hc⟩ := Except.bind_eq_ok hc
  have hval : v = d.surplus := change_eq_ok hv
  rw [hval, if_neg hs] at hc
  obtain ⟨fee, hfee, hc⟩ := Except.bind_eq_ok hc
  cases hc
  rw [satoshiFrom_eq_ok hfee]
  exact (le_of_satoshiFrom hfee).2

/-- With outputs planned for a surplus, the collector is funded when the surplus pays for them
all. -/
theorem isFunded_withChange_iff (hfee : d.fee = d.fees d.txSize) (hm : d.changeMandatory = false)
    (hc : d.calculateChangeOutputs = .ok c) (hs : ¬ d.surplus ≤ 0) :
    c.isFunded = .ok true ↔ (d.plannedFee : ℤ) ≤ d.fee + d.surplus := by
  have hval : d.surplus = d.satsCovered - (d.txSats + d.fee) := rfl
  obtain ⟨v, hv, -⟩ := Except.bind_eq_ok hc
  obtain ⟨hcovered, htarget, -, hrange⟩ := inRange_of_change hv
  have hmax := fee_planned_le hc hs
  have hplan := calculateChangeOutputs_eq_ok hc
  rw [if_neg hs] at hplan
  have hfee' : c.fee = d.plannedFee := by rw [hplan]; rfl
  have hsats : c.txSats = d.txSats := by rw [hplan]; rfl
  have hcov : c.satsCovered = d.satsCovered := by rw [hplan]; rfl
  have hmono : d.fees d.txSize ≤ d.plannedFee := d.fees.monotone (Nat.le_add_right _ _)
  rw [isFunded_iff (by rw [hplan]; exact hm)]
  constructor
  · rintro ⟨hle, -⟩
    omega
  · intro hle
    exact ⟨by omega, satsToCover_of_le (by omega) (by omega) (by omega)⟩

/-- Where change is not mandatory, the planning leaves the collector funded if the surplus pays for
its outputs. -/
theorem isFunded_planned_iff (ht : Tally fees args us d) (hm : d.changeMandatory = false)
    (hc : d.calculateChangeOutputs = .ok c) : c.isFunded = .ok true ↔ PaysForChange d := by
  have hfee : d.fee = d.fees d.txSize := ht.rate.symm ▸ ht.fee
  by_cases hs : d.surplus ≤ 0
  · have hplan := calculateChangeOutputs_eq_ok hc
    rw [if_pos hs] at hplan
    obtain ⟨v, hv, -⟩ := Except.bind_eq_ok hc
    rw [hplan]
    exact isFunded_of_no_surplus (inRange_of_change hv) hm hs
  · rw [isFunded_withChange_iff hfee hm hc hs]
    unfold PaysForChange
    omega

/-- A collector whose coins cover the target and the fee without change is funded if no surplus is
left, or one that pays for the change outputs planned for it. -/
theorem covered_funded_iff (hout : args.outputCount ≠ 0) (hreq : args.requireChange = false)
    (hc : collect fees args us = .ok c) :
    ∃ d, beforeChange fees args us = .ok d ∧
      ((args.targetSat + fees (args.currentTxSize + inputsSize us) ≤ totalSatoshis us →
        c.isFunded = .ok true) ↔
        (args.targetSat + fees (args.currentTxSize + inputsSize us) ≤ totalSatoshis us →
          PaysForChange d)) := by
  obtain ⟨d, hd, hplan⟩ := collect_eq_ok hc
  have ht := tally_beforeChange hd
  have hm : d.changeMandatory = false := by
    unfold changeMandatory
    rw [ht.outputCount, ht.requireChange, hreq]
    simp [hout]
  exact ⟨d, hd, imp_congr_right fun _ => isFunded_planned_iff ht hm hplan⟩

open Funder in
theorem covered_funded_single : ∃ c, collect (.satPerKB 1000) (payment 44) [coin 0 5000] = .ok c ∧
    ∃ d, beforeChange (.satPerKB 1000) (payment 44) [coin 0 5000] = .ok d ∧
      ((1000 + FeeCalc.satPerKB 1000 (44 + inputsSize [coin 0 5000])
        ≤ (totalSatoshis [coin 0 5000] : ℤ) → c.isFunded = .ok true) ↔
        (1000 + FeeCalc.satPerKB 1000 (44 + inputsSize [coin 0 5000])
          ≤ (totalSatoshis [coin 0 5000] : ℤ) → PaysForChange d)) := by
  have hok : (collect (.satPerKB 1000) (payment 44) [coin 0 5000]).isOk = true := by decide +kernel
  cases hc : collect (.satPerKB 1000) (payment 44) [coin 0 5000] with
  | error e =>
    rw [hc] at hok
    cases hok
  | ok c => exact ⟨c, rfl, covered_funded_iff (by decide) rfl hc⟩

open Funder in
/-- The coin covers the target and the fee with ten satoshis to spare. They are priced as change,
and with no other coin the payment fails. -/
theorem covered_not_funded :
    1000 + FeeCalc.satPerKB 1000 (44 + inputsSize [coin 0 1202]) ≤ totalSatoshis [coin 0 1202] ∧
      (collect (.satPerKB 1000) (payment 44) [coin 0 1202] >>= isFunded) = .ok false ∧
      ((fund (.satPerKB 1000) 3 (payment 44)).run.run (exact fun _ => 0) (purse [1202], 0)).1
        = .error .notEnoughFunds := by
  decide +kernel

end UtxoCollector

namespace Funder

open UtxoCollector

variable {args : FundArgs}

/-- A call that succeeds was valid, and its result is that of a collector. -/
theorem fund_eq_ok {σ : Type} {h : (c : StoreCall) → σ → c.Answer × σ} {s : σ}
    {fees : FeeCalc} {rounds : ℕ}
    {r : FundResult} (hr : ((fund fees rounds args).run.run h s).1 = .ok r) :
    1 ≤ args.maxChangeOutputsPerTx ∧ ResultOf fees args r := by
  refine ⟨?_, fund_resultOf hr⟩
  by_contra hmax
  have hz : args.maxChangeOutputsPerTx = 0 := by omega
  have hv : ∃ e, args.validate = some e := by
    unfold FundArgs.validate
    split_ifs <;> exact ⟨_, rfl⟩
  obtain ⟨e, he⟩ := hv
  unfold fund at hr
  rw [he] at hr
  cases hr

/-- The price counts each change output once in exactly the calls that plan change once. -/
theorem fund_prices_change_once_iff {σ : Type} (h : (c : StoreCall) → σ → c.Answer × σ) (s : σ)
    (fees : FeeCalc) (rounds : ℕ)
    (args : FundArgs) (r : FundResult) (hr : ((fund fees rounds args).run.run h s).1 = .ok r) :
    ∃ c, collect fees args r.allocatedUTXOs = .ok c ∧ c.result = .ok r ∧ r.fee = fees c.txSize ∧
      (c.txSize = args.currentTxSize + inputsSize r.allocatedUTXOs + c.changeOutputsCount
        * p2pkhOutputSize ↔
        PlansOnce fees args r.allocatedUTXOs) := by
  obtain ⟨hmax, c, hc, hres⟩ := fund_eq_ok hr
  obtain ⟨count, hp⟩ := planned_collect hmax hc
  refine ⟨c, hc, hres, ?_, ?_⟩
  · rw [(result_eq_ok hres).2.1, (tally_collect hc).fee]
  · have hpos : 0 < p2pkhOutputSize := by decide
    rw [← hp.once, hp.size, Nat.add_left_cancel_iff, Nat.mul_left_inj hpos.ne', eq_comm]

/-- One coin that covers the payment well. -/
theorem fund_prices_change_once_single :
    ∃ c, collect (.satPerKB 1000) (payment 44) [coin 0 5000] = .ok c
      ∧ c.result = .ok ⟨[coin 0 5000], 1, 3774, 226, 384⟩ ∧
      (226 : ℤ) = FeeCalc.satPerKB 1000 c.txSize ∧
      (c.txSize = 44 + inputsSize [coin 0 5000] + c.changeOutputsCount * p2pkhOutputSize ↔
        PlansOnce (.satPerKB 1000) (payment 44) [coin 0 5000]) :=
  fund_prices_change_once_iff (exact fun _ => 0) (purse [5000], 0) (.satPerKB 1000) 3 (payment 44)
    ⟨[coin 0 5000], 1, 3774, 226, 384⟩ (by decide +kernel)

/-- The first coin leaves ten satoshis. An output is planned for them, which they do not pay for,
and a second coin is taken. Then an output is planned again. -/
theorem fund_prices_change_twice :
    ((fund (.satPerKB 1000) 3 (payment 44)).run.run (exact fun _ => 0) (purse [1202, 1000], 0)).1
        = .ok ⟨[coin 0 1202, coin 1 1000], 1, 794, 408, 384⟩ ∧
      (collect (.satPerKB 1000) (payment 44) [coin 0 1202, coin 1 1000]).map
      (fun c => (c.changeOutputsCount, c.txSize))
        = .ok (1, 44 + inputsSize [coin 0 1202, coin 1 1000] + 2 * p2pkhOutputSize) := by
  decide +kernel

theorem varIntSize_mono {m n : ℕ} (h : m ≤ n) : varIntSize m ≤ varIntSize n := by
  unfold varIntSize
  split_ifs <;> omega

theorem varIntSize_le (n : ℕ) : 1 ≤ varIntSize n ∧ varIntSize n ≤ 9 := by
  unfold varIntSize
  split_ifs <;> omega

/-- The size of the planned transaction: the inputs and outputs that were provided, the coins that
were allocated, and the change. -/
def planSize (ins outs : List ℕ) (r : FundResult) : ℕ :=
  transactionSizeFromScriptLengths (ins ++ r.allocatedUTXOs.map (·.inputSize))
    (outs ++ List.replicate r.changeOutputsCount p2pkhLockingScriptLength)

/-- What the inputs of the planned transaction leave over its outputs; the target is what the
provided outputs are short of the provided inputs. -/
def paidFee (args : FundArgs) (r : FundResult) : ℤ :=
  totalSatoshis r.allocatedUTXOs - args.targetSat - (if r.changeOutputsCount = 0 then 0
      else r.changeAmount)

/-- The bytes by which the two counts get wider. -/
def growth (ins outs : List ℕ) (coins change : ℕ) : ℕ :=
  varIntSize (ins.length + coins) - varIntSize ins.length + (varIntSize (outs.length + change)
      - varIntSize outs.length)

theorem planSize_eq (ins outs : List ℕ) (r : FundResult) :
    planSize ins outs r = transactionSizeFromScriptLengths ins outs
    + inputsSize r.allocatedUTXOs + r.changeOutputsCount * p2pkhOutputSize
    + growth ins outs r.allocatedUTXOs.length r.changeOutputsCount := by
  have hins := varIntSize_mono (Nat.le_add_right ins.length r.allocatedUTXOs.length)
  have houts := varIntSize_mono (Nat.le_add_right outs.length r.changeOutputsCount)
  have hsum : ((List.replicate r.changeOutputsCount p2pkhLockingScriptLength).map
      transactionOutputSize).sum
      = r.changeOutputsCount * p2pkhOutputSize := by
    rw [List.map_replicate, List.sum_replicate_nat]
    rfl
  have hcoins : ((r.allocatedUTXOs.map (·.inputSize)).map transactionInputSize).sum
      = inputsSize r.allocatedUTXOs := by
    rw [List.map_map]
    rfl
  unfold planSize transactionSizeFromScriptLengths growth
  rw [List.map_append, List.map_append, List.sum_append, List.sum_append, hsum, hcoins,
      List.length_append,
    List.length_append, List.length_map, List.length_replicate]
  omega

theorem growth_lt (ins outs : List ℕ) (coins change : ℕ) :
    growth ins outs coins change < p2pkhOutputSize := by
  have hins := varIntSize_le (ins.length + coins)
  have houts := varIntSize_le (outs.length + change)
  have hsize : p2pkhOutputSize = 34 := by decide
  unfold growth
  omega

/-- Change that is not kept is paid on top of the fee. -/
theorem paidFee_eq {r : FundResult} (h : r.For args) :
    paidFee args r = r.fee + if r.changeOutputsCount = 0 then r.changeAmount else 0 := by
  have hbal : (totalSatoshis r.allocatedUTXOs : ℤ) = args.targetSat + r.fee + r.changeAmount :=
    h.balance
  unfold paidFee
  split_ifs <;> omega

theorem fee_le_paidFee {r : FundResult} (h : r.For args) : r.fee ≤ paidFee args r := by
  have hnonneg := h.nonneg
  rw [paidFee_eq h]
  split_ifs <;> omega

theorem paidFee_of_kept {c : UtxoCollector} {r : FundResult} (hc : c.For args)
    (hr : c.result = .ok r)
    (hcount : c.changeOutputsCount = r.changeOutputsCount) : paidFee args r = r.fee := by
  obtain ⟨halloc, hmoney⟩ := hc.result hr
  have hbal := hmoney.balance
  have hnonneg := hmoney.nonneg
  have hcov := hc.covered
  have hsats := hc.txSats
  have hfee := (result_eq_ok hr).2.1
  rw [halloc] at hbal
  rw [paidFee_eq hmoney]
  split_ifs with hzero
  · have hle := hc.sound.count (hcount.trans hzero)
    omega
  · omega

/-- No change output was planned, or the change is above the dust floor and its outputs are kept. -/
def KeepsChange (c : UtxoCollector) : Prop := c.changeOutputsCount = 0
    ∨ (c.dustFloor : ℤ) ≤ c.surplus

theorem keepsChange_iff {c : UtxoCollector} {r : FundResult} (hr : c.result = .ok r) :
    KeepsChange c ↔ c.changeOutputsCount = r.changeOutputsCount := by
  unfold result at hr
  obtain ⟨b, -, hr⟩ := Except.bind_eq_ok hr
  split_ifs at hr
  obtain ⟨v, hv, hr⟩ := Except.bind_eq_ok hr
  have hval : v = c.surplus := change_eq_ok hv
  cases hr
  change _ ↔ c.changeOutputsCount = if v < c.dustFloor then 0 else c.changeOutputsCount
  unfold KeepsChange
  split_ifs <;> omega

/-- The planned transaction pays for its exact size if change outputs were priced that it does not
have, because they were planned before or were dust, or if the wider counts cost nothing at this
rate. -/
theorem fund_pays_for_size_iff {σ : Type} (h : (c : StoreCall) → σ → c.Answer × σ) (s : σ)
    (fees : FeeCalc) (rounds : ℕ) (args : FundArgs) (ins outs : List ℕ) (r : FundResult)
    (hsize : args.currentTxSize = transactionSizeFromScriptLengths ins outs)
    (hr : ((fund fees rounds args).run.run h s).1 = .ok r) :
    ∃ c, collect fees args r.allocatedUTXOs = .ok c ∧ c.result = .ok r ∧
      (fees (planSize ins outs r) ≤ paidFee args r ↔
        (PlansOnce fees args r.allocatedUTXOs ∧ KeepsChange c →
          fees (c.txSize + growth ins outs c.allocatedUTXOs.length c.changeOutputsCount)
            ≤ fees c.txSize)) := by
  obtain ⟨hmax, c, hc, hres⟩ := fund_eq_ok hr
  obtain ⟨count, hp⟩ := planned_collect hmax hc
  have hfor := for_collect hmax hc
  obtain ⟨halloc, hmoney⟩ := hfor.result hres
  obtain ⟨-, hfee, hkept⟩ := result_eq_ok hres
  have hfeeSize : r.fee = fees c.txSize := hfee.trans (tally_collect hc).fee
  have hplan := planSize_eq ins outs r
  rw [← hsize] at hplan
  refine ⟨c, hc, hres, ?_⟩
  rw [keepsChange_iff hres]
  by_cases honce : PlansOnce fees args r.allocatedUTXOs ∧ c.changeOutputsCount
      = r.changeOutputsCount
  · -- the size that was priced is that of the transaction, with the counts as wide as before
    obtain ⟨honce, hcount⟩ := honce
    have hpriced : planSize ins outs r
        = c.txSize + growth ins outs c.allocatedUTXOs.length c.changeOutputsCount := by
      rw [hplan, hp.size, ← hp.once.mpr honce, halloc, hcount]
    rw [paidFee_of_kept hfor hres hcount, hfeeSize, hpriced]
    simp [honce, hcount]
  · -- an output more was priced than the transaction has, and the counts grow by less than that
    have hmore : r.changeOutputsCount + 1 ≤ count := by
      have hle := hp.le
      have hnone := hp.none
      rcases hkept with hkept | hkept
      · have hne : c.changeOutputsCount ≠ count := fun heq => honce ⟨hp.once.mp heq, hkept.symm⟩
        omega
      · have hne : c.changeOutputsCount ≠ count ∨ c.changeOutputsCount ≠ r.changeOutputsCount :=
          not_and_or.mp fun hboth => honce ⟨hp.once.mp hboth.1, hboth.2⟩
        omega
    have hmul : (r.changeOutputsCount + 1) * p2pkhOutputSize ≤ count * p2pkhOutputSize :=
      Nat.mul_le_mul_right _ hmore
    have hgrowth := growth_lt ins outs r.allocatedUTXOs.length r.changeOutputsCount
    have hle : planSize ins outs r ≤ c.txSize := by
      rw [hplan, hp.size]
      rw [Nat.add_mul, Nat.one_mul] at hmul
      omega
    have hpaid : (fees (planSize ins outs r) : ℤ) ≤ paidFee args r := by
      have hmono := fees.monotone hle
      have hpay := fee_le_paidFee hmoney
      omega
    exact iff_of_true hpaid fun h => absurd h honce

theorem fund_pays_for_size_single :
    ∃ c, collect (.exact 1000) (payment 44) [coin 0 5000] = .ok c ∧ c.result = .ok ⟨[coin 0 5000],
      1, 3774, 226, 384⟩ ∧
      (FeeCalc.exact 1000 (planSize [] [25] ⟨[coin 0 5000], 1, 3774, 226, 384⟩)
          ≤ paidFee (payment 44) ⟨[coin 0 5000], 1, 3774, 226, 384⟩ ↔
        (PlansOnce (.exact 1000) (payment 44) [coin 0 5000] ∧ KeepsChange c →
          FeeCalc.exact 1000 (c.txSize + growth [] [25] c.allocatedUTXOs.length
            c.changeOutputsCount)
            ≤ FeeCalc.exact 1000 c.txSize)) :=
  fund_pays_for_size_iff (exact fun _ => 0) (purse [5000], 0) (.exact 1000) 3 (payment 44) [] [25]
    ⟨[coin 0 5000], 1, 3774, 226, 384⟩ (by decide) (by decide)

/-- With the coin there are 253 inputs, whose count takes three bytes; one byte is paid for. -/
theorem fund_underpays_wider_count :
    ((fund (.exact 1000) 3 (payment (transactionSizeFromScriptLengths (List.replicate 252 107)
      [25]))).run.run (exact fun _ => 0)
        (purse [1000000], 0)).1 = .ok ⟨[coin 0 1000000], 1, 961478, 37522, 384⟩ ∧
      paidFee (payment (transactionSizeFromScriptLengths (List.replicate 252 107) [25]))
        ⟨[coin 0 1000000], 1, 961478, 37522, 384⟩ = 37522 ∧
      FeeCalc.exact 1000 (planSize (List.replicate 252 107) [25] ⟨[coin 0 1000000], 1, 961478,
        37522, 384⟩) = 37524 := by
  decide +kernel

end Funder

end ArcadeToolbox
