import ArcadeToolbox.Funder.Pricing
import ArcadeToolbox.Storage.Template

/-!
# The outputs of the change

The funder says how many outputs the change is for, and `distributeChange` splits it. The number is
chosen for the surplus before the outputs are paid for, so what is left of it may be too little for
each. The transactions row records the change of the funder as a gain, also where it is too little
for an output and goes to the miner.
-/

namespace ArcadeToolbox

open Txn

theorem le_distributeChange_iff {total : ℤ} {count floor : ℕ} (hc : count ≠ 0) (ht : 0 < total) :
    (∀ v ∈ distributeChange total count, floor ≤ v) ↔ (count * floor : ℤ) ≤ total := by
  have hpos : 0 < count := Nat.pos_of_ne_zero hc
  have hparts : (∀ v ∈ distributeChange total count, floor ≤ v) ↔ floor ≤ total.toNat / count := by
    rw [distributeChange, if_neg (by omega)]
    constructor
    · intro h
      by_cases hone : count = 1
      · have hlast := h (total.toNat / count + total.toNat % count) (by simp)
        rwa [hone, Nat.mod_one, Nat.add_zero, ← hone] at hlast
      · exact h _ (List.mem_append_left _ (List.mem_replicate.mpr ⟨by omega, rfl⟩))
    · intro h v hv
      rcases List.mem_append.mp hv with hv | hv
      · exact (List.mem_replicate.mp hv).2 ▸ h
      · rw [List.mem_singleton.mp hv]
        omega
  rw [hparts, Nat.le_div_iff_mul_le hpos, Nat.mul_comm, ← Nat.cast_mul]
  omega

namespace UtxoCollector

variable {fees : FeeCalc} {args : FundArgs} {c d : UtxoCollector} {us : List Utxo}

/-- The count goes down to the number of dust floors in the value, and not below one. -/
theorem dropDust_eq {v floor : ℕ} (hf : 0 < floor) :
    ∀ n, 1 ≤ n → dropDust v floor n = max 1 (min n (v / floor))
  | 0, h => absurd h (by omega)
  | 1, _ => by
    unfold dropDust
    omega
  | n + 2, _ => by
    have hlt : v / (n + 2) < floor ↔ v / floor < n + 2 := by
      rw [Nat.div_lt_iff_lt_mul (by omega), Nat.div_lt_iff_lt_mul hf, Nat.mul_comm]
    unfold dropDust
    by_cases h : v / (n + 2) < floor
    · rw [if_pos h, dropDust_eq hf (n + 1) (by omega)]
      have := hlt.mp h
      omega
    · rw [if_neg h]
      have := mt hlt.mpr h
      omega

/-- The number of outputs for the surplus: as many as are wanted, each with the dust floor. -/
def outputsFor (d : UtxoCollector) : ℕ :=
  min (d.wantedOutputs d.surplus.toNat) (d.surplus.toNat / d.dustFloor)

/-- What so many outputs add to the fee. -/
def priceOf (d : UtxoCollector) (n : ℕ) : ℕ :=
  d.fees (d.txSize + n * p2pkhOutputSize) - d.fees d.txSize

/-- One output is planned, or several of which the surplus pays the price and the dust floors, or it
does not pay for one of them. -/
def SplitPays (d : UtxoCollector) : Prop :=
  d.outputsFor ≤ 1 ∨ d.surplus < d.dustFloor + d.priceOf d.outputsFor
    ∨ (d.outputsFor * d.dustFloor + d.priceOf d.outputsFor : ℤ) ≤ d.surplus

theorem result_change {r : FundResult} (h : c.result = .ok r) : r.changeAmount = c.surplus
    ∧ r.dustFloor = c.dustFloor := by
  unfold UtxoCollector.result at h
  obtain ⟨b, -, h⟩ := Except.bind_eq_ok h
  cases b with
  | false => cases h
  | true =>
    obtain ⟨change, hchange, h⟩ := Except.bind_eq_ok h
    cases h
    exact ⟨change_eq_ok hchange, rfl⟩

theorem surplus_withChange (hfee : d.fee = d.fees d.txSize) (n : ℕ) :
    (d.withChange n).surplus = d.surplus - d.priceOf n := by
  have hmono := d.fees.monotone (Nat.le_add_right d.txSize (n * p2pkhOutputSize))
  have hval : (d.withChange n).surplus
      = d.satsCovered - (d.txSats + d.fees (d.txSize + n * p2pkhOutputSize)) := rfl
  have hval' : d.surplus = d.satsCovered - (d.txSats + d.fee) := rfl
  unfold priceOf
  omega

/-- The change of a result whose outputs were planned for the surplus. -/
theorem planned_result {r : FundResult} (ht : Tally fees args us d)
    (hmax : 1 ≤ d.maxChangeOutputsPerTx)
    (hplan : d.calculateChangeOutputs = .ok c) (hr : c.result = .ok r) (hs : ¬ d.surplus ≤ 0) :
    r.changeAmount = d.surplus - d.priceOf (max 1 d.outputsFor)
      ∧ (r.changeOutputsCount = max 1 d.outputsFor ∨ r.changeOutputsCount = 0) := by
  have hdust : 0 < d.dustFloor := by
    have := ht.dust
    omega
  have hcount : d.calculateChangeCount d.surplus.toNat = max 1 d.outputsFor := by
    rw [calculateChangeCount, dropDust_eq hdust _ (wantedOutputs_pos ht.desired hmax _)]
    rfl
  have hfee : d.fee = d.fees d.txSize := ht.rate.symm ▸ ht.fee
  have hc := calculateChangeOutputs_eq_ok hplan
  rw [if_neg hs, hcount] at hc
  obtain ⟨hchange, -⟩ := result_change hr
  obtain ⟨-, -, hkept⟩ := Funder.result_eq_ok hr
  rw [hc] at hchange hkept
  exact ⟨hchange.trans (surplus_withChange hfee _), hkept⟩

end UtxoCollector

namespace Funder

open UtxoCollector

/-- Every change output of a call that succeeds has the dust floor exactly if the surplus that they
were planned for pays for them. -/
theorem fund_change_above_dust_iff {σ : Type} (h : (c : StoreCall) → σ → c.Answer × σ) (s : σ)
    (fees : FeeCalc) (rounds : ℕ)
    (args : FundArgs) (r : FundResult) (hr : ((fund fees rounds args).run.run h s).1 = .ok r) :
    ∃ d, beforeChange fees args r.allocatedUTXOs = .ok d ∧
      ((∀ v ∈ distributeChange r.changeAmount r.changeOutputsCount, r.dustFloor ≤ v)
        ↔ SplitPays d) := by
  obtain ⟨hmax, c, hc, hres⟩ := fund_eq_ok hr
  obtain ⟨d, hd, hplan⟩ := collect_eq_ok hc
  have ht := tally_beforeChange hd
  have hfor := ((for_collect hmax hc).result hres).2
  obtain ⟨hchange, hdust⟩ := result_change hres
  have hfloor : c.dustFloor = d.dustFloor := (tally_collect hc).dust.trans ht.dust.symm
  rw [hfloor] at hdust
  refine ⟨d, hd, ?_⟩
  have hpos := hfor.dust
  have hcount := hfor.count
  rw [hdust] at hpos hcount ⊢
  by_cases hs : d.surplus ≤ 0
  · -- without a surplus nothing is planned, and there is no change
    have hplan := calculateChangeOutputs_eq_ok hplan
    rw [if_pos hs] at hplan
    rw [hplan] at hchange
    have hzero : r.changeOutputsCount = 0 := hcount.mpr (by omega)
    have hnone : d.outputsFor ≤ 1 := by
      unfold outputsFor
      rw [Int.toNat_of_nonpos hs, Nat.zero_div]
      omega
    rw [hzero, Storage.distributeChange_zero]
    exact iff_of_true (by simp) (Or.inl hnone)
  · obtain ⟨hamount, hkept⟩ := planned_result ht (ht.maxChange ▸ hmax) hplan hres hs
    unfold SplitPays
    rcases Nat.lt_or_ge 1 d.outputsFor with hmany | hone
    · rw [max_eq_right hmany.le] at hamount hkept
      by_cases hzero : r.changeOutputsCount = 0
      · have hlt := hcount.mp hzero
        rw [hzero, Storage.distributeChange_zero]
        exact iff_of_true (by simp) (Or.inr (Or.inl (by omega)))
      · have hge := mt hcount.mpr hzero
        have hn : r.changeOutputsCount = d.outputsFor := hkept.resolve_right hzero
        rw [le_distributeChange_iff hzero (by omega), hn]
        omega
    · rw [max_eq_left hone] at hamount hkept
      refine iff_of_true ?_ (Or.inl hone)
      by_cases hzero : r.changeOutputsCount = 0
      · rw [hzero, Storage.distributeChange_zero]
        simp
      · have hge := mt hcount.mpr hzero
        have hn : r.changeOutputsCount = 1 := hkept.resolve_right hzero
        rw [le_distributeChange_iff hzero (by omega), hn]
        omega

/-- One change output. -/
theorem fund_change_above_dust_single :
    ((fund (.satPerKB 1000) 3 (payment 44)).run.run (exact fun _ => 0) (purse [5000], 0)).1
      = .ok ⟨[coin 0 5000], 1, 3774, 226, 384⟩ ∧
      ∃ d, beforeChange (.satPerKB 1000) (payment 44) [coin 0 5000] = .ok d ∧
        ((∀ v ∈ distributeChange 3774 1, 384 ≤ v) ↔ SplitPays d) := by
  have hr : ((fund (.satPerKB 1000) 3 (payment 44)).run.run (exact fun _ => 0) (purse [5000], 0)).1
      = .ok ⟨[coin 0 5000], 1, 3774, 226, 384⟩ := by decide +kernel
  exact ⟨hr, fund_change_above_dust_iff (exact fun _ => 0) (purse [5000], 0) (.satPerKB 1000)
      3 (payment 44)
    ⟨[coin 0 5000], 1, 3774, 226, 384⟩ hr⟩

/-- The surplus of 768 is twice the dust floor, so two outputs are planned. They cost 68, and get
350 each. -/
theorem fund_splits_below_dust :
    ((fund (.satPerKB 1000) 3 { payment 44 with numberOfDesiredUTXOs := 2,
                                                minimumDesiredUTXOValue := 100,
                                                maxChangeOutputsPerTx := 2 }).run.run
        (exact fun _ => 0) (purse [1960], 0)).1 = .ok ⟨[coin 0 1960], 2, 700, 260, 384⟩ ∧
      distributeChange 700 2 = [350, 350] := by
  decide +kernel

end Funder

/-- The counters of the two tables are ahead of their rows, and no output is of a transaction to
come. -/
structure Metadata.Numbered (m : Metadata) : Prop where
  transactions : ∀ r ∈ m.transactions, r.transactionID < m.nextTransactionID
  outputs : ∀ o ∈ m.outputs, o.outputID < m.nextOutputID
  owned : ∀ o ∈ m.outputs, o.transactionID < m.nextTransactionID

/-- What the change outputs of a transaction are worth. -/
def Metadata.changeSum (m : Metadata) (id : TransactionID) : ℕ :=
  ((m.outputs.select fun o => o.transactionID = id && o.change).map (·.satoshis)).sum

namespace Storage

open UtxoStore

variable {p : Provider} {env : Env} {userID : UserID} {args : CreateActionArgs} {s s' : Session Db}
  {provided : List ResolvedInput} {fundRes : FundResult} {r : CreateActionResult}

theorem metadata_utxoStmt {α : Type} (f : Time → Inventory → Except Err α × Inventory)
    (s : Session Db) :
    (utxoStmt f s).2.db.metadata = s.db.metadata := by
  rcases h : utxoStmt f s with ⟨a, s'⟩
  unfold utxoStmt at h
  rcases Uow.stmt_run h with ⟨-, hw⟩ | ⟨s1, hw, -, rfl⟩
  · exact congrArg Db.metadata hw.db
  · change s1.db.metadata = _
    rw [hw.db]

theorem metadata_answer {α : Type} (x : Time → Inventory → Except UtxoErr α × Inventory)
    (s : Session Db) :
    (answer x s).2.db.metadata = s.db.metadata := by
  have h := metadata_utxoStmt (fun now i =>
      ((Except.ok (x now i).1 : Except Err (Except UtxoErr α)), (x now i).2)) s
  unfold answer
  split <;> rename_i hs <;> rwa [hs] at h

theorem metadata_optimistic {α : Type} (x : Time → Inventory → Except UtxoErr α × Inventory)
    (s : Session Db) :
    (optimistic x s).2.db.metadata = s.db.metadata := by
  unfold optimistic
  split
  · rfl
  · exact metadata_answer x _
  · exact metadata_answer x s

/-- The calls of the funder leave the metadata alone. -/
theorem metadata_call (prober : Bool) (c : StoreCall) (s : Session Db) :
    (call prober c s).2.db.metadata = s.db.metadata := by
  cases c with
  | claimSmallestSufficient | claimLargestInsufficient | claimExact | releaseOutpoints =>
    exact metadata_optimistic _ s
  | releaseReservation => exact metadata_answer _ s
  | claimableExists sc minSats =>
    cases prober with
    | false => rfl
    | true =>
      change (claimableExists sc minSats s).2.db.metadata = _
      unfold claimableExists
      dsimp only
      split
      · rfl
      · exact metadata_answer _ _
      · exact metadata_answer _ s

theorem metadata_run {α : Type} (prober : Bool) :
    ∀ (x : Prog StoreCall StoreCall.Answer α) (s : Session Db),
    (x.run (call prober) s).2.db.metadata = s.db.metadata
  | .done _, _ => rfl
  | .call c k, s =>
    (metadata_run prober (k (call prober c s).1) (call prober c s).2).trans
        (metadata_call prober c s)

theorem insertOutput_ok {o : NewOutput} {oid : OutputID}
    (hbelow : ∀ x ∈ s.db.metadata.outputs, x.outputID < s.db.metadata.nextOutputID)
    (h : OutputsRepo.insert o s = (.ok oid, s')) :
    s'.db.metadata.transactions = s.db.metadata.transactions
      ∧ (∀ x ∈ s'.db.metadata.outputs, x.outputID < s'.db.metadata.nextOutputID)
      ∧ ∀ id, s'.db.metadata.changeSum id = s.db.metadata.changeSum id
        + if o.transactionID = id ∧ o.change = true then o.satoshis else 0 := by
  have hw := metaStmt_wrote (by simp) h
  have ha := hw.answer
  rw [hw.metadata]
  unfold Metadata.insertOutput at ha ⊢
  split at ha
  · cases ha
  · rename_i hno
    rw [if_neg hno]
    have hfree : s.db.metadata.outputs.get? s.db.metadata.nextOutputID = none :=
      Table.get?_eq_none.mpr fun x hx => (hbelow x hx).ne
    refine ⟨rfl, fun x hx => ?_, fun id => ?_⟩
    · rcases Table.mem_insert.mp hx with hx | ⟨rfl, -⟩
      · exact Nat.lt_succ_of_lt (hbelow x hx)
      · exact Nat.lt_succ_self _
    · unfold Metadata.changeSum Table.select
      dsimp only
      rw [Table.rows_insert hfree]
      by_cases hsel : o.transactionID = id ∧ o.change = true
      · simp [List.filter_append, hsel]
      · simp only [List.filter_append, List.map_append, List.sum_append, if_neg hsel]
        rw [List.filter_singleton, cond_eq_ite, if_neg (by simpa using hsel)]
        simp

/-- The change outputs that are inserted for a transaction are those that are planned. -/
theorem insertOutputs_ok {id : TransactionID} : ∀ {plans : List (OutputPlan × ℕ)} {s : Session Db},
    (∀ x ∈ s.db.metadata.outputs, x.outputID < s.db.metadata.nextOutputID) →
    (plans.forM fun x => do
      let _ ← OutputsRepo.insert
        { userID := userID, transactionID := id, vout := x.2, satoshis := x.1.satoshis,
          lockingScript := x.1.lockingScript, basket := x.1.basket, change := x.1.change,
          providedBy := x.1.providedBy }) s = (.ok (), s') →
    s'.db.metadata.transactions = s.db.metadata.transactions
      ∧ s'.db.metadata.changeSum id
        = s.db.metadata.changeSum id + (((plans.map Prod.fst).filter (·.change)).map
            (·.satoshis)).sum
  | [], s, _, h => by
    cases h
    simp
  | x :: plans, s, hbelow, h => by
    obtain ⟨_, s1, h1, h⟩ := Uow.bind_ok h
    obtain ⟨oid, s2, h2, hret⟩ := Uow.bind_ok h1
    cases hret
    obtain ⟨htx, hbelow', hsum⟩ := insertOutput_ok hbelow h2
    obtain ⟨htx', hsum'⟩ := insertOutputs_ok hbelow' h
    refine ⟨htx'.trans htx, ?_⟩
    rw [hsum', hsum]
    by_cases hc : x.1.change = true
    · simp [hc, Nat.add_assoc]
    · simp [hc]

theorem persistOutputs_ok {id : TransactionID} {plans : List OutputPlan}
    (hbelow : ∀ x ∈ s.db.metadata.outputs, x.outputID < s.db.metadata.nextOutputID)
    (h : persistOutputs userID id plans s = (.ok (), s')) :
    s'.db.metadata.transactions = s.db.metadata.transactions
      ∧ s'.db.metadata.changeSum id
        = s.db.metadata.changeSum id + ((plans.filter (·.change)).map (·.satoshis)).sum := by
  have hall := insertOutputs_ok hbelow h
  rwa [List.zipIdx_map_fst] at hall

/-- What the fuel shape asks for. -/
def fuelTotal (args : CreateActionArgs) : ℕ := args.fuelShape.elim 0 fun s => s.count * s.satoshis

/-- The change outputs are those of the fuel shape and those of the funder's change. -/
theorem sum_changePlans (p : Provider) (args : CreateActionArgs) (fundRes : FundResult) :
    (((buildOutputPlans p args fundRes).filter (·.change)).map (·.satoshis)).sum
      = fuelTotal args + (distributeChange
        fundRes.changeAmount fundRes.changeOutputsCount).sum := by
  have hcommission : (p.funding.commission.toList.map fun c =>
      (⟨c.1, some c.2, none, false, .storage⟩ : OutputPlan)).filter
      (·.change) = [] := by
    cases p.funding.commission <;> rfl
  have hfuel : (((args.fuelShape.elim [] fun s => List.replicate s.count
      ({ satoshis := s.satoshis, lockingScript := none, basket := some s.basket, change := true,
         providedBy := .storage } : OutputPlan)).filter (·.change)).map (·.satoshis)).sum
             = fuelTotal args := by
    unfold fuelTotal
    cases args.fuelShape <;> simp
  have houtputs : (args.outputs.map fun o =>
      (⟨o.satoshis, if o.lockingScript = "" then none else some o.lockingScript,
      o.basket, false, .you⟩ : OutputPlan)).filter (·.change) = [] := by
    simp [List.filter_eq_nil_iff]
  unfold buildOutputPlans
  simp only [List.filter_append, List.map_append, List.sum_append, houtputs, hcommission,
      hfuel, List.map_nil,
    List.sum_nil, Nat.zero_add]
  simp [List.filter_map, Function.comp_def]

theorem totalAllocated_ok : ∀ {us : List Utxo} {acc total : ℤ}, totalAllocated us acc = .ok total →
    total = acc + UtxoCollector.totalSatoshis us
  | [], acc, total, h => by
    cases h
    simp [UtxoCollector.totalSatoshis]
  | u :: us, acc, total, h => by
    obtain ⟨v, hv, h⟩ := Except.bind_eq_ok h
    obtain ⟨w, hw, h⟩ := Except.bind_eq_ok h
    have hrest := totalAllocated_ok h
    rw [hrest, satoshiFrom_eq_ok hw, satoshiFrom_eq_ok hv]
    simp [UtxoCollector.totalSatoshis, add_assoc]

theorem persistCreateAction_records {reference : Token} (hnum : s.db.metadata.Numbered)
    (h : persistCreateAction p env userID reference args provided fundRes s = (.ok r, s')) :
    ∃ row ∈ s'.db.metadata.transactions, row.reference = r.reference
      ∧ row.satoshis = fundRes.changeAmount - UtxoCollector.totalSatoshis fundRes.allocatedUTXOs
      ∧ s'.db.metadata.changeSum row.transactionID
        = fuelTotal args + (distributeChange
          fundRes.changeAmount fundRes.changeOutputsCount).sum := by
  unfold persistCreateAction at h
  obtain ⟨total, s1, h1, h⟩ := Uow.bind_ok h
  obtain ⟨htotal, hs1⟩ := liftFund_ok h1
  obtain ⟨_, s2, h2, h⟩ := Uow.bind_ok h
  obtain ⟨-, hs2⟩ := require_ok h2
  obtain ⟨id, s3, h3, h⟩ := Uow.bind_ok h
  rw [hs2, hs1] at h3
  obtain ⟨-, rfl, hfresh, hm⟩ := insertTx_ok h3
  obtain ⟨_, s4, h4, h⟩ := Uow.bind_ok h
  obtain ⟨_, s5, h5, h⟩ := Uow.bind_ok h
  obtain ⟨hw, -⟩ := metaQuery_ok h5
  cases h
  have hnext : s.db.metadata.transactions.get? s.db.metadata.nextTransactionID = none :=
    Table.get?_eq_none.mpr fun x hx => (hnum.transactions x hx).ne
  unfold Metadata.insertTx at hm
  have hno : (s.db.metadata.transactions.any fun x => decide (x.reference = reference)) = false :=
    Table.any_eq_false.mpr fun x hx => decide_eq_false (hfresh x hx)
  rw [if_neg (by simp [hno])] at hm
  dsimp only at hm
  have hout : s3.db.metadata.outputs = s.db.metadata.outputs := by rw [hm]
  have hbelow : ∀ x ∈ s3.db.metadata.outputs, x.outputID < s3.db.metadata.nextOutputID := by
    rw [hm]
    exact hnum.outputs
  -- no output is of the new transaction yet
  have hnone : s3.db.metadata.changeSum s.db.metadata.nextTransactionID = 0 := by
    have hnil : (s.db.metadata.outputs.select fun o =>
        o.transactionID = s.db.metadata.nextTransactionID && o.change) = [] := by
      refine List.filter_eq_nil_iff.mpr fun o ho => ?_
      simp [(hnum.owned o ho).ne]
    unfold Metadata.changeSum
    rw [hout, hnil]
    rfl
  obtain ⟨htx, hsum⟩ := persistOutputs_ok hbelow h4
  have hplans : (((if args.randomizeOutputs = true then
      reorder env.order (buildOutputPlans p args fundRes)
      else buildOutputPlans p args fundRes).filter (·.change)).map (·.satoshis)).sum
      = fuelTotal args + (distributeChange
          fundRes.changeAmount fundRes.changeOutputsCount).sum := by
    rw [← sum_changePlans p args fundRes]
    split
    · exact (((reorder_perm _ _).filter _).map _).sum_eq
    · rfl
  rw [hw.db, htx]
  refine ⟨⟨s.db.metadata.nextTransactionID, userID, .unsigned, reference, true,
      fundRes.changeAmount - total, none, s3.now⟩,
    ?_, rfl, ?_, ?_⟩
  · rw [hm]
    exact Table.mem_insert.mpr (Or.inr ⟨rfl, hnext⟩)
  · rw [totalAllocated_ok htotal, zero_add]
  · rw [hsum, hnone, hplans, Nat.zero_add]

theorem metadata_beforeFunding {fa : FundArgs}
    (h : beforeFunding p env userID args s = (.ok (provided, fa), s')) :
    s'.db.metadata = s.db.metadata := by
  obtain ⟨-, -, s1, hw, hres⟩ := beforeFunding_ok h
  unfold reserveProvidedInputs at hres
  split at hres
  · cases hres
    rw [hw.db]
  · have hstmt := metadata_utxoStmt (fun now i =>
      UtxoStore.joinBatch (i.reserveOutpoints now userID env.reference
      (walletOwnedOutpoints provided))) s1
    rw [show utxoStmt _ s1 = (.ok (), s') from hres] at hstmt
    exact hstmt.trans (congrArg Db.metadata hw.db)

/-- The net that is recorded on the row of an action is what its change outputs, without those of
the fuel shape, exceed the allocated coins by, exactly if the funder leaves no change or enough for
an output. -/
theorem createAction_records_net_iff (hnum : s.db.metadata.Numbered)
    (h : createAction p env userID args s = (.ok r, s')) :
    ∃ fundRes row, FundsWith p env userID args s fundRes ∧ row ∈ s'.db.metadata.transactions
      ∧ row.reference = r.reference
      ∧ (row.satoshis = s'.db.metadata.changeSum row.transactionID - fuelTotal args
          - UtxoCollector.totalSatoshis fundRes.allocatedUTXOs ↔
        fundRes.changeAmount = 0 ∨ (fundRes.dustFloor : ℤ) ≤ fundRes.changeAmount) := by
  obtain ⟨provided, fa, s₁, fundRes, s₂, hbefore, hfund, hpersist⟩ := createAction_parts h
  have hmeta : s₂.db.metadata = s.db.metadata := by
    rw [← metadata_beforeFunding hbefore, ← metadata_run p.funding.prober (fundProg p fa) s₁, hfund]
  have hrun : ((Funder.fund p.funding.fees p.funding.rounds fa).run.run (call p.funding.prober)
      s₁).1 = .ok fundRes :=
    congrArg Prod.fst hfund
  obtain ⟨hmax, c, hc, hres⟩ := Funder.fund_eq_ok hrun
  have hfor := ((UtxoCollector.for_collect hmax hc).result hres).2
  obtain ⟨row, hrow, href, hsats, hsum⟩ := persistCreateAction_records (hmeta ▸ hnum) hpersist
  refine ⟨fundRes, row, ⟨provided, fa, s₁, s₂, hbefore, hfund⟩, hrow, href, ?_⟩
  have hnonneg := hfor.nonneg
  have hdust := hfor.dust
  rw [hsats, hsum]
  by_cases hcount : fundRes.changeOutputsCount = 0
  · have hlt := hfor.count.mp hcount
    rw [hcount, distributeChange_zero]
    simp only [List.sum_nil, Nat.add_zero]
    omega
  · have hge := mt hfor.count.mpr hcount
    have hchange := sum_distributeChange hcount (by omega : 0 < fundRes.changeAmount)
    rw [Nat.cast_add]
    omega

theorem createAction_records_net_recorded :
    recordedSession.db.metadata.Numbered ∧
    ∃ r s' fundRes row, createAction (plainProvider .b) plainEnv 1 plainArgs recordedSession
      = (.ok r, s')
      ∧ FundsWith (plainProvider .b) plainEnv 1 plainArgs recordedSession fundRes
      ∧ row ∈ s'.db.metadata.transactions ∧ row.reference = r.reference
      ∧ (row.satoshis = s'.db.metadata.changeSum row.transactionID - fuelTotal plainArgs
          - UtxoCollector.totalSatoshis fundRes.allocatedUTXOs ↔
        fundRes.changeAmount = 0 ∨ (fundRes.dustFloor : ℤ) ≤ fundRes.changeAmount) := by
  have hrun : ∃ r s', createAction (plainProvider .b) plainEnv 1 plainArgs recordedSession
      = (.ok r, s')
      ∧ true = true := Uow.exists_of_check (q := fun _ _ => true) (by decide +kernel)
  have htxs : ∀ r ∈ recordedSession.db.metadata.transactions.rows, r.transactionID < 2 := by decide
  have houts : ∀ o ∈ recordedSession.db.metadata.outputs.rows, o.outputID < 3
      ∧ o.transactionID < 2 := by decide
  have hnum : recordedSession.db.metadata.Numbered :=
    ⟨htxs, fun o ho => (houts o ho).1, fun o ho => (houts o ho).2⟩
  obtain ⟨r, s', h, -⟩ := hrun
  obtain ⟨fundRes, row, hrow⟩ := createAction_records_net_iff hnum h
  exact ⟨hnum, r, s', fundRes, row, h, hrow⟩

/-- One coin of 1002 satoshis. -/
def tightSession : Session Db :=
  ⟨{ plainDb with utxo := ⟨⟨[plainCoin 0 1002 1], by decide⟩, 1⟩ }, 0, [], []⟩

/-- A payment of 1000 satoshis for a fee of one. The satoshi that is left is too little for an
output. It goes to the miner, and is recorded as a gain: the net is 1001 where 1002 were spent. -/
theorem createAction_records_dust :
    ∃ r s', createAction (plainProvider .a) plainEnv 1 ⟨[], [⟨1000, "script", none⟩], none,
      false⟩ tightSession = (.ok r, s')
      ∧ r.allocated.map (·.satoshis) = [1002]
      ∧ ∃ row ∈ s'.db.metadata.transactions.rows, row.reference = r.reference ∧ row.satoshis = -1001
        ∧ s'.db.metadata.changeSum row.transactionID = 0 := by
  have hrun : ∃ r s', createAction (plainProvider .a) plainEnv 1 ⟨[], [⟨1000, "script", none⟩],
      none, false⟩ tightSession
      = (.ok r, s') ∧ decide (r.allocated.map (·.satoshis) = [1002]
        ∧ ∃ row ∈ s'.db.metadata.transactions.rows, row.reference = r.reference
            ∧ row.satoshis = -1001
          ∧ s'.db.metadata.changeSum row.transactionID = 0) = true := Uow.exists_of_check
              (by decide +kernel)
  obtain ⟨r, s', h, hrest⟩ := hrun
  exact ⟨r, s', h, of_decide_eq_true hrest⟩

end Storage

end ArcadeToolbox
