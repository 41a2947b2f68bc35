import ArcadeToolbox.Funder.Naive
import ArcadeToolbox.Funder.Pricing

/-!
# Fund gives up only when the pool is used up

A collector that is not funded needs more, unless the amounts it looks ahead to leave the satoshi
range. So on the reference store a round takes a coin whenever its tiers have one, the rounds end,
and a call that reports too little money has tried every coin.
-/

namespace ArcadeToolbox

open Txn

namespace UtxoCollector

variable {fees : FeeCalc} {args : FundArgs} {c : UtxoCollector} {us : List Utxo}

/-- With the next input and a change output, an amount leaves the range. -/
def OverRange (c : UtxoCollector) : Prop :=
  maxSatoshis < c.fees (c.txSize + p2pkhEstimatedInputSize + p2pkhOutputSize)
      ∨ maxSatoshis < c.dustFloor ∨
    maxSatoshis < c.txSats + c.fees (c.txSize + p2pkhEstimatedInputSize + p2pkhOutputSize)
        + c.dustFloor

theorem satoshiFrom_of_lt {v : ℤ} (h : maxSatoshis < v) : satoshiFrom v = .error .satoshiRange :=
  if_neg fun hv => absurd hv.2 (by omega)

theorem satoshiAdd_of_le {v w : ℤ} (hv : -maxSatoshis ≤ v ∧ v ≤ maxSatoshis)
    (hw : -maxSatoshis ≤ w ∧ w ≤ maxSatoshis)
    (hsum : -maxSatoshis ≤ v + w ∧ v + w ≤ maxSatoshis) : satoshiAdd v w = .ok (v + w) := by
  unfold satoshiAdd
  rw [satoshiFrom_of_le hv.1 hv.2, satoshiFrom_of_le hw.1 hw.2]
  exact satoshiFrom_of_le hsum.1 hsum.2

theorem satoshiAdd_of_lt {v w : ℤ} (hv : -maxSatoshis ≤ v ∧ v ≤ maxSatoshis) (hw : 0 ≤ w)
    (hsum : maxSatoshis < w ∨ maxSatoshis < v + w) : satoshiAdd v w = .error .satoshiRange := by
  unfold satoshiAdd
  rw [satoshiFrom_of_le hv.1 hv.2]
  by_cases hlt : maxSatoshis < w
  · rw [satoshiFrom_of_lt hlt]
    rfl
  · have hpos : 0 ≤ maxSatoshis := by decide
    rw [satoshiFrom_of_le (by omega) (by omega)]
    exact satoshiFrom_of_lt (by omega)

theorem satoshiSubtract_of_le {v w : ℤ} (hv : -maxSatoshis ≤ v ∧ v ≤ maxSatoshis)
    (hw : -maxSatoshis ≤ w ∧ w ≤ maxSatoshis)
    (hdiff : -maxSatoshis ≤ v - w ∧ v - w ≤ maxSatoshis) : satoshiSubtract v w = .ok (v - w) := by
  unfold satoshiSubtract
  rw [satoshiFrom_of_le hv.1 hv.2, satoshiFrom_of_le hw.1 hw.2]
  exact satoshiFrom_of_le hdiff.1 hdiff.2

/-- What is short of the change is positive, or an amount is out of range. -/
theorem shortOfChange_cases {size : ℕ}
    (hsize : size ≤ c.txSize + p2pkhEstimatedInputSize + p2pkhOutputSize)
    (hrange : c.InRange) (hcov : 0 ≤ c.satsCovered)
    (hshort : c.satsCovered < c.txSats + c.fees size + c.dustFloor) :
    (∃ r, 0 < r ∧ c.shortOfChange size = .ok (some r))
      ∨ (c.shortOfChange size = .error .panic ∧ OverRange c) := by
  have hmono := c.fees.monotone hsize
  have htarget := hrange.target
  have hcovered := hrange.covered
  have hpos : 0 ≤ maxSatoshis := by decide
  unfold OverRange shortOfChange calculateFee
  by_cases hfee : maxSatoshis < c.fees size
  · rw [satoshiFrom_of_lt hfee]
    exact Or.inr ⟨rfl, by omega⟩
  rw [satoshiFrom_of_le (by omega) (by omega)]
  by_cases hsum : maxSatoshis < c.txSats + c.fees size
  · refine Or.inr ⟨?_, by omega⟩
    change (must (satoshiAdd c.txSats (c.fees size)) >>= _) = _
    rw [satoshiAdd_of_lt htarget (by omega) (Or.inr hsum)]
    rfl
  have hadd : satoshiAdd c.txSats (c.fees size) = .ok (c.txSats + c.fees size) :=
    satoshiAdd_of_le htarget (by omega) (by omega)
  simp only [must, hadd, bind, Except.bind]
  by_cases hdust : maxSatoshis < c.dustFloor ∨ maxSatoshis < c.txSats + c.fees size + c.dustFloor
  · rw [satoshiAdd_of_lt (by omega) (by omega) hdust]
    exact Or.inr ⟨rfl, by omega⟩
  rw [satoshiAdd_of_le (by omega) (by omega) (by omega)]
  simp only [gt_iff_lt, if_pos hshort]
  rw [satoshiSubtract_of_le (by omega) hcovered (by omega)]
  exact Or.inl ⟨_, by omega, rfl⟩

/-- A reachable collector that is not funded has its amounts in range: it compared them. -/
theorem inRange_of_unfunded (hmax : 1 ≤ args.maxChangeOutputsPerTx)
    (h : collect fees args us = .ok c)
    (hf : c.isFunded = .ok false) : c.InRange := by
  obtain ⟨d, hd, hplan⟩ := collect_eq_ok h
  have ht := tally_beforeChange hd
  have hc := tally_collect h
  obtain ⟨v, hv, -⟩ := Except.bind_eq_ok hplan
  have hrange := inRange_of_change hv
  have hcov : c.satsCovered = d.satsCovered := hc.covered.trans ht.covered.symm
  unfold isFunded at hf
  split_ifs at hf with hm hcount
  · obtain ⟨v', hv', -⟩ := Except.bind_eq_ok hf
    exact inRange_of_change hv'
  · -- without a change output there was no surplus to plan for
    have hplanned := calculateChangeOutputs_eq_ok hplan
    split_ifs at hplanned with hs
    · rw [hplanned]
      exact hrange
    · refine absurd ?_ hcount
      have hpos := calculateChangeCount_pos ht.desired (ht.maxChange ▸ hmax) d.surplus.toNat
      rw [hplanned]
      exact hpos
  · obtain ⟨w, hw, -⟩ := Except.bind_eq_ok hf
    exact inRange_of_satsToCover hw (hcov ▸ hrange.covered)

theorem change_of_unfunded (hsound : c.Sound) (hrange : c.InRange) (hcov : 0 ≤ c.satsCovered)
    (hm : c.changeMandatory = true) (hf : c.isFunded = .ok false) :
    c.change = .ok (c.satsCovered - (c.txSats + c.fee)) := by
  unfold isFunded at hf
  rw [if_pos hm] at hf
  split_ifs at hf with hcount
  · obtain ⟨v, hv, -⟩ := Except.bind_eq_ok hf
    rw [hv, change_eq_ok hv]
  · have hle := hsound.count (by omega)
    have hcovered := hrange.covered
    have hto := hrange.toCover
    unfold change
    rw [satsToCover_of_le hrange.target hrange.fee hrange.toCover]
    change must (satoshiSubtract c.satsCovered (c.txSats + c.fee)) = _
    rw [satoshiSubtract_of_le hrange.covered hrange.toCover (by omega)]
    rfl

theorem uncovered_of_inRange (h : c.InRange) (hcov : 0 ≤ c.satsCovered)
    (hlt : c.satsCovered < c.txSats + c.fee) :
    c.uncovered = .ok (c.txSats + c.fee - c.satsCovered) := by
  have hcovered := h.covered
  have hto := h.toCover
  unfold uncovered
  rw [satsToCover_of_le h.target h.fee h.toCover]
  change must (satoshiSubtract (c.txSats + c.fee) c.satsCovered) = _
  rw [satoshiSubtract_of_le h.toCover h.covered (by omega)]
  rfl

theorem needForChange_cases (hsound : c.Sound) (hrange : c.InRange) (hcov : 0 ≤ c.satsCovered)
    (hchange : c.change = .ok (c.satsCovered - (c.txSats + c.fee)))
    (hshort : c.changeOutputsCount = 0 ∨ c.satsCovered - (c.txSats + c.fee) < c.dustFloor) :
    (∃ r, 0 < r ∧ c.needForChange = .ok (some r))
      ∨ (c.needForChange = .error .panic ∧ OverRange c) := by
  have hfee := hsound.fee
  have hdust := hsound.dust
  simp only [needForChange, hchange, bind, Except.bind]
  by_cases hcount : c.changeOutputsCount = 0
  · have hmono := c.fees.monotone
      (show c.txSize ≤ c.txSize + p2pkhEstimatedInputSize + p2pkhOutputSize by omega)
    have hle := hsound.count hcount
    rw [if_neg (by simp [hcount]), if_pos hcount]
    exact shortOfChange_cases le_rfl hrange hcov (by omega)
  · have hmono := c.fees.monotone (show c.txSize ≤ c.txSize + p2pkhEstimatedInputSize by omega)
    have hlow := hshort.resolve_left hcount
    rw [if_pos (by simpa using ⟨Nat.pos_of_ne_zero hcount, hlow⟩)]
    exact shortOfChange_cases (by omega) hrange hcov (by omega)

/-- A reachable collector that is not funded needs more, unless it looks ahead to an amount out of
range. -/
theorem remaining_cases (hmax : 1 ≤ args.maxChangeOutputsPerTx) (h : collect fees args us = .ok c)
    (hf : c.isFunded = .ok false) :
    (∃ r, 0 < r ∧ c.remaining = .ok r) ∨ (c.remaining = .error .panic ∧ c.changeMandatory = true
      ∧ OverRange c) := by
  have hrange := inRange_of_unfunded hmax h hf
  have hsound := sound_collect hmax h
  have hcov : 0 ≤ c.satsCovered := (tally_collect h).covered ▸ Int.natCast_nonneg _
  unfold remaining
  rcases isFunded_eq_false hf with ⟨hm, hshort⟩ | ⟨hm, hlt⟩
  · have hchange := change_of_unfunded hsound hrange hcov hm hf
    rw [if_pos hm]
    rcases needForChange_cases hsound hrange hcov hchange hshort with ⟨r, hr,
        hneed⟩ | ⟨hneed, hover⟩
    · rw [hneed]
      exact Or.inl ⟨r, hr, rfl⟩
    · rw [hneed]
      exact Or.inr ⟨rfl, hm, hover⟩
  · rw [if_neg (by simp [hm]), uncovered_of_inRange hrange hcov hlt]
    exact Or.inl ⟨_, by omega, rfl⟩

theorem collect_loose : collect fees args (us.map Utxo.loose)
    = (collect fees args us).map loose := by
  induction us using List.reverseRecOn with
  | nil =>
    rw [List.map_nil]
    cases h : collect fees args [] with
    | error e => rfl
    | ok c =>
      have halloc := (tally_collect h).allocated
      have hbare : c.loose = c := by
        unfold UtxoCollector.loose
        rw [halloc, List.map_nil, ← halloc]
      exact congrArg Except.ok hbare.symm
  | append_singleton us u ih =>
    rw [List.map_append, List.map_singleton, collect_append, collect_append, ih]
    cases collect fees args us with
    | error e => rfl
    | ok c => exact allocateUTXO_loose c u

theorem Collected.loose (h : Collected fees args c) : Collected fees args c.loose := by
  have h' : collect fees args (c.allocatedUTXOs.map Utxo.loose) = .ok c.loose := by
    rw [collect_loose, h]
    rfl
  exact h'

end UtxoCollector

namespace Funder

open UtxoCollector Inventory

variable {clock : ℕ → Time} {fees : FeeCalc} {args : FundArgs} {P : List Row} {c c' : UtxoCollector}
  {s : Inventory} {t : ℕ}

theorem naive_eq_ok {m : ℕ} (h : naive args (m + 1) P c = .ok c') :
    (c' = c ∧ (c.isFunded = .ok true ∨ c.isFunded = .ok false ∧ ∃ need ≤ 0,
      c.remaining = .ok need)) ∨
      ∃ r ∈ P, ∃ c1, c.allocateUTXO r.toUtxo = .ok c1 ∧ naive args m
        (without [r.outpoint] P) c1 = .ok c' := by
  rw [naive] at h
  obtain ⟨funded, hf, h⟩ := Except.bind_eq_ok h
  have hf := tagged_eq_ok hf
  cases funded with
  | true =>
    cases h
    exact Or.inl ⟨rfl, Or.inl hf⟩
  | false =>
    obtain ⟨need, hr, h⟩ := Except.bind_eq_ok h
    have hr := tagged_eq_ok hr
    split_ifs at h with hle
    · cases h
      exact Or.inl ⟨rfl, Or.inr ⟨hf, need, hle, hr⟩⟩
    · cases hch : choose need.toNat P args.tiers with
      | none =>
        rw [hch] at h
        cases h
      | some r =>
        rw [hch] at h
        obtain ⟨c1, ha, h⟩ := Except.bind_eq_ok h
        exact Or.inr ⟨r, (choose_mem hch).1, c1, tagged_eq_ok ha, h⟩

theorem naive_funded (hmax : 1 ≤ args.maxChangeOutputsPerTx) :
    ∀ {m : ℕ} {P : List Row} {c : UtxoCollector},
    Collected fees args c → naive args m P c = .ok c' → c'.isFunded = .ok true
  | 0, _, _, _, h => by cases h
  | m + 1, P, c, hc, h => by
    obtain ⟨rfl, hf | ⟨hf, need, hle, hr⟩⟩ | ⟨r, -, c1, ha, h⟩ := naive_eq_ok h
    · exact hf
    · have hpos := remaining_pos (sound_collect hmax hc) hf hr
      omega
    · exact naive_funded hmax (hc.allocate ha).1 h

theorem choose_eq_none {need : ℕ} : ∀ {tiers : List Tier}, choose need P tiers = none → ∀ r ∈ P,
    r.tier ∉ tiers
  | [], _, _, _ => List.not_mem_nil
  | tier :: tiers, h, r, hr => by
    rw [choose] at h
    split at h
    · cases h
    · split at h
      · cases h
      · rename_i hl
        rw [least?_eq_none, List.filter_eq_nil_iff] at hl
        have hrest := choose_eq_none h r hr
        have hne : r.tier ≠ tier := by simpa using hl r hr
        simp [hne, hrest]

/-- The coins of the collector are coins of the pool, after those it had. -/
def TakenFrom (P : List Row) (c c' : UtxoCollector) : Prop :=
  ∃ vs, c'.allocatedUTXOs = c.allocatedUTXOs ++ vs ∧ ∀ v ∈ vs, ∃ r ∈ P, r.toUtxo = v

/-- A walk that fails for want of coins has taken every coin of its tiers. -/
theorem naive_exhausts : ∀ {m : ℕ} {P : List Row} {c : UtxoCollector} {f : Failure}, P.length < m →
    (P.map (·.outpoint)).Nodup → Collected fees args c → naive args m P c = .error f →
      f.1 = .notEnoughFunds →
    Collected fees args f.2 ∧ f.2.isFunded = .ok false ∧ TakenFrom P c f.2 ∧
      ∀ r ∈ P, r.tier ∈ args.tiers → r.toUtxo ∈ f.2.allocatedUTXOs
  | 0, _, _, _, hm, _, _, _, _ => absurd hm (Nat.not_lt_zero _)
  | m + 1, P, c, f, hm, hP, hc, h, hwant => by
    obtain ⟨-, harith⟩ | ⟨rfl, hf, need, hch⟩ | ⟨r, hr, c1, ha, h⟩ := naive_eq_error h
    · rw [hwant] at harith
      rcases harith with harith | harith <;> cases harith
    · refine ⟨hc, hf, ⟨[], (List.append_nil _).symm, fun _ h => absurd h List.not_mem_nil⟩,
        fun x hx ht => ?_⟩
      exact absurd ht (choose_eq_none hch x hx)
    · obtain ⟨hc1, halloc⟩ := hc.allocate ha
      have hlt := length_without_lt hr
      obtain ⟨hf2, hun, ⟨vs, hvs, hfrom⟩, hall⟩ :=
        naive_exhausts (by omega) (nodup_without hP) hc1 h hwant
      have hsplit : f.2.allocatedUTXOs = c.allocatedUTXOs ++ (r.toUtxo :: vs) := by
        rw [hvs, halloc, List.append_assoc]
        rfl
      refine ⟨hf2, hun, ⟨r.toUtxo :: vs, hsplit, fun v hv => ?_⟩, fun x hx ht => ?_⟩
      · rcases List.mem_cons.mp hv with rfl | hv
        · exact ⟨r, hr, rfl⟩
        · obtain ⟨r', hr', rfl⟩ := hfrom v hv
          exact ⟨r', (List.mem_filter.mp hr').1, rfl⟩
      · by_cases hop : x.outpoint = r.outpoint
        · rw [List.inj_on_of_nodup_map hP hx hr hop, hsplit]
          simp
        · exact hall x (List.mem_filter.mpr ⟨hx, by simpa using hop⟩) ht

theorem run_claimExact {sc : Scope} {R : Token} {denomination count : ℕ} {us : List Utxo}
    {s' : Inventory} (h : s.claimExact (clock t) sc R denomination count = (.ok us, s')) :
    (Funder.claimExact sc R denomination count).run.run (exact clock)
    (s, t) = (.ok us, (s', t + 1)) := by
  refine run_liftStore (q := .claimExact sc R denomination count) (f := liftStore)
      (a := .ok us) ?_ rfl
  change tick (s.claimExact (clock t) sc R denomination count) t = _
  rw [h]
  rfl

variable (clock) in
theorem run_claimExactTiers (hv : args.validate = none) :
    ∀ (tiers : List Tier) (n : ℕ) (s : Inventory) (t : ℕ)
    (ops : List Outpoint), Holding args P ops s →
    ∃ us s' t', (claimExactTiers args tiers n).run.run (exact clock) (s, t) = (.ok us, (s', t')) ∧
      Holding args P (ops ++ us.map (·.outpoint)) s' ∧ ∀ u ∈ us, ∃ r ∈ P, r.toUtxo = u.loose
  | [], _, s, t, ops, h => ⟨[], s, t, rfl, by simpa using h, fun _ h => absurd h List.not_mem_nil⟩
  | tier :: tiers, n, s, t, ops, h => by
    obtain ⟨hvc, hR⟩ := validateClaim_scope hv tier
    rw [claimExactTiers]
    by_cases hn : n = 0
    · rw [if_pos hn]
      exact ⟨[], s, t, rfl, by simpa using h, fun _ h => absurd h List.not_mem_nil⟩
    rw [if_neg hn]
    obtain ⟨rs, hrs, hclaim⟩ := claimExact_eq (s := s) (clock t) hvc args.denomination n
    have hhold := h.reserve hR hrs (clock t)
    have hops : (rs.map (reserved (clock t) args.reservation)).map (·.outpoint)
        = rs.map (·.outpoint) := by
      rw [List.map_map]
      rfl
    obtain ⟨us, s', t', hrun, hhold', hfrom⟩ := run_claimExactTiers hv tiers
      (n - (rs.map (reserved (clock t) args.reservation)).length) _ (t + 1) _ hhold
    refine ⟨rs.map (reserved (clock t) args.reservation) ++ us, s', t', ?_, ?_, ?_⟩
    · rw [Prog.run_except_bind, run_claimExact hclaim]
      simp only
      rw [Prog.run_except_bind, hrun]
      rfl
    · rw [List.map_append, hops, ← List.append_assoc]
      exact hhold'
    · intro u hu
      rcases List.mem_append.mp hu with hu | hu
      · obtain ⟨r, hr, rfl⟩ := List.mem_map.mp hu
        refine ⟨r.loose, ?_, rfl⟩
        have hin : r.loose ∈ coins args s := by
          unfold coins
          rw [pool_eq]
          exact List.mem_map_of_mem (Table.mem_select.mpr ⟨hrs.mem r hr, hrs.free r hr⟩)
        rw [h.coins] at hin
        exact (List.mem_filter.mp hin).1
      · exact hfrom u hu

theorem run_liftCollector_bind {α β σ : Type} {h : (c : StoreCall) → σ → c.Answer × σ}
    (x : Except FundErr α)
    (f : α → FundM β) (st : σ) : (liftCollector x >>= f).run.run h st = match x with
      | .ok a => (f a).run.run h st
      | .error e => (.error e, st) := by
  cases x <;> rfl

/-- The error is not one that a pass reports for want of coins, nor one that is tried again. -/
def Fatal (e : FundErr) : Prop := e ≠ .notEnoughFunds ∧ e.isContention = false

theorem fatal_of_arith {α : Type} {x : Except FundErr α} {e : FundErr} (hx : Arith x)
    (h : x = .error e) : Fatal e := by
  rcases hx e h with rfl | rfl
  · exact ⟨by decide, rfl⟩
  · exact ⟨by decide, rfl⟩

variable (clock) in
/-- The fast path takes free coins out of the pool, or fails for good. -/
theorem run_claimExactFastPath (hv : args.validate = none) (hc : Collected fees args c)
    (s : Inventory) (t : ℕ) :
    (∃ e st, (claimExactFastPath fees args c).run.run (exact clock) (s, t) = (.error e, st)
      ∧ Fatal e) ∨
      ∃ c' s' t' taken, (claimExactFastPath fees args c).run.run (exact clock)
        (s, t) = (.ok c', (s', t')) ∧
        Collected fees args c' ∧ c'.allocatedUTXOs = c.allocatedUTXOs ++ taken ∧
        coins args s' = without (taken.map (·.outpoint)) (coins args s) ∧ ∀ u ∈ taken,
          ∃ r ∈ coins args s, r.toUtxo = u.loose := by
  have hstay : coins args s = without (([] : List Utxo).map (·.outpoint)) (coins args s) := by
    simp [without]
  unfold claimExactFastPath
  simp only
  by_cases hden : args.denomination ≤ fees fuelInputSizeBytes
  · rw [if_pos hden]
    exact Or.inl ⟨_, _, rfl, by decide, rfl⟩
  rw [if_neg hden, run_liftCollector_bind]
  cases hbase : calculateFee fees args.currentTxSize with
  | error e => exact Or.inl ⟨e, _, rfl, fatal_of_arith (arith_satoshiFrom _) hbase⟩
  | ok base =>
    simp only
    rw [run_liftCollector_bind]
    cases hneed : satoshiAdd args.targetSat base with
    | error e => exact Or.inl ⟨e, _, rfl, fatal_of_arith (arith_satoshiAdd _ _) hneed⟩
    | ok need =>
      simp only
      by_cases hle : need ≤ 0
      · rw [if_pos hle]
        exact Or.inr ⟨c, s, t, [], rfl, hc, (List.append_nil _).symm, hstay, fun _ h =>
            absurd h List.not_mem_nil⟩
      rw [if_neg hle, Prog.run_except_bind]
      obtain ⟨us, s1, t1, hrun, hhold, hfrom⟩ :=
        run_claimExactTiers clock hv args.tiers _ s t [] (holding_nil args s)
      rw [hrun]
      simp only
      rw [run_liftCollector_bind]
      cases hcons : consumeExact us c with
      | error e => exact Or.inl ⟨e, _, rfl, fatal_of_arith (arith_consumeExact us c) hcons⟩
      | ok p =>
        rcases p with ⟨rest, c'⟩
        obtain ⟨hc', taken, rfl, halloc⟩ := consumeExact_eq_ok hc hcons
        have hR := reservation_ne_empty hv
        rw [List.nil_append, List.map_append] at hhold
        obtain ⟨s', t', hrel, hcoins⟩ := run_releaseOutpoints clock args s1 t1 hR rest
        refine Or.inr ⟨c', s', t', taken, ?_, hc', halloc, hcoins.trans (hhold.release hR),
          fun u hu => hfrom u (List.mem_append_left _ hu)⟩
        simp only
        rw [Prog.run_except_bind, hrel]
        rfl

theorem arith_newFor (fees : FeeCalc) (args : FundArgs) : Arith (newFor fees args) :=
  arith_bind (arith_increaseSize _ _) fun _ _ => arith_calculateChangeOutputs _

/-- Every coin of the pool's tiers is with a collector that is not funded and has coins of the pool
only. -/
def Exhausted (fees : FeeCalc) (args : FundArgs) (P : List Row) : Prop :=
  ∃ us c, collect fees args us = .ok c ∧ c.isFunded = .ok false
      ∧ (∀ u ∈ us, ∃ r ∈ P, r.toUtxo = u) ∧
    ∀ r ∈ P, r.tier ∈ args.tiers → r.toUtxo ∈ us

variable (clock) in
/-- How the tiered selection fails, from a collector that has taken coins of the pool already. -/
theorem run_tieredClaim_error (hv : args.validate = none) {rounds : ℕ} {taken : List Utxo}
    {e : FundErr}
    (hc : Collected fees args c) (hcoins : coins args s = without (taken.map (·.outpoint)) P)
    (hP : (P.map (·.outpoint)).Nodup) (halloc : c.allocatedUTXOs = taken)
    (hfrom : ∀ u ∈ taken, ∃ r ∈ P, r.toUtxo = u.loose) (hrounds : (coins args s).length < rounds)
    (h : ((tieredClaim rounds args c).run.run (exact clock) (s, t)).1 = .error e) :
    Settled e ∧ (e = .notEnoughFunds → Exhausted fees args P) := by
  have hwalk := looseOutcome_walk clock hv (k := 16) (by omega) rounds ((coins args s).length + 1)
      s t c hrounds
    (Nat.lt_succ_self _)
  rw [run_tieredClaim, erases_walk args rounds c] at h
  rcases hw : ((walk 16 args rounds c).run.run (exact clock) (s, t)).1 with f | c2
  · rw [hw] at h hwalk
    cases h
    refine ⟨settled_naive (f := (f.1, f.2.loose)) (Nat.lt_succ_self _) hwalk.symm, fun hwant => ?_⟩
    obtain ⟨hf2, hun, ⟨vs, hvs, hpool⟩, hall⟩ :=
      naive_exhausts (f := (f.1, f.2.loose)) (Nat.lt_succ_self _)
      (nodup_coins args s) hc.loose hwalk.symm hwant
    have hsplit : f.2.loose.allocatedUTXOs = taken.map Utxo.loose ++ vs := by
      rw [← halloc]
      exact hvs
    refine ⟨f.2.loose.allocatedUTXOs, f.2.loose, hf2, hun, fun u hu => ?_, fun r hr ht => ?_⟩
    · rw [hsplit] at hu
      rcases List.mem_append.mp hu with hu | hu
      · obtain ⟨v, hv, rfl⟩ := List.mem_map.mp hu
        exact hfrom v hv
      · obtain ⟨r, hr, rfl⟩ := hpool u hu
        rw [hcoins] at hr
        exact ⟨r, (List.mem_filter.mp hr).1, rfl⟩
    · by_cases hop : r.outpoint ∈ taken.map (·.outpoint)
      · obtain ⟨u, hu, hout⟩ := List.mem_map.mp hop
        obtain ⟨r', hr', hloose⟩ := hfrom u hu
        have hsame : r'.outpoint = r.outpoint := by
          rw [hloose]
          exact hout
        rw [hsplit, ← List.inj_on_of_nodup_map hP hr' hr hsame, hloose]
        exact List.mem_append_left _ (List.mem_map_of_mem hu)
      · have hin : r ∈ coins args s := by
          rw [hcoins]
          exact List.mem_filter.mpr ⟨hr, by simpa using hop⟩
        exact hall r hin ht
  · rw [hw] at h hwalk
    have hf : c2.loose.isFunded = .ok true := naive_funded (maxChange_pos hv) hc.loose hwalk.symm
    have harith := c2.arith_result hf e h
    exact ⟨Or.inr harith, fun hwant => by rcases harith with rfl | rfl <;> cases hwant⟩

variable (clock) in
/-- A pass that fails is not tried again, and it fails for want of coins only when it has taken them
all. -/
theorem run_fundOnce_error (hv : args.validate = none) {rounds : ℕ} {e : FundErr}
    (hrounds : (coins args s).length < rounds)
    (h : ((fundOnce fees rounds args).run.run (exact clock) (s, t)).1 = .error e) :
    e.isContention = false ∧ (e = .notEnoughFunds → Exhausted fees args (coins args s)) := by
  have hstay : coins args s = without (([] : List Utxo).map (·.outpoint)) (coins args s) := by
    simp [without]
  unfold fundOnce at h
  rw [run_liftCollector_bind] at h
  cases hc : newFor fees args with
  | error e' =>
    have hstart := hc
    unfold newFor at hstart
    rw [hstart] at h
    cases h
    have hfatal := fatal_of_arith (arith_newFor fees args) hc
    exact ⟨hfatal.2, fun hwant => absurd hwant hfatal.1⟩
  | ok c =>
    have hstart := hc
    unfold newFor at hstart
    rw [hstart] at h
    simp only at h
    have hcol := (collected_newFor hc).1
    have halloc : c.allocatedUTXOs = [] := (tally_collect (collect_nil.trans hc)).allocated
    by_cases hden : args.denomination > 0
    · rw [if_pos hden, Prog.run_except_bind] at h
      rcases run_claimExactFastPath clock hv hcol s t with ⟨e', st, hrun, hfatal⟩ | ⟨c', s', t',
          taken, hrun, hc', htaken, hcoins, hfrom⟩
      · rw [hrun] at h
        cases h
        exact ⟨hfatal.2, fun hwant => absurd hwant hfatal.1⟩
      · rw [hrun] at h
        simp only at h
        rw [halloc, List.nil_append] at htaken
        rw [run_liftCollector_bind] at h
        cases hf : c'.isFunded with
        | error e' =>
          rw [hf] at h
          cases h
          have hfatal := fatal_of_arith c'.arith_isFunded hf
          exact ⟨hfatal.2, fun hwant => absurd hwant hfatal.1⟩
        | ok funded =>
          rw [hf] at h
          cases funded with
          | true =>
            have hfatal := fatal_of_arith (c'.arith_result hf) h
            exact ⟨hfatal.2, fun hwant => absurd hwant hfatal.1⟩
          | false =>
            have hfewer : (coins args s').length < rounds := by
              rw [hcoins]
              exact (List.length_filter_le _ _).trans_lt hrounds
            obtain ⟨hsettled, hex⟩ := run_tieredClaim_error clock hv hc' hcoins (nodup_coins args s)
                htaken hfrom hfewer h
            exact ⟨hsettled.not_contention, hex⟩
    · rw [if_neg hden] at h
      obtain ⟨hsettled, hex⟩ := run_tieredClaim_error clock hv hcol hstay
          (nodup_coins args s) halloc
        (fun _ h => absurd h List.not_mem_nil) hrounds h
      exact ⟨hsettled.not_contention, hex⟩

variable (clock s t) in
theorem run_round (hv : args.validate = none) {need : ℤ} (hf : c.isFunded = .ok false)
    (hr : c.remaining = .ok need)
    (hpos : 0 < need) (hcoin : ∃ r ∈ coins args s, r.tier ∈ args.tiers) :
    (∃ c' taken, taken ≠ [] ∧ c'.allocatedUTXOs = c.allocatedUTXOs ++ taken ∧
        ((round args need.toNat args.tiers c).run.run (exact clock) (s, t)).1 = .ok (true, c')) ∨
      ((round args need.toNat args.tiers c).run.run (exact clock) (s, t)).1 = .error .panic ∨
      ((round args need.toNat args.tiers c).run.run (exact clock) (s, t)).1
        = .error .satoshiRange := by
  have hadv := advances_roundWalk clock (k := 16) hv (by omega) hf hr (by omega)
      args.tiers [] s t rfl
    fun _ h => absurd h List.not_mem_nil
  rw [erases_roundWalk args need.toNat args.tiers c]
  rcases hrun : (roundWalk 16 args need.toNat args.tiers c).run.run (exact clock) (s, t)
    with ⟨⟨e, c1⟩ | ⟨allocated, c'⟩, s', t'⟩ <;> rw [hrun] at hadv
  · obtain ⟨harith, -⟩ := hadv
    have harith : e = .panic ∨ e = .satoshiRange := harith
    rcases harith with rfl | rfl
    · exact Or.inr (Or.inl rfl)
    · exact Or.inr (Or.inr rfl)
  · cases allocated with
    | true =>
      obtain ⟨taken, hne, htaken, -⟩ := hadv
      exact Or.inl ⟨c', taken, hne, htaken, rfl⟩
    | false =>
      obtain ⟨-, -, hempty⟩ := hadv
      obtain ⟨r, hr', ht⟩ := hcoin
      exact absurd (decide_eq_true rfl) (List.filter_eq_nil_iff.mp (hempty r.tier ht) r hr')

variable (clock s t c) in
theorem run_boundedTieredClaim (hv : args.validate = none) {rounds : ℕ}
    (hrounds : (coins args s).length < rounds) :
    ((boundedTieredClaim args rounds c).run.run (exact clock) (s, t)).1 ≠ .error .outOfRounds := by
  intro h
  have hwalk := looseOutcome_walk clock hv (k := 16) (by omega) rounds ((coins args s).length + 1)
      s t c hrounds
    (Nat.lt_succ_self _)
  rw [erases_walk args rounds c] at h
  rcases hw : ((walk 16 args rounds c).run.run (exact clock) (s, t)).1 with ⟨e, c1⟩ | c'
  · rw [hw] at h hwalk
    cases h
    have hsettled : Settled .outOfRounds :=
      settled_naive (f := (.outOfRounds, c1.loose)) (Nat.lt_succ_self _) hwalk.symm
    obtain hno | hno | hno := hsettled <;> cases hno
  · rw [hw] at h
    cases h

variable (clock) in
/-- Rounds that fail are not tried again, and they fail for want of coins only when their tiers have
none. -/
theorem run_boundedTieredClaim_error (hv : args.validate = none) :
    ∀ (n : ℕ) (c : UtxoCollector) (s : Inventory) (t : ℕ)
    {e : FundErr} {st : Inventory × ℕ}, (boundedTieredClaim args n c).run.run (exact clock)
    (s, t) = (.error e, st) →
    e.isContention = false ∧ (e = .notEnoughFunds → ∀ r ∈ coins args st.1, r.tier ∉ args.tiers)
  | 0, _, _, _, _, _, h => by
    cases h
    exact ⟨rfl, fun hwant => by cases hwant⟩
  | n + 1, c, s, t, e, st, h => by
    have hfatal : ∀ {e' : FundErr}, e' = .panic ∨ e' = .satoshiRange → e' = e →
        e.isContention = false
        ∧ (e = .notEnoughFunds → ∀ r ∈ coins args st.1, r.tier ∉ args.tiers) := by
      rintro _ (rfl | rfl) rfl <;> exact ⟨rfl, fun hwant => by cases hwant⟩
    rw [boundedTieredClaim, run_liftCollector_bind] at h
    cases hf : c.isFunded with
    | error e' =>
      rw [hf] at h
      exact hfatal (c.arith_isFunded e' hf) (Except.error.inj (congrArg Prod.fst h))
    | ok funded =>
      rw [hf] at h
      cases funded with
      | true => cases h
      | false =>
        simp only [Bool.false_eq_true, if_false] at h
        rw [run_liftCollector_bind] at h
        cases hr : c.remaining with
        | error e' =>
          rw [hr] at h
          exact hfatal (c.arith_remaining e' hr) (Except.error.inj (congrArg Prod.fst h))
        | ok need =>
          rw [hr] at h
          by_cases hpos : need ≤ 0
          · simp only [if_pos hpos] at h
            cases h
          · have hadv := advances_roundWalk clock (k := 16) hv (by omega) hf hr hpos
              args.tiers [] s t rfl
              fun _ h => absurd h List.not_mem_nil
            simp only [if_neg hpos] at h
            rw [Prog.run_except_bind, erases_roundWalk args need.toNat args.tiers c] at h
            rcases hrun : (roundWalk 16 args need.toNat args.tiers c).run.run (exact clock) (s, t)
              with ⟨f | ⟨allocated, c'⟩, s', t'⟩ <;> rw [hrun] at hadv h
            · exact hfatal hadv.1 (Except.error.inj (congrArg Prod.fst h))
            · cases allocated with
              | true => exact run_boundedTieredClaim_error hv n c' s' t' h
              | false =>
                cases h
                obtain ⟨-, hcoins, hempty⟩ := hadv
                refine ⟨rfl, fun _ r hr ht => ?_⟩
                rw [hcoins] at hr
                exact absurd (decide_eq_true rfl) (List.filter_eq_nil_iff.mp
                    (hempty r.tier ht) r hr)

theorem validate_ne_notEnoughFunds {e : FundErr} (h : args.validate = some e) :
    e ≠ .notEnoughFunds := by
  unfold FundArgs.validate at h
  split_ifs at h <;> cases h <;> decide

variable (clock s t) in
theorem run_fund_error {rounds : ℕ} (hrounds : (coins args s).length < rounds)
    (h : ((fund fees rounds args).run.run (exact clock) (s, t)).1 = .error .notEnoughFunds) :
    Exhausted fees args (coins args s) := by
  unfold fund at h
  cases hv : args.validate with
  | some e =>
    rw [hv] at h
    exact absurd (Except.error.inj h) (validate_ne_notEnoughFunds hv)
  | none =>
    rw [hv] at h
    have hlast : ∀ e, ((fundOnce fees rounds args).run.run (exact clock) (s, t)).1 = .error e →
        e.isContention = false :=
      fun e he => (run_fundOnce_error clock hv hrounds he).1
    have h : ((attempts fees rounds args (2 + 1)).run.run (exact clock) (s, t)).1
        = .error .notEnoughFunds := h
    rw [run_attempts hlast] at h
    exact (run_fundOnce_error clock hv hrounds h).2 rfl

end Funder

end ArcadeToolbox
