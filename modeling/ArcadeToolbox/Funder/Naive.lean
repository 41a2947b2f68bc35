import ArcadeToolbox.Funder.Walk

/-!
# The rounds on the reference store

On the reference store the coins that a round claims are the ones that the naive walk would take
from the pool, so the funder comes to what the naive walk comes to.
-/

namespace ArcadeToolbox

open Txn

namespace Funder

open UtxoCollector Inventory

variable {α : Type}

section Store

variable {clock : ℕ → Time} {args : FundArgs} {s s' : Inventory} {t : ℕ} {c : UtxoCollector} {k : ℕ}

/-- The coins that the arguments' user and basket have for a claim. -/
def coins (args : FundArgs) (s : Inventory) : List Row := pool args.userID args.basket s

theorem nodup_coins (args : FundArgs) (s : Inventory) :
    ((coins args s).map (·.outpoint)).Nodup := by
  unfold coins
  rw [pool_eq, List.map_map]
  exact s.rows.nodup.sublist (List.filter_sublist.map _)

/-- A call whose answer is not an error. -/
theorem run_liftStore {h : (c : StoreCall) → Inventory × ℕ → c.Answer × (Inventory × ℕ)}
    {q : StoreCall} {f : q.Answer → FundM α} {st st' : Inventory × ℕ} {a : q.Answer} {b : α}
    (hcall : h q st = (a, st'))
    (hf : f a = pure b) : ((do f (← ask q)) : FundM α).run.run h st = (.ok b, st') := by
  refine (Prog.run_except_bind _ _ _).trans ?_
  rw [ask, Prog.run_lift, Prog.ask, Prog.run, hcall]
  change (f a).run.run h st' = _
  rw [hf]
  rfl

theorem run_claimSmallestSufficient {sc : Scope} {R : Token} {n : ℕ} {o : Option Utxo}
    (h : s.claimSmallestSufficient (clock t) sc R n = (.ok o, s')) :
    (Funder.claimSmallestSufficient sc R n).run.run (exact clock)
    (s, t) = (.ok o, (s', t + 1)) := by
  refine run_liftStore (q := .claimSmallestSufficient sc R n) (a := .ok o) ?_ rfl
  change tick (s.claimSmallestSufficient (clock t) sc R n) t = _
  rw [h]
  rfl

theorem run_claimBatch {sc : Scope} {R : Token} {n : ℕ} {us : List Utxo}
    (h : s.claimLargestInsufficient (clock t) sc R n k = (.ok us, s')) :
    (claimBatch k sc R n).run.run (exact clock) (s, t) = (.ok us, (s', t + 1)) := by
  refine run_liftStore (q := .claimLargestInsufficient sc R n k) (a := .ok us) ?_ rfl
  change tick (s.claimLargestInsufficient (clock t) sc R n k) t = _
  rw [h]
  rfl

variable (clock args s t) in
theorem run_releaseOutpoints {R : Token} (hR : R ≠ "") (us : List Utxo) :
    ∃ s' t', (Funder.releaseOutpoints R us).run.run (exact clock) (s, t) = (.ok (), (s', t')) ∧
      coins args s' = coins args (s.givenBack R (us.map (·.outpoint))) := by
  unfold Funder.releaseOutpoints
  by_cases hus : us = []
  · refine ⟨s, t, by rw [if_pos hus]; rfl, ?_⟩
    rw [hus]
    exact pool_givenBack_nil.symm
  · refine ⟨s.givenBack R (us.map (·.outpoint)), t + 1, ?_, rfl⟩
    rw [if_neg hus]
    refine run_liftStore (q := .releaseOutpoints R (us.map (·.outpoint))) (f := liftStore)
        (a := .ok ()) ?_ rfl
    change tick (s.releaseOutpoints R (us.map (·.outpoint))) t = _
    rw [releaseOutpoints_eq hR]
    rfl

theorem length_without {P : List Row} {ops : List Outpoint} (hops : ops.Nodup)
    (hsub : ∀ op ∈ ops, op ∈ P.map (·.outpoint)) :
    (without ops P).length + ops.length ≤ P.length := by
  have hle : ops.length ≤ (P.filter fun r => !decide (r.outpoint ∉ ops)).length := by
    have hsubset : ops ⊆ (P.filter fun r => !decide (r.outpoint ∉ ops)).map (·.outpoint) := by
      intro op hop
      obtain ⟨r, hr, rfl⟩ := List.mem_map.mp (hsub op hop)
      exact List.mem_map_of_mem (List.mem_filter.mpr ⟨hr, by simpa using hop⟩)
    simpa using (List.subperm_of_subset hops hsubset).length_le
  have hsplit := List.length_eq_length_filter_add (l := P) fun r => decide (r.outpoint ∉ ops)
  unfold without
  omega

/-- How a part of a round goes on from a pool: it fails as the naive walk does, it takes coins that
the naive walk takes too, or its tiers have no coin. -/
def Advances (args : FundArgs) (tiers : List Tier) (P : List Row) (c : UtxoCollector) :
    Except Failure (Bool × UtxoCollector) → List Row → Prop
  | .error f, _ => (f.1 = .panic ∨ f.1 = .satoshiRange) ∧
      ∀ m, P.length < m → naive args m P c.loose = .error (f.1, f.2.loose)
  | .ok (true, c'), P' =>
    ∃ taken : List Utxo, taken ≠ [] ∧ c'.allocatedUTXOs = c.allocatedUTXOs ++ taken ∧
      P' = without (taken.map (·.outpoint)) P ∧ P'.length + taken.length ≤ P.length ∧
      ∀ m, naive args (m + taken.length) P c.loose = naive args m P' c'.loose
  | .ok (false, c'), P' =>
    c' = c ∧ P' = P ∧ ∀ t ∈ tiers, P.filter (fun r => decide (r.tier = t)) = []

theorem Advances.cons {tier : Tier} {tiers : List Tier} {P P' : List Row}
    {res : Except Failure (Bool × UtxoCollector)} (h : Advances args tiers P c res P')
    (hempty : P.filter (fun r => decide (r.tier = tier)) = []) :
    Advances args (tier :: tiers) P c res P' := by
  rcases res with f | ⟨allocated, c'⟩
  · exact h
  · cases allocated with
    | true => exact h
    | false =>
      obtain ⟨hc, hP, hrest⟩ := h
      refine ⟨hc, hP, fun t ht => ?_⟩
      rcases List.mem_cons.mp ht with rfl | ht
      · exact hempty
      · exact hrest t ht

theorem reservation_ne_empty (hv : args.validate = none) : args.reservation ≠ "" := by
  unfold FundArgs.validate at hv
  split_ifs at hv with h
  exact h

theorem validateClaim_scope (hv : args.validate = none) (tier : Tier) :
    validateClaim (scope args tier) args.reservation = none ∧ args.reservation ≠ "" := by
  unfold FundArgs.validate at hv
  split_ifs at hv with h1 h2 h3 h4 h5
  exact ⟨by simp [validateClaim, validateReservation, validateScope, scope, h1, h2, h3], h1⟩

variable {need : ℤ} {pre post : List Tier} {tier : Tier}

variable (tier) in
/-- A coin that suffices. -/
theorem advances_sufficient {r : Row} {u : Utxo} (hf : c.isFunded = .ok false)
    (hr : c.remaining = .ok need)
    (hpos : ¬ need ≤ 0) (hch : choose need.toNat (coins args s) args.tiers = some r)
    (hmem : r ∈ coins args s) (hu : u.loose = r.toUtxo) :
    Advances args [tier] (coins args s) c ((tagged c (c.allocateUTXO u)).map fun c' => (true, c'))
      (without [r.outpoint] (coins args s)) := by
  have hstep : ∀ m, naive args (m + 1) (coins args s) c.loose
      = tagged c.loose (c.loose.allocateUTXO u.loose) >>= naive args m
          (without [r.outpoint] (coins args s)) := by
    rw [hu]
    exact naive_step hf hr hpos hch
  rw [allocateUTXO_loose] at hstep
  cases ha : c.allocateUTXO u with
  | error e =>
    rw [ha] at hstep
    refine ⟨c.arith_allocateUTXO u e ha, fun m hm => ?_⟩
    obtain ⟨m, rfl⟩ : ∃ m', m = m' + 1 := ⟨m - 1, by omega⟩
    exact hstep m
  | ok c' =>
    rw [ha] at hstep
    have hlen := length_without (P := coins args s) (List.nodup_singleton r.outpoint) (by
      intro op hop
      rw [List.mem_singleton.mp hop]
      exact List.mem_map_of_mem hmem)
    have hout : u.outpoint = r.outpoint := by rw [← hu]; rfl
    exact ⟨[u], List.cons_ne_nil _ _, allocated_allocateUTXO ha, by rw [← hout]; rfl, hlen, hstep⟩

theorem coins_reserve (hR : args.reservation ≠ "") (now : Time) (ops : List Outpoint) :
    coins args (s.reserve now args.reservation ops) = without ops (coins args s) := pool_reserve hR

theorem mem_coins_of_allFree {rs : List Row} (h : AllFree args.userID args.basket s rs)
    {op : Outpoint}
    (hop : op ∈ rs.map (·.outpoint)) : op ∈ (coins args s).map (·.outpoint) := by
  obtain ⟨r, hr, rfl⟩ := List.mem_map.mp hop
  unfold coins
  rw [pool_eq, List.map_map]
  exact List.mem_map_of_mem (f := fun r : Row => r.loose.outpoint)
      (Table.mem_select.mpr ⟨h.mem r hr, h.free r hr⟩)

/-- The coins that were claimed out of a pool and are still held. -/
structure Holding (args : FundArgs) (P : List Row) (ops : List Outpoint)
    (s : Inventory) : Prop where
  nodup : ops.Nodup
  sub : ∀ op ∈ ops, op ∈ P.map (·.outpoint)
  held : ∀ r ∈ s.rows, r.outpoint ∈ ops → r.reservedBy = args.reservation
  coins : coins args s = without ops P
  back : Funder.coins args (s.givenBack args.reservation ops) = P

variable (args s) in
theorem holding_nil : Holding args (coins args s) [] s where
  nodup := List.nodup_nil
  sub := fun _ h => absurd h List.not_mem_nil
  held := fun _ _ h => absurd h List.not_mem_nil
  coins := by simp [without]
  back := pool_givenBack_nil

theorem Holding.reserve {P : List Row} {ops : List Outpoint} (hR : args.reservation ≠ "")
    (h : Holding args P ops s)
    {rs : List Row} (hrs : AllFree args.userID args.basket s rs) (now : Time) :
    Holding args P (ops ++ rs.map (·.outpoint))
      (s.reserve now args.reservation (rs.map (·.outpoint))) := by
  have hfree : ∀ r ∈ s.rows, r.outpoint ∈ rs.map (·.outpoint) → r.reservedBy = ""
      ∧ r.spentBy = none := by
    intro r hr hop
    obtain ⟨r', hr', hk⟩ := List.mem_map.mp hop
    have heq : r' = r := Table.eq_of_key (hrs.mem r' hr') hr hk
    have hfr := hrs.free r' hr'
    rw [heq] at hfr
    simp only [Inventory.free, Bool.and_eq_true, decide_eq_true_iff] at hfr
    exact ⟨hfr.1.1.2, hfr.1.2⟩
  have hdisj : ops.Disjoint (rs.map (·.outpoint)) := by
    intro op hop hop'
    obtain ⟨r, hr, rfl⟩ := List.mem_map.mp hop'
    exact hR ((h.held r (hrs.mem r hr) hop).symm.trans (hfree r (hrs.mem r hr) hop').1)
  refine ⟨List.nodup_append'.mpr ⟨h.nodup, hrs.nodup, hdisj⟩, ?_, ?_, ?_, ?_⟩
  · intro op hop
    rcases List.mem_append.mp hop with hop | hop
    · exact h.sub op hop
    · have hin := mem_coins_of_allFree hrs hop
      rw [h.coins] at hin
      exact (List.filter_sublist.map _).subset hin
  · intro r hr hop
    obtain ⟨r', hr', rfl⟩ := mem_modify.mp hr
    by_cases hmem : r'.outpoint ∈ rs.map (·.outpoint)
    · simp [hmem]
    · simp only [hmem, decide_false, Bool.false_eq_true, if_false, List.mem_append,
        or_false] at hop ⊢
      exact h.held r' hr' hop
  · rw [coins_reserve hR, h.coins, without_without]
  · exact (pool_givenBack_reserve now ops hR hfree).trans h.back

/-- What is not given back is missing from the pool. -/
theorem Holding.release {P : List Row} {taken rest : List Outpoint} (hR : args.reservation ≠ "")
    (h : Holding args P (taken ++ rest) s) :
    Funder.coins args (s.givenBack args.reservation rest) = without taken P := by
  have hheld : ∀ r ∈ s.rows, r.outpoint ∈ taken → r.reservedBy = args.reservation :=
    fun r hr hop => h.held r hr (List.mem_append_left _ hop)
  have hdisj := (List.nodup_append'.mp h.nodup).2.2
  have hback := h.back
  unfold Funder.coins without at *
  rw [pool_givenBack hR hheld fun op hop => hdisj hop, hback]

theorem filter_insufficient {P : List Row} {n : ℕ}
    (h : least? Cheaper (P.filter fun r => decide (r.tier = tier) && !decide (r.satoshis < n))
      = none) :
    (P.filter fun r => decide (r.tier = tier) && decide (r.satoshis < n)) = P.filter fun r => decide
    (r.tier = tier) := by
  rw [least?_eq_none, List.filter_eq_nil_iff] at h
  refine List.filter_congr fun r hr => ?_
  have hno := h r hr
  cases ht : decide (r.tier = tier)
  · rfl
  · simpa [ht] using hno

theorem run_drainWalk_error {batch : List Utxo} {f : Failure} (h : consume batch c = .error f) :
    (drainWalk args batch c).run.run (exact clock) (s, t) = (.error f, (s, t)) := by
  unfold drainWalk
  rw [run_pureWalk_bind, h]

variable (clock s t) in
theorem run_drainWalk (hR : args.reservation ≠ "") {batch rest : List Utxo} {c' : UtxoCollector}
    (h : consume batch c = .ok (rest, c')) :
    ∃ s' t', (drainWalk args batch c).run.run (exact clock)
      (s, t) = (.ok (decide (rest.length < batch.length), c'), (s', t')) ∧
      coins args s' = coins args (s.givenBack args.reservation (rest.map (·.outpoint))) := by
  obtain ⟨s', t', hrel, hcoins⟩ := run_releaseOutpoints clock args s t hR rest
  refine ⟨s', t', ?_, hcoins⟩
  unfold drainWalk
  rw [run_pureWalk_bind, h]
  simp only
  rw [Prog.run_except_bind, run_storeWalk, hrel]
  rfl

variable (clock t) in
theorem advances_batch (now : Time) (hR : args.reservation ≠ "") (hk : 1 ≤ k)
    (htiers : args.tiers = pre ++ tier :: post)
    (hpre : ∀ t ∈ pre, (coins args s).filter (fun r => decide (r.tier = t)) = [])
    (hf : c.isFunded = .ok false) (hr : c.remaining = .ok need) (hpos : ¬ need ≤ 0) {rs : List Row}
    (hloose : AllFree args.userID args.basket s rs)
    (hrs : rs.map Row.loose = (((coins args s).filter fun r => decide (r.tier = tier)).insertionSort
      Dearer).take k)
    (hlt : ∀ r ∈ rs, r.satoshis < need.toNat) :
    let out := (drainWalk args (rs.map (reserved now args.reservation)) c).run.run (exact clock)
      (s.reserve now args.reservation (rs.map (·.outpoint)), t)
    Advances args [tier] (coins args s) c out.1 (coins args out.2.1) := by
  intro out
  have hus : (rs.map (reserved now args.reservation)).map Utxo.loose = (rs.map Row.loose).map
      (·.toUtxo) := by
    rw [List.map_map, List.map_map]
    rfl
  have hpref : rs.map Row.loose <+: ((coins args s).filter fun r =>
      decide (r.tier = tier)).insertionSort Dearer := by
    rw [hrs]
    exact List.take_prefix k _
  have hlen : rs.length ≤ (coins args s).length := by
    have hle := hpref.length_le
    rw [List.length_map, List.length_insertionSort] at hle
    exact hle.trans (List.length_filter_le _ _)
  have hdrain := drains_consume (c := c) htiers (nodup_coins args s) hpre hus hpref
  cases hcons : consume (rs.map (reserved now args.reservation)) c with
  | error f =>
    rw [hcons] at hdrain
    obtain ⟨harith, j, hj, hrun⟩ := hdrain
    rw [List.length_map] at hj
    have hout : out = _ := run_drainWalk_error hcons
    rw [hout]
    refine ⟨harith, fun m hm => ?_⟩
    obtain ⟨m', rfl⟩ : ∃ m', m = m' + j + 1 := ⟨m - j - 1, by omega⟩
    exact hrun m'
  | ok p =>
    rcases p with ⟨rest, c'⟩
    rw [hcons] at hdrain
    obtain ⟨taken, hsplit, htaken, hrun⟩ := hdrain
    obtain ⟨s', t', hout, hcoins⟩ := run_drainWalk clock
      (s.reserve now args.reservation (rs.map (·.outpoint))) t hR hcons
    have hops : rs.map (·.outpoint) = taken.map (·.outpoint) ++ rest.map (·.outpoint) := by
      rw [← List.map_append, ← hsplit, List.map_map]
      rfl
    have hhold := (holding_nil args s).reserve hR hloose now
    rw [List.nil_append, hops] at hhold
    have hback := hhold.release hR
    rw [← hops] at hback
    have hcoins := hcoins.trans hback
    have hout : out = _ := hout
    rw [hout, hcoins]
    cases rs with
    | nil =>
      -- the tier has no coin
      cases hcons
      obtain rfl : taken = [] := by simpa using hsplit.symm
      refine ⟨rfl, by simp [without], fun t' ht' => ?_⟩
      rw [List.mem_singleton.mp ht']
      have hnil := hrs.symm
      rw [List.map_nil, List.take_eq_nil_iff] at hnil
      rcases hnil with hzero | hnil
      · omega
      · exact List.length_eq_zero_iff.mp (by rw [← List.length_insertionSort Dearer, hnil]; rfl)
    | cons r rs =>
      have hless := length_consume_lt (u := reserved now args.reservation r) hf hr hpos
          (hlt r List.mem_cons_self) hcons
      have hsum := congrArg List.length hsplit
      have htrue : decide (rest.length < ((r :: rs).map (reserved now args.reservation)).length)
          = true := by
        simpa using hless
      have hne : taken ≠ [] := by
        rintro rfl
        rw [List.nil_append] at hsum
        simp only [List.map_cons, List.length_cons] at hsum hless
        omega
      have hshort := length_without (List.nodup_append'.mp hhold.nodup).1 fun op hop =>
        hhold.sub op (List.mem_append_left _ hop)
      rw [List.length_map] at hshort
      rw [htrue]
      exact ⟨taken, hne, htaken, rfl, hshort, hrun⟩

variable (clock) in
theorem advances_tierWalk (hv : args.validate = none) (hk : 1 ≤ k)
    (htiers : args.tiers = pre ++ tier :: post)
    (hpre : ∀ t ∈ pre, (coins args s).filter (fun r => decide (r.tier = t)) = [])
    (hf : c.isFunded = .ok false) (hr : c.remaining = .ok need) (hpos : ¬ need ≤ 0) :
    Advances args [tier] (coins args s) c
      ((tierWalk k args need.toNat tier c).run.run (exact clock) (s, t)).1
      (coins args ((tierWalk k args need.toNat tier c).run.run (exact clock) (s, t)).2.1) := by
  obtain ⟨hvc, hR⟩ := validateClaim_scope hv tier
  obtain ⟨o, hloose, ho, hclaim⟩ := claimSmallestSufficient_eq (s := s) (clock t) hvc need.toNat
  have ho : least? Cheaper ((coins args s).filter fun r =>
      decide (r.tier = tier) && !decide (r.satoshis < need.toNat)) = o.map Row.loose := ho.symm
  unfold tierWalk
  rw [Prog.run_except_bind, run_storeWalk, run_claimSmallestSufficient hclaim]
  cases o with
  | some best =>
    have hch : choose need.toNat (coins args s) args.tiers = some best.loose := by
      rw [htiers, choose_skip hpre, choose, ho]
      rfl
    have hmem : best.loose ∈ coins args s := (List.mem_filter.mp (least?_mem Cheaper ho)).1
    have hadv := advances_sufficient tier (u := reserved (clock t) args.reservation best) hf hr hpos
      hch hmem rfl
    have hrun := run_pureWalk_map (h := exact clock)
      (tagged c (c.allocateUTXO (reserved (clock t) args.reservation best)))
      (fun c' => (true, c')) (s.reserve (clock t) args.reservation [best.outpoint], t + 1)
    rw [← coins_reserve hR (clock t)] at hadv
    refine Eq.mpr (congrArg₂ (Advances args [tier] (coins args s) c) ?_ ?_) hadv
    · exact congrArg Prod.fst hrun
    · exact congrArg (fun x => coins args x.2.1) hrun
  | none =>
    obtain ⟨rs, hrsloose, hrs, hbatch⟩ :=
      claimLargestInsufficient_eq (s := s) (clock (t + 1)) hvc need.toNat hk
    have hrs : rs.map Row.loose = (((coins args s).filter fun r => decide (r.tier = tier)
      && decide (r.satoshis < need.toNat)).insertionSort Dearer).take k := hrs
    have hlt : ∀ r ∈ rs, r.satoshis < need.toNat := by
      intro r hr
      have hmem : r.loose ∈ rs.map Row.loose := List.mem_map_of_mem hr
      rw [hrs] at hmem
      have hsort := (List.mem_insertionSort Dearer).mp (List.mem_of_mem_take hmem)
      have hsel := (List.mem_filter.mp hsort).2
      rw [Bool.and_eq_true, decide_eq_true_iff, decide_eq_true_iff] at hsel
      exact hsel.2
    rw [filter_insufficient ho] at hrs
    have hadv := advances_batch clock (t + 1 + 1) (clock (t + 1)) hR hk htiers hpre hf hr hpos
      hrsloose hrs hlt
    have hrun : ((do
          drainWalk args (← storeWalk c
            (claimBatch k (scope args tier) args.reservation need.toNat)) c) :
        WalkM _).run.run (exact clock) (s, t + 1)
        = (drainWalk args (rs.map (reserved (clock (t + 1)) args.reservation)) c).run.run
          (exact clock)
          (s.reserve (clock (t + 1)) args.reservation (rs.map (·.outpoint)), t + 1 + 1) := by
      rw [Prog.run_except_bind, run_storeWalk, run_claimBatch hbatch]
      rfl
    rw [Option.toList_none, List.map_nil, reserve_nil]
    refine Eq.mpr (congrArg₂ (Advances args [tier] (coins args s) c) ?_ ?_) hadv
    · exact congrArg Prod.fst hrun
    · exact congrArg (fun x => coins args x.2.1) hrun

variable (clock) in
theorem advances_roundWalk (hv : args.validate = none) (hk : 1 ≤ k) (hf : c.isFunded = .ok false)
    (hr : c.remaining = .ok need) (hpos : ¬ need ≤ 0) :
    ∀ (tiers pre : List Tier) (s : Inventory) (t : ℕ),
    args.tiers = pre ++ tiers → (∀ t ∈ pre,
      (coins args s).filter (fun r => decide (r.tier = t)) = []) →
    Advances args tiers (coins args s) c
      ((roundWalk k args need.toNat tiers c).run.run (exact clock) (s, t)).1
      (coins args ((roundWalk k args need.toNat tiers c).run.run (exact clock) (s, t)).2.1)
  | [], _, s, _, _, _ => ⟨rfl, rfl, fun _ h => absurd h List.not_mem_nil⟩
  | tier :: tiers, pre, s, t, htiers, hpre => by
    have hadv := advances_tierWalk clock (t := t) hv hk htiers hpre hf hr hpos
    rw [roundWalk, Prog.run_except_bind]
    rcases hrun : (tierWalk k args need.toNat tier c).run.run (exact clock) (s, t)
        with ⟨f | ⟨allocated, c'⟩, s', t'⟩
    · rw [hrun] at hadv
      exact hadv
    · rw [hrun] at hadv
      cases allocated with
      | true => exact hadv
      | false =>
        obtain ⟨hc, hcoins, hempty⟩ := hadv
        have hcoins : coins args s' = coins args s := hcoins
        rw [hc]
        have hpre' : ∀ t ∈ pre ++ [tier], (coins args s').filter (fun r =>
            decide (r.tier = t)) = [] := by
          intro t ht
          rw [hcoins]
          rcases List.mem_append.mp ht with ht | ht
          · exact hpre t ht
          · exact hempty t ht
        have ih := advances_roundWalk hv hk hf hr hpos tiers (pre ++ [tier]) s' t'
            (by simpa using htiers) hpre'
        rw [hcoins] at ih
        exact ih.cons (hempty tier List.mem_cons_self)

/-- The outcome with the coins as they are when nobody holds them. -/
def looseOutcome : Except Failure UtxoCollector → Except Failure UtxoCollector
  | .ok c => .ok c.loose
  | .error f => .error (f.1, f.2.loose)

variable (clock) in
/-- With rounds and steps for every coin, the rounds end as the naive walk does. -/
theorem looseOutcome_walk (hv : args.validate = none) (hk : 1 ≤ k) :
    ∀ (n m : ℕ) (s : Inventory) (t : ℕ) (c : UtxoCollector),
    (coins args s).length < n → (coins args s).length < m →
    looseOutcome ((walk k args n c).run.run (exact clock) (s, t)).1 = naive args m
      (coins args s) c.loose
  | 0, _, _, _, _, hn, _ => absurd hn (Nat.not_lt_zero _)
  | _, 0, _, _, _, _, hm => absurd hm (Nat.not_lt_zero _)
  | n + 1, m + 1, s, t, c, hn, hm => by
    rw [walk, run_pureWalk_bind]
    cases hf : c.isFunded with
    | error e => exact (naive_isFunded_error (c := c.loose) hf m).symm
    | ok funded =>
      cases funded with
      | true =>
        rw [naive, isFunded_loose, hf]
        rfl
      | false =>
        change looseOutcome ((pureWalk (tagged c c.remaining) >>= _ : WalkM _).run.run (exact clock)
            (s, t)).1 = _
        rw [run_pureWalk_bind]
        cases hr : c.remaining with
        | error e => exact (naive_remaining_error (c := c.loose) hf hr m).symm
        | ok need =>
          by_cases hpos : need ≤ 0
          · rw [naive, isFunded_loose, hf, remaining_loose, hr]
            simp only [tagged, Except.mapError, bind, Except.bind, Bool.false_eq_true,
                if_false, if_pos hpos]
            rfl
          · have hadv := advances_roundWalk clock hv hk hf hr hpos args.tiers [] s t rfl
              fun _ h => absurd h List.not_mem_nil
            simp only [tagged, Except.mapError, if_neg hpos]
            rw [Prog.run_except_bind]
            rcases hrun : (roundWalk k args need.toNat args.tiers c).run.run (exact clock) (s, t)
              with ⟨f | ⟨allocated, c'⟩, s', t'⟩
            · rw [hrun] at hadv
              exact (hadv.2 (m + 1) hm).symm
            · rw [hrun] at hadv
              cases allocated with
              | true =>
                obtain ⟨taken, hne, -, -, hshort, hnaive⟩ := hadv
                have hpos := List.length_pos_iff.mpr hne
                have hshort : (coins args s').length + taken.length ≤ (coins args s).length :=
                  hshort
                have ih := looseOutcome_walk hv hk n (m + 1 - taken.length) s' t' c'
                    (by omega) (by omega)
                have hsteps : m + 1 - taken.length + taken.length = m + 1 := by omega
                rw [← hsteps, hnaive]
                exact ih
              | false =>
                obtain ⟨hc, -, hempty⟩ := hadv
                have hch : choose need.toNat (coins args s) args.tiers = none := by
                  have hskip : choose need.toNat (coins args s) (args.tiers ++ [])
                      = choose need.toNat (coins args s) [] :=
                    choose_skip hempty
                  rwa [List.append_nil] at hskip
                rw [hc, naive, isFunded_loose, hf, remaining_loose, hr]
                simp only [tagged, Except.mapError, bind, Except.bind, Bool.false_eq_true, if_false,
                    if_neg hpos, hch]
                rfl

end Store

section Call

variable {clock : ℕ → Time} {args : FundArgs} {P : List Row} {c : UtxoCollector}

theorem choose_mem {need : ℕ} {r : Row} : ∀ {tiers : List Tier}, choose need P tiers = some r →
    r ∈ P ∧ r.tier ∈ tiers
  | [], h => by cases h
  | tier :: tiers, h => by
    rw [choose] at h
    cases hs : least? Cheaper (P.filter fun r =>
        decide (r.tier = tier) && !decide (r.satoshis < need)) with
    | some r' =>
      rw [hs] at h
      cases h
      have hr := List.mem_filter.mp (least?_mem Cheaper hs)
      rw [Bool.and_eq_true, decide_eq_true_iff] at hr
      exact ⟨hr.1, hr.2.1 ▸ List.mem_cons_self⟩
    | none =>
      rw [hs] at h
      cases hl : least? Dearer (P.filter fun r => decide (r.tier = tier)) with
      | some r' =>
        rw [hl] at h
        cases h
        have hr := List.mem_filter.mp (least?_mem Dearer hl)
        rw [decide_eq_true_iff] at hr
        exact ⟨hr.1, hr.2 ▸ List.mem_cons_self⟩
      | none =>
        rw [hl] at h
        obtain ⟨hr, ht⟩ := choose_mem h
        exact ⟨hr, List.mem_cons_of_mem tier ht⟩

theorem length_without_lt {r : Row} (hr : r ∈ P) : (without [r.outpoint] P).length < P.length := by
  refine List.length_filter_lt_length_iff_exists.mpr ⟨r, hr, ?_⟩
  simp

theorem tagged_eq_error {α : Type} {x : Except FundErr α} (hx : Arith x) {f : Failure}
    (h : tagged c x = .error f) :
    f.2 = c ∧ (f.1 = .panic ∨ f.1 = .satoshiRange) := by
  rcases x with e | a
  · cases h
    exact ⟨rfl, hx e rfl⟩
  · cases h

theorem tagged_eq_ok {α : Type} {x : Except FundErr α} {a : α} (h : tagged c x = .ok a) :
    x = .ok a := by
  rcases x with e | a'
  · cases h
  · cases h
    rfl

/-- A step of the naive walk fails on an amount out of range or for want of coins, or a later one
fails. -/
theorem naive_eq_error {m : ℕ} {f : Failure} (h : naive args (m + 1) P c = .error f) :
    (f.2 = c ∧ (f.1 = .panic ∨ f.1 = .satoshiRange)) ∨
      (f = (.notEnoughFunds, c) ∧ c.isFunded = .ok false ∧ ∃ need,
        choose need P args.tiers = none) ∨
      ∃ r ∈ P, ∃ c', c.allocateUTXO r.toUtxo = .ok c' ∧ naive args m
        (without [r.outpoint] P) c' = .error f := by
  rw [naive] at h
  rcases hf : tagged c c.isFunded with f' | funded
  · rw [hf] at h
    cases h
    exact Or.inl (tagged_eq_error c.arith_isFunded hf)
  rw [hf] at h
  cases funded with
  | true => cases h
  | false =>
    rcases hr : tagged c c.remaining with f' | need
    · rw [hr] at h
      cases h
      exact Or.inl (tagged_eq_error c.arith_remaining hr)
    rw [hr] at h
    simp only [bind, Except.bind, Bool.false_eq_true, if_false] at h
    split_ifs at h
    · cases h
    cases hch : choose need.toNat P args.tiers with
    | none =>
      rw [hch] at h
      cases h
      exact Or.inr (Or.inl ⟨rfl, tagged_eq_ok hf, need.toNat, hch⟩)
    | some r =>
      rw [hch] at h
      simp only at h
      rcases ha : tagged c (c.allocateUTXO r.toUtxo) with f' | c1
      · rw [ha] at h
        cases h
        exact Or.inl (tagged_eq_error (c.arith_allocateUTXO _) ha)
      · rw [ha] at h
        exact Or.inr (Or.inr ⟨r, (choose_mem hch).1, c1, tagged_eq_ok ha, h⟩)

/-- A pass fails for want of coins or on an amount out of range. -/
def Settled (e : FundErr) : Prop := e = .notEnoughFunds ∨ e = .panic ∨ e = .satoshiRange

theorem Settled.not_contention {e : FundErr} (h : Settled e) : e.isContention = false := by
  obtain rfl | rfl | rfl := h <;> rfl

/-- With steps for every coin, the naive walk does not end for want of steps. -/
theorem settled_naive : ∀ {m : ℕ} {P : List Row} {c : UtxoCollector} {f : Failure}, P.length < m →
    naive args m P c = .error f → Settled f.1
  | 0, _, _, _, hm, _ => absurd hm (Nat.not_lt_zero _)
  | m + 1, P, c, f, hm, h => by
    obtain ⟨-, harith⟩ | ⟨rfl, -⟩ | ⟨r, hr, c', -, h⟩ := naive_eq_error h
    · exact Or.inr harith
    · exact Or.inl rfl
    · have hlt := length_without_lt hr
      exact settled_naive (by omega) h

theorem run_probe (tiers : List Tier) (st : Inventory × ℕ) :
    (probe args tiers).run.run (exact clock) st = (.ok none, st) := by
  cases tiers <;> rfl

theorem run_orHiddenInventory {α : Type} (x : FundM α) (st : Inventory × ℕ) :
    ((orHiddenInventory args x).run.run (exact clock) st).1 = (x.run.run (exact clock) st).1 := by
  unfold orHiddenInventory
  rw [Prog.run_except_bind, Prog.run_lift]
  rcases x.run.run (exact clock) st with ⟨e | a, st'⟩
  · cases e with
    | notEnoughFunds =>
      simp only
      rw [Prog.run_except_bind, run_probe]
      rfl
    | _ => rfl
  · rfl

theorem run_tieredClaim (rounds : ℕ) (st : Inventory × ℕ) :
    ((tieredClaim rounds args c).run.run (exact clock) st).1
      = ((boundedTieredClaim args rounds c).run.run (exact clock) st).1
        >>= UtxoCollector.result := by
  unfold tieredClaim
  rw [run_orHiddenInventory, Prog.run_except_bind]
  rcases (boundedTieredClaim args rounds c).run.run (exact clock) st with ⟨e | c', st'⟩ <;> rfl

theorem run_attempts {σ : Type} {h : (c : StoreCall) → σ → c.Answer × σ} {fees : FeeCalc}
    {rounds : ℕ} {s : σ}
    (hsettled : ∀ e, ((fundOnce fees rounds args).run.run h s).1 = .error e →
      e.isContention = false) (n : ℕ) :
    ((attempts fees rounds args (n + 1)).run.run h s).1
      = ((fundOnce fees rounds args).run.run h s).1 := by
  rw [attempts, Prog.run_except_bind, Prog.run_lift]
  rcases hrun : (fundOnce fees rounds args).run.run h s with ⟨e | r, s'⟩
  · rw [hrun] at hsettled
    have hno := hsettled e rfl
    simp only [hno, Bool.false_eq_true, if_false]
    split_ifs
    · rw [Prog.run_except_bind, release, Prog.run_except_bind, ask, Prog.run_lift]
      rfl
    · rfl
  · rfl

/-- The result with its coins as they are when nobody holds them. -/
def looseResult (r : FundResult) : FundResult :=
  { r with allocatedUTXOs := r.allocatedUTXOs.map Utxo.loose }

theorem result_loose (c : UtxoCollector) : c.loose.result = c.result.map looseResult := by
  have hchange : c.loose.change = c.change := rfl
  unfold UtxoCollector.result
  rw [isFunded_loose, hchange]
  cases c.isFunded with
  | error e => rfl
  | ok funded =>
    cases funded with
    | false => rfl
    | true => cases c.change <;> rfl

theorem run_fundOnce {fees : FeeCalc} {rounds : ℕ} (hden : args.denomination = 0)
    (hc : newFor fees args = .ok c) {σ : Type} (h : (c : StoreCall) → σ → c.Answer × σ) (s : σ) :
    (fundOnce fees rounds args).run.run h s = (tieredClaim rounds args c).run.run h s := by
  have hstart : UtxoCollector.start fees args.targetSat args.currentTxSize args.outputCount
    (args.numberOfDesiredUTXOs - args.existingBasketCount) args.minimumDesiredUTXOValue
        args.maxChangeOutputsPerTx
    args.requireChange = .ok c := hc
  have hno : ¬ args.denomination > 0 := by omega
  unfold fundOnce
  rw [hstart, Prog.run_except_bind]
  simp only [if_neg hno]
  rfl

theorem settled_result {e : FundErr} (h : c.result = .error e) : Settled e := by
  cases hf : c.isFunded with
  | error e' =>
    unfold UtxoCollector.result at h
    rw [hf] at h
    cases h
    exact Or.inr (c.arith_isFunded _ hf)
  | ok funded =>
    cases funded with
    | true => exact Or.inr (c.arith_result hf e h)
    | false =>
      unfold UtxoCollector.result at h
      rw [hf] at h
      cases h
      exact Or.inl rfl

end Call

/-- The rounds take the coins that the naive walk takes, in the same order, whatever the size of a
batch; and a call of Fund comes to what the naive walk comes to. -/
theorem tiered_walk_eq_naive (clock : ℕ → Time) (s : Inventory) (t : ℕ) (fees : FeeCalc)
    (rounds k : ℕ) (args : FundArgs)
    (c : UtxoCollector) (hv : args.validate = none) (hden : args.denomination = 0)
    (hc : newFor fees args = .ok c) (hk : 1 ≤ k) (hrounds : (coins args s).length < rounds) :
    looseOutcome ((walk k args rounds c).run.run (exact clock) (s, t)).1
        = naive args ((coins args s).length + 1) (coins args s) c ∧
      Erases (walk 16 args rounds c) (boundedTieredClaim args rounds c) ∧
      ((fund fees rounds args).run.run (exact clock) (s, t)).1.map looseResult
        = (naive args ((coins args s).length + 1) (coins args s) c).mapError Prod.fst
          >>= UtxoCollector.result := by
  have hbare : c.loose = c := by
    have halloc : c.allocatedUTXOs = [] := (tally_collect (collect_nil.trans hc)).allocated
    unfold UtxoCollector.loose
    rw [halloc, List.map_nil, ← halloc]
  have hwalk : ∀ k, 1 ≤ k → looseOutcome ((walk k args rounds c).run.run (exact clock) (s, t)).1
      = naive args ((coins args s).length + 1) (coins args s) c := by
    intro k hk
    have h := looseOutcome_walk clock hv hk rounds ((coins args s).length + 1) s t c hrounds
        (Nat.lt_succ_self _)
    rwa [hbare] at h
  refine ⟨hwalk k hk, erases_walk args rounds c, ?_⟩
  have h16 := hwalk 16 (by omega)
  have honce : ((fundOnce fees rounds args).run.run (exact clock) (s, t)).1
      = ((walk 16 args rounds c).run.run (exact clock) (s, t)).1.mapError Prod.fst
          >>= UtxoCollector.result := by
    rw [run_fundOnce hden hc, run_tieredClaim, erases_walk args rounds c]
  have hlast : ∀ e, ((fundOnce fees rounds args).run.run (exact clock) (s, t)).1 = .error e →
      e.isContention = false := by
    intro e he
    rw [honce] at he
    rcases hw : ((walk 16 args rounds c).run.run (exact clock) (s, t)).1 with f | c'
    · rw [hw] at he h16
      cases he
      have hsettled : Settled (f.1, f.2.loose).1 := settled_naive (Nat.lt_succ_self _) h16.symm
      exact hsettled.not_contention
    · rw [hw] at he
      exact (settled_result he).not_contention
  unfold fund
  rw [hv]
  simp only
  rw [maxFundingAttempts, run_attempts hlast, honce, ← h16]
  rcases ((walk 16 args rounds c).run.run (exact clock) (s, t)).1 with f | c'
  · rfl
  · exact (result_loose c').symm

/-- Three coins, none of which covers the payment: two are drained, and the third covers the
rest. -/
theorem tiered_walk_eq_naive_purse : ∃ c, newFor (.satPerKB 1000) (payment 44) = .ok c ∧
    looseOutcome ((walk 1 (payment 44) 4 c).run.run (exact fun _ => 0) (purse [500, 600, 700], 0)).1
        = naive (payment 44) 4 (coins (payment 44) (purse [500, 600, 700])) c ∧
      Erases (walk 16 (payment 44) 4 c) (boundedTieredClaim (payment 44) 4 c) ∧
      ((fund (.satPerKB 1000) 4 (payment 44)).run.run (exact fun _ => 0) (purse [500, 600, 700],
        0)).1.map looseResult
        = (naive (payment 44) 4 (coins (payment 44) (purse [500, 600, 700])) c).mapError Prod.fst
          >>= UtxoCollector.result := by
  have hok : (newFor (.satPerKB 1000) (payment 44)).isOk = true := by decide +kernel
  cases hc : newFor (.satPerKB 1000) (payment 44) with
  | error e =>
    rw [hc] at hok
    cases hok
  | ok c =>
    exact ⟨c, rfl, tiered_walk_eq_naive (fun _ => 0) (purse [500, 600, 700]) 0 (.satPerKB 1000) 4 1
        (payment 44) c
      (by decide) rfl hc (by decide) (by decide)⟩

end Funder

end ArcadeToolbox
