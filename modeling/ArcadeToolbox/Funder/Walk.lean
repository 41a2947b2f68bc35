import ArcadeToolbox.Funder.Exact

/-!
# The rounds and the naive walk

The naive walk computes the need, takes one coin, and starts again. A round of the funder takes a
whole batch of coins against one need. If the batch holds the largest coins of the first tier that
has any, it is consumed as the naive walk would take its coins: as long as the next coin is too
small, no other coin of the tier is large enough.

To compare the two to their ends, the rounds are run here with failures that tell the collector they
met.
-/

namespace ArcadeToolbox

open Txn

/-- The collector with its coins as they are when nobody holds them. -/
def UtxoCollector.loose (c : UtxoCollector) : UtxoCollector :=
  { c with allocatedUTXOs := c.allocatedUTXOs.map Utxo.loose }

namespace UtxoCollector

@[simp] theorem isFunded_loose (c : UtxoCollector) : c.loose.isFunded = c.isFunded := rfl

@[simp] theorem remaining_loose (c : UtxoCollector) : c.loose.remaining = c.remaining := rfl

theorem increaseSize_loose (c : UtxoCollector) (size : ℕ) :
    c.loose.increaseSize size = (c.increaseSize size).map loose := by
  have hfee : calculateFee c.loose.fees (c.loose.txSize + size) = calculateFee c.fees
      (c.txSize + size) := rfl
  unfold increaseSize
  rw [hfee]
  cases calculateFee c.fees (c.txSize + size) <;> rfl

theorem calculateChangeOutputs_loose (c : UtxoCollector) :
    c.loose.calculateChangeOutputs = c.calculateChangeOutputs.map loose := by
  have hchange : c.loose.change = c.change := rfl
  unfold calculateChangeOutputs
  rw [hchange]
  cases c.change with
  | error e => rfl
  | ok change =>
    change (if change ≤ 0 then _ else _) = Except.map loose (if change ≤ 0 then _ else _)
    split_ifs
    · rfl
    · exact increaseSize_loose { c with changeOutputsCount := c.calculateChangeCount
                                          change.toNat } _

/-- Who holds a coin makes no difference to the collector. -/
theorem allocateUTXO_loose (c : UtxoCollector) (u : Utxo) :
    c.loose.allocateUTXO u.loose = (c.allocateUTXO u).map loose := by
  have hadd : ({ c.loose with allocatedUTXOs := c.loose.allocatedUTXOs ++ [u.loose] } :
      UtxoCollector)
      = ({ c with allocatedUTXOs := c.allocatedUTXOs ++ [u] } : UtxoCollector).loose := by
    simp [loose]
  have hsize : transactionInputSize u.loose.inputSize = transactionInputSize u.inputSize := rfl
  unfold allocateUTXO
  rw [hadd, hsize, increaseSize_loose]
  cases increaseSize { c with allocatedUTXOs := c.allocatedUTXOs ++ [u] }
      (transactionInputSize u.inputSize) with
  | error e => rfl
  | ok c1 =>
    have hsats : satoshiFrom u.loose.satoshis = satoshiFrom u.satoshis := rfl
    change (must (satoshiFrom u.loose.satoshis) >>= _)
        = Except.map loose (must (satoshiFrom u.satoshis) >>= _)
    rw [hsats]
    cases must (satoshiFrom u.satoshis) with
    | error e => rfl
    | ok v =>
      change (satoshiAdd c1.satsCovered v >>= _)
          = Except.map loose (satoshiAdd c1.satsCovered v >>= _)
      cases satoshiAdd c1.satsCovered v with
      | error e => rfl
      | ok covered => exact calculateChangeOutputs_loose { c1 with satsCovered := covered }

theorem allocated_allocateUTXO {c c' : UtxoCollector} {u : Utxo} (h : c.allocateUTXO u = .ok c') :
    c'.allocatedUTXOs = c.allocatedUTXOs ++ [u] := by
  rw [calculateChangeOutputs_eq_ok (allocateUTXO_eq_ok h)]
  split_ifs <;> rfl

end UtxoCollector

namespace Funder

open UtxoCollector Inventory

variable {α β : Type}

/-- The error, and what had been allocated by then. -/
abbrev Failure := FundErr × UtxoCollector

abbrev WalkM := ExceptT Failure (Prog StoreCall StoreCall.Answer)

/-- A failure with the collector that met it. -/
def tagged (c : UtxoCollector) (x : Except FundErr α) : Except Failure α :=
  x.mapError fun e => (e, c)

def pureWalk (x : Except Failure α) : WalkM α := ExceptT.mk (.done x)

def storeWalk (c : UtxoCollector) (x : FundM α) : WalkM α :=
  ExceptT.mk (x.run >>= fun r => .done (tagged c r))

/-- The program does the same without the collectors. -/
def Erases (x : WalkM α) (y : FundM α) : Prop :=
  ∀ (σ : Type) (h : (c : StoreCall) → σ → c.Answer × σ) (s : σ),
    y.run.run h s = ((x.run.run h s).1.mapError Prod.fst, (x.run.run h s).2)

theorem erases_bind {x : WalkM α} {y : FundM α} {f : α → WalkM β} {g : α → FundM β}
    (hx : Erases x y)
    (hf : ∀ a, Erases (f a) (g a)) : Erases (x >>= f) (y >>= g) := by
  intro σ h s
  rw [Prog.run_except_bind, Prog.run_except_bind, hx σ h s]
  rcases x.run.run h s with ⟨e | a, s'⟩
  · rfl
  · exact hf a σ h s'

theorem erases_pure (a : α) : Erases (pure a) (pure a) := fun _ _ _ => rfl

theorem erases_throw (e : FundErr) (c : UtxoCollector) :
    Erases (throw (e, c) : WalkM α) (throw e) := fun _ _ _ => rfl

theorem mapError_tagged (c : UtxoCollector) (x : Except FundErr α) :
    (tagged c x).mapError Prod.fst = x := by
  cases x <;> rfl

theorem erases_pureWalk {x : Except Failure α} {y : Except FundErr α}
    (h : x.mapError Prod.fst = y) :
    Erases (pureWalk x) (liftCollector y) := by
  intro σ _ s
  rw [← h]
  rfl

theorem run_storeWalk {σ : Type} {h : (c : StoreCall) → σ → c.Answer × σ} (c : UtxoCollector)
    (x : FundM α) (s : σ) :
    (storeWalk c x).run.run h s = (tagged c (x.run.run h s).1, (x.run.run h s).2) :=
  Prog.run_bind x.run (fun r => .done (tagged c r)) s

theorem run_pureWalk_map {σ : Type} {h : (c : StoreCall) → σ → c.Answer × σ} (x : Except Failure α)
    (f : α → β) (s : σ) :
    ((do return f (← pureWalk x)) : WalkM β).run.run h s = (x.map f, s) := by
  cases x <;> rfl

theorem run_pureWalk_bind {σ : Type} {h : (c : StoreCall) → σ → c.Answer × σ} (x : Except Failure α)
    (f : α → WalkM β)
    (s : σ) : (pureWalk x >>= f).run.run h s = match x with
      | .ok a => (f a).run.run h s
      | .error e => (.error e, s) := by
  cases x <;> rfl

theorem erases_storeWalk (c : UtxoCollector) (x : FundM α) : Erases (storeWalk c x) x := by
  intro σ h s
  rw [run_storeWalk, mapError_tagged]

def consume : List Utxo → UtxoCollector → Except Failure (List Utxo × UtxoCollector)
  | [], c => .ok ([], c)
  | u :: us, c => do
    if ← tagged c c.isFunded then return (u :: us, c)
    let remaining ← tagged c c.remaining
    if remaining ≤ 0 ∨ remaining ≤ u.satoshis then return (u :: us, c)
    consume us (← tagged c (c.allocateUTXO u))

def claimBatch (k : ℕ) (sc : Scope) (reservation : Token) (capSats : ℕ) : FundM (List Utxo) := do
  liftStore (← ask (.claimLargestInsufficient sc reservation capSats k))

def drainWalk (args : FundArgs) (batch : List Utxo) (c : UtxoCollector) :
    WalkM (Bool × UtxoCollector) := do
  let (rest, c') ← pureWalk (consume batch c)
  storeWalk c' (Funder.releaseOutpoints args.reservation rest)
  return (decide (rest.length < batch.length), c')

def tierWalk (k : ℕ) (args : FundArgs) (remaining : ℕ) (tier : Tier) (c : UtxoCollector) :
    WalkM (Bool × UtxoCollector) := do
  match ← storeWalk c (Funder.claimSmallestSufficient (scope args tier) args.reservation
      remaining) with
  | some u => return (true, ← pureWalk (tagged c (c.allocateUTXO u)))
  | none =>
    let batch ← storeWalk c (claimBatch k (scope args tier) args.reservation remaining)
    drainWalk args batch c

def roundWalk (k : ℕ) (args : FundArgs) (remaining : ℕ) : List Tier → UtxoCollector →
    WalkM (Bool × UtxoCollector)
  | [], c => return (false, c)
  | tier :: tiers, c => do
    let (allocated, c') ← tierWalk k args remaining tier c
    if allocated then return (true, c')
    roundWalk k args remaining tiers c'

/-- The rounds with batches of `k` coins. -/
def walk (k : ℕ) (args : FundArgs) : ℕ → UtxoCollector → WalkM UtxoCollector
  | 0, c => throw (.outOfRounds, c)
  | n + 1, c => do
    if ← pureWalk (tagged c c.isFunded) then return c
    let remaining ← pureWalk (tagged c c.remaining)
    if remaining ≤ 0 then return c
    let (allocated, c') ← roundWalk k args remaining.toNat args.tiers c
    if !allocated then throw (.notEnoughFunds, c')
    walk k args n c'

theorem mapError_bind {x : Except Failure α} {f : α → Except Failure β} :
    (x >>= f).mapError Prod.fst = x.mapError Prod.fst >>= fun a => (f a).mapError Prod.fst := by
  cases x <;> rfl

theorem mapError_consume : ∀ (us : List Utxo) (c : UtxoCollector), (consume us c).mapError Prod.fst
    = consumeBatch us c
  | [], _ => rfl
  | u :: us, c => by
    unfold consume consumeBatch
    rw [mapError_bind, mapError_tagged]
    congr 1
    funext funded
    cases funded with
    | true => rfl
    | false =>
      simp only [Bool.false_eq_true, if_false]
      rw [mapError_bind, mapError_tagged]
      congr 1
      funext remaining
      split_ifs
      · rfl
      · rw [mapError_bind, mapError_tagged]
        congr 1
        funext c'
        exact mapError_consume us c'

theorem erases_tierWalk (args : FundArgs) (remaining : ℕ) (tier : Tier) (c : UtxoCollector) :
    Erases (tierWalk 16 args remaining tier c) (fromTier args remaining tier c) := by
  refine erases_bind (erases_storeWalk c _) fun o => ?_
  cases o with
  | some u => exact erases_bind (erases_pureWalk (mapError_tagged c _)) fun c' => erases_pure _
  | none =>
    refine erases_bind (erases_storeWalk c _) fun batch => ?_
    refine erases_bind (erases_pureWalk (mapError_consume batch c)) fun p => ?_
    exact erases_bind (erases_storeWalk p.2 _) fun _ => erases_pure _

theorem erases_roundWalk (args : FundArgs) (remaining : ℕ) :
    ∀ (tiers : List Tier) (c : UtxoCollector),
    Erases (roundWalk 16 args remaining tiers c) (round args remaining tiers c)
  | [], c => erases_pure _
  | tier :: tiers, c => by
    refine erases_bind (erases_tierWalk args remaining tier c) fun p => ?_
    rcases p with ⟨allocated, c'⟩
    cases allocated with
    | true => exact erases_pure _
    | false => exact erases_roundWalk args remaining tiers c'

/-- The rounds of the source take sixteen coins a batch. -/
theorem erases_walk (args : FundArgs) : ∀ (n : ℕ) (c : UtxoCollector),
    Erases (walk 16 args n c) (boundedTieredClaim args n c)
  | 0, c => erases_throw _ c
  | n + 1, c => by
    refine erases_bind (erases_pureWalk (mapError_tagged c _)) fun funded => ?_
    cases funded with
    | true => exact erases_pure _
    | false =>
      refine erases_bind (erases_pureWalk (mapError_tagged c _)) fun remaining => ?_
      split_ifs
      · exact erases_pure _
      · refine erases_bind (erases_roundWalk args _ _ c) fun p => ?_
        rcases p with ⟨allocated, c'⟩
        cases allocated with
        | true => exact erases_walk args n c'
        | false => exact erases_throw _ c'

/-- From the first tier that has a coin, the smallest coin that covers the need, or else the
largest. -/
def choose (need : ℕ) (pool : List Row) : List Tier → Option Row
  | [] => none
  | tier :: tiers =>
    match least? Cheaper (pool.filter fun r =>
        decide (r.tier = tier) && !decide (r.satoshis < need)) with
    | some r => some r
    | none =>
      match least? Dearer (pool.filter fun r => decide (r.tier = tier)) with
      | some r => some r
      | none => choose need pool tiers

def without (ops : List Outpoint) (pool : List Row) : List Row := pool.filter fun r =>
    r.outpoint ∉ ops

/-- Compute the need, take one coin, and start again; `n` bounds how many coins are taken. -/
def naive (args : FundArgs) : ℕ → List Row → UtxoCollector → Except Failure UtxoCollector
  | 0, _, c => throw (.outOfRounds, c)
  | n + 1, pool, c => do
    if ← tagged c c.isFunded then return c
    let remaining ← tagged c c.remaining
    if remaining ≤ 0 then return c
    match choose remaining.toNat pool args.tiers with
    | none => throw (.notEnoughFunds, c)
    | some r => naive args n (without [r.outpoint] pool) (← tagged c (c.allocateUTXO r.toUtxo))

section Choice

variable {P : List Row} {need : ℕ} {tier : Tier} {pre post : List Tier} {r : Row}
  {ops : List Outpoint}

theorem choose_empty (h : P.filter (fun r => decide (r.tier = tier)) = []) :
    choose need P (tier :: post) = choose need P post := by
  have hsuff : P.filter (fun r => decide (r.tier = tier) && !decide (r.satoshis < need)) = [] := by
    rw [List.filter_eq_nil_iff] at h ⊢
    intro r hr
    simp [h r hr]
  rw [choose, hsuff, h]
  rfl

/-- Tiers without a coin are passed over. -/
theorem choose_skip (hpre : ∀ t ∈ pre, P.filter (fun r => decide (r.tier = t)) = []) :
    choose need P (pre ++ post) = choose need P post := by
  induction pre with
  | nil => rfl
  | cons t pre ih =>
    rw [List.cons_append, choose_empty (hpre t List.mem_cons_self)]
    exact ih fun t' ht' => hpre t' (List.mem_cons_of_mem t ht')

theorem choose_largest (h : ((P.filter fun r => decide (r.tier = tier)).insertionSort Dearer).head?
    = some r)
    (hlt : r.satoshis < need) : choose need P (tier :: post) = some r := by
  rw [head?_insertionSort] at h
  have hsuff : P.filter (fun r => decide (r.tier = tier) && !decide (r.satoshis < need)) = [] := by
    rw [List.filter_eq_nil_iff]
    intro x hx hsel
    rw [Bool.and_eq_true] at hsel
    have hle : Dearer r x := least?_le Dearer h x (List.mem_filter.mpr ⟨hx, hsel.1⟩)
    simp only [Bool.not_eq_true', decide_eq_false_iff_not] at hsel
    omega
  rw [choose, hsuff, h]
  rfl

theorem without_without (ops' : List Outpoint) :
    without ops' (without ops P) = without (ops ++ ops') P := by
  unfold without
  rw [List.filter_filter]
  refine List.filter_congr fun r _ => ?_
  rw [Bool.eq_iff_iff]
  simp only [Bool.and_eq_true, decide_eq_true_iff, List.mem_append]
  tauto

theorem nodup_without (h : (P.map (·.outpoint)).Nodup) : ((without ops P).map (·.outpoint)).Nodup :=
  h.sublist (List.filter_sublist.map _)

theorem sort_without {l : List Row} (hP : (P.map (·.outpoint)).Nodup)
    (h : (P.filter fun r => decide (r.tier = tier)).insertionSort Dearer = r :: l) :
    ((without [r.outpoint] P).filter fun r => decide (r.tier = tier)).insertionSort Dearer = l := by
  have hnodup : ((r :: l).map (·.outpoint)).Nodup := by
    rw [← h]
    exact ((List.perm_insertionSort Dearer _).map _).nodup_iff.mpr
        (hP.sublist (List.filter_sublist.map _))
  rw [List.map_cons, List.nodup_cons] at hnodup
  have hcomm : (without [r.outpoint] P).filter (fun r => decide (r.tier = tier))
      = (P.filter fun r => decide (r.tier = tier)).filter fun x => x.outpoint ∉ [r.outpoint] := by
    unfold without
    rw [List.filter_filter, List.filter_filter]
    refine List.filter_congr fun x _ => ?_
    rw [Bool.and_comm]
  rw [hcomm, ← filter_insertionSort, h, List.filter_cons_of_neg (by simp), List.filter_eq_self]
  intro x hx
  have hne : x.outpoint ≠ r.outpoint := fun heq => hnodup.1 (heq ▸ List.mem_map_of_mem hx)
  simpa using hne

end Choice

section Drain

variable {args : FundArgs} {P : List Row} {c c' : UtxoCollector} {pre post : List Tier}
  {tier : Tier}

theorem naive_step {need : ℤ} {r : Row} (hf : c.isFunded = .ok false) (hr : c.remaining = .ok need)
    (hpos : ¬ need ≤ 0) (hch : choose need.toNat P args.tiers = some r) (m : ℕ) :
    naive args (m + 1) P c = tagged c (c.allocateUTXO r.toUtxo) >>= naive args m
      (without [r.outpoint] P) := by
  rw [naive, hf, hr]
  simp only [tagged, Except.mapError, bind, Except.bind, Bool.false_eq_true, if_false,
      if_neg hpos, hch]

/-- What a batch does is what the naive walk does. The batch holds the largest coins of the first
tier that has any. -/
def Drains (args : FundArgs) (P : List Row) (us : List Utxo) (c : UtxoCollector) :
    Except Failure (List Utxo × UtxoCollector) → Prop
  | .error f => (f.1 = .panic ∨ f.1 = .satoshiRange) ∧
      ∃ j ≤ us.length, ∀ m, naive args (m + j + 1) P c.loose = .error (f.1, f.2.loose)
  | .ok (rest, c') => ∃ taken, us = taken ++ rest ∧ c'.allocatedUTXOs = c.allocatedUTXOs ++ taken ∧
      ∀ m, naive args (m + taken.length) P c.loose
          = naive args m (without (taken.map (·.outpoint)) P) c'.loose

theorem drains_stop (us : List Utxo) : Drains args P us c (.ok (us, c)) :=
  ⟨[], rfl, (List.append_nil _).symm, fun m => by simp [without]⟩

theorem drains_error {α : Type} {x : Except FundErr α} {e : FundErr} (us : List Utxo) (hx : Arith x)
    (he : x = .error e) (h : ∀ m, naive args (m + 1) P c.loose = .error (e, c.loose)) :
    Drains args P us c (.error (e, c)) :=
  ⟨hx e he, 0, Nat.zero_le _, h⟩

/-- A coin that both take, and then the rest of the batch. -/
theorem Drains.cons {u : Utxo} {us : List Utxo} {res : Except Failure (List Utxo × UtxoCollector)}
    (halloc : c'.allocatedUTXOs = c.allocatedUTXOs ++ [u])
    (hstep : ∀ m, naive args (m + 1) P c.loose = naive args m (without [u.outpoint] P) c'.loose)
    (h : Drains args (without [u.outpoint] P) us c' res) : Drains args P (u :: us) c res := by
  rcases res with f | ⟨rest, c2⟩
  · obtain ⟨harith, j, hj, hrun⟩ := h
    refine ⟨harith, j + 1, Nat.succ_le_succ hj, fun m => ?_⟩
    rw [← hrun m, ← hstep (m + j + 1)]
    rfl
  · obtain ⟨taken, rfl, htaken, hrun⟩ := h
    refine ⟨u :: taken, rfl, by rw [htaken, halloc, List.append_assoc]; rfl, fun m => ?_⟩
    rw [List.length_cons, ← Nat.add_assoc, hstep, hrun m, without_without]
    rfl

theorem naive_isFunded_error {e : FundErr} (h : c.isFunded = .error e) (m : ℕ) :
    naive args (m + 1) P c = .error (e, c) := by
  rw [naive, h]
  rfl

theorem naive_remaining_error {e : FundErr} (hf : c.isFunded = .ok false)
    (h : c.remaining = .error e) (m : ℕ) :
    naive args (m + 1) P c = .error (e, c) := by
  rw [naive, hf, h]
  rfl

theorem drains_consume (htiers : args.tiers = pre ++ tier :: post) :
    ∀ {us : List Utxo} {rs : List Row} {P : List Row}
    {c : UtxoCollector}, (P.map (·.outpoint)).Nodup →
    (∀ t ∈ pre, P.filter (fun r => decide (r.tier = t)) = []) →
    us.map Utxo.loose = rs.map (·.toUtxo) →
      rs <+: (P.filter fun r => decide (r.tier = tier)).insertionSort Dearer →
    Drains args P us c (consume us c)
  | [], _, _, _, _, _, _, _ => drains_stop []
  | u :: us, [], _, _, _, _, hus, _ => by simp at hus
  | u :: us, r :: rs, P, c, hP, hpre, hus, ⟨l, hl⟩ => by
    rw [List.map_cons, List.map_cons, List.cons.injEq] at hus
    obtain ⟨hu, hus⟩ := hus
    have hout : u.outpoint = r.outpoint := by rw [← hu]; rfl
    have hsats : u.satoshis = r.satoshis := by rw [← hu]; rfl
    rw [consume]
    cases hf : c.isFunded with
    | error e => exact drains_error _ c.arith_isFunded hf (naive_isFunded_error hf)
    | ok funded =>
      cases funded with
      | true => exact drains_stop _
      | false =>
        cases hr : c.remaining with
        | error e => exact drains_error _ c.arith_remaining hr (naive_remaining_error hf hr)
        | ok need =>
          by_cases hstop : need ≤ 0 ∨ need ≤ u.satoshis
          · simp only [tagged, Except.mapError, bind, Except.bind, Bool.false_eq_true, if_false,
              if_pos hstop]
            exact drains_stop _
          · simp only [tagged, Except.mapError, bind, Except.bind, Bool.false_eq_true, if_false,
              if_neg hstop]
            -- the coin is the largest of its tier and too small, so the naive walk takes it too
            have hch : choose need.toNat P args.tiers = some r := by
              rw [htiers, choose_skip hpre]
              exact choose_largest (by rw [← hl]; rfl) (by omega)
            have hstep := naive_step (c := c.loose) hf hr (fun hle => hstop (Or.inl hle)) hch
            rw [← hout, ← hu, allocateUTXO_loose] at hstep
            cases ha : c.allocateUTXO u with
            | error e =>
              rw [ha] at hstep
              exact drains_error _ (c.arith_allocateUTXO u) ha hstep
            | ok c1 =>
              rw [ha] at hstep
              have hsort := sort_without hP hl.symm
              have hpre' : ∀ t ∈ pre, (without [u.outpoint] P).filter (fun r =>
                  decide (r.tier = t)) = [] := by
                intro t ht
                exact List.filter_eq_nil_iff.mpr fun x hx =>
                  List.filter_eq_nil_iff.mp (hpre t ht) x (List.mem_filter.mp hx).1
              exact Drains.cons (allocated_allocateUTXO ha) hstep
                  (drains_consume htiers (nodup_without hP) hpre' hus
                ⟨l, by rw [hout, hsort]; rfl⟩)

end Drain

theorem length_consume : ∀ {us rest : List Utxo} {c c' : UtxoCollector},
    consume us c = .ok (rest, c') →
    rest.length ≤ us.length
  | [], rest, c, c', h => by
    cases h
    exact le_rfl
  | u :: us, rest, c, c', h => by
    rw [consume] at h
    obtain ⟨funded, -, h⟩ := Except.bind_eq_ok h
    split_ifs at h
    · cases h
      exact le_rfl
    · obtain ⟨remaining, -, h⟩ := Except.bind_eq_ok h
      split_ifs at h
      · cases h
        exact le_rfl
      · obtain ⟨c1, -, h⟩ := Except.bind_eq_ok h
        exact (length_consume h).trans (Nat.le_succ _)

/-- The first coin of a batch is below the need that the batch was claimed for, so it is taken. -/
theorem length_consume_lt {c c' : UtxoCollector} {u : Utxo} {us rest : List Utxo} {need : ℤ}
    (hf : c.isFunded = .ok false)
    (hr : c.remaining = .ok need) (hpos : ¬ need ≤ 0) (hlt : u.satoshis < need.toNat)
    (h : consume (u :: us) c = .ok (rest, c')) : rest.length < (u :: us).length := by
  have hgo : ¬ (need ≤ 0 ∨ need ≤ u.satoshis) := by omega
  rw [consume, hf, hr] at h
  simp only [tagged, Except.mapError, bind, Except.bind, Bool.false_eq_true, if_false,
      if_neg hgo] at h
  cases ha : c.allocateUTXO u with
  | error e =>
    rw [ha] at h
    cases h
  | ok c1 =>
    rw [ha] at h
    exact Nat.lt_succ_of_le (length_consume h)

end Funder

end ArcadeToolbox
