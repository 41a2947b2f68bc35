import ArcadeToolbox.Aerostore.Claims

/-!
# Runs of the Aerospike inventory against the reference store

One call after the other. The answers are the reference store's, and so is the inventory that the
records are read as. Where a claim returns other coins, the reference store goes on with these if it
could have returned them.

A candidate in the cache that was removed and minted again with another value in the same bucket
still passes the guard. So this needs that an outpoint is always minted with the same value.
-/

namespace ArcadeToolbox.Aerostore

open Txn

/-- What a method of the store answers. -/
inductive StoreAnswer where
  | items (es : List (Option UtxoErr))
  | refusals (es : List UtxoErr)
  | count (n : Except UtxoErr ℕ)
  | unit (r : Except UtxoErr Unit)
  | report (r : Except UtxoErr RemoveByMintReport)
  | coins (us : Except UtxoErr (List Utxo))
  deriving DecidableEq

/-- The call, as the Aerospike inventory carries it out. -/
def method (now : Time) : StoreOp → Method StoreAnswer
  | .mint ms => do return .items (← Store.mint now ms)
  | .remove ops force => do return .refusals (← Store.remove ops force)
  | .claimSmallestSufficient sc R minSats => do
    return .coins ((← Store.claimSmallestSufficient now sc R minSats).map Option.toList)
  | .claimLargestInsufficient sc R capSats limit => do
    return .coins (← Store.claimLargestInsufficient now sc R capSats limit)
  | .claimExact sc R denomination count => do
    return .coins (← Store.claimExact now sc R denomination count)
  | .reserveOutpoints userID R ops => do
    return .refusals (← Store.reserveOutpoints now userID R ops)
  | .releaseReservation userID R => do return .count (← Store.releaseReservation userID R)
  | .releaseOutpoints R ops => do return .unit (← Store.releaseOutpoints R ops)
  | .pin userID R => do return .count (← Store.pin userID R)
  | .unpin userID R => do return .count (← Store.unpin userID R)
  | .spend sps force => do return .items (← Store.spend force sps)
  | .unspend t ops => do return .count (.ok (← Store.unspend t ops))
  | .removeSpentBy t => do return .count (.ok (← Store.removeSpentBy t))
  | .promote ops target => do return .count (.ok (← Store.promote ops target))
  | .removeByMintTx t ops => do return .report (← Store.removeByMintTx t ops)
  | .freeze ops => do return .refusals (← Store.freeze ops)
  | .unfreeze ops => do return .refusals (← Store.unfreeze ops)

/-- The call, as the reference store carries it out. -/
def reply (now : Time) (s : Inventory) : StoreOp → StoreAnswer × Inventory
  | .mint ms => (s.mint now ms).map .items id
  | .remove ops force => (s.remove ops force).map .refusals id
  | .claimSmallestSufficient sc R minSats =>
    (s.claimSmallestSufficient now sc R minSats).map (fun r => .coins (r.map Option.toList)) id
  | .claimLargestInsufficient sc R capSats limit =>
    (s.claimLargestInsufficient now sc R capSats limit).map .coins id
  | .claimExact sc R denomination count => (s.claimExact now sc R denomination count).map .coins id
  | .reserveOutpoints userID R ops => (s.reserveOutpoints now userID R ops).map .refusals id
  | .releaseReservation userID R => (s.releaseReservation userID R).map .count id
  | .releaseOutpoints R ops => (s.releaseOutpoints R ops).map .unit id
  | .pin userID R => (s.pin userID R).map .count id
  | .unpin userID R => (s.unpin userID R).map .count id
  | .spend sps force => (s.spend force sps).map .items id
  | .unspend t ops => (s.unspend t ops).map (fun n => .count (.ok n)) id
  | .removeSpentBy t => (s.removeSpentBy t).map (fun n => .count (.ok n)) id
  | .promote ops target => (s.promote ops target).map (fun n => .count (.ok n)) id
  | .removeByMintTx t ops => (s.removeByMintTx t ops).map .report id
  | .freeze ops => (s.freeze ops).map .refusals id
  | .unfreeze ops => (s.unfreeze ops).map .refusals id

/-- What a claim asks for. -/
def claimed : StoreOp → Option (Scope × Token × Bound)
  | .claimSmallestSufficient sc R minSats => some (sc, R, .atLeast minSats)
  | .claimLargestInsufficient sc R capSats _ => some (sc, R, .below capSats)
  | .claimExact sc R denomination _ => some (sc, R, .exactly denomination)
  | _ => none

/-- The reference store, given the answer of the other one: whether it is an answer to the call, and
how the reference store goes on with it. The coins that a claim returns are held for it. -/
def follow (now : Time) (s : Inventory) (call : StoreOp) (a : StoreAnswer) : Bool × Inventory :=
  match claimed call, a with
  | none, a => (a = (reply now s call).1, (reply now s call).2)
  | some (sc, R, bound), .coins (.ok us) =>
    ((us.map (·.outpoint)).Nodup && us.all (grants s sc bound),
        s.reserve now R (us.map (·.outpoint)))
  | some _, .coins (.error _) => (true, s)
  | some _, _ => (false, s)

/-- The coins that the records are read as. -/
def Backend.coins (b : Backend) : List Utxo := b.server.rows.map recordToUTXO

/-- In every call of the run the answers agree, and after it the coins do. -/
def Conforms (index : ℕ → List Record → List Record) (cfg : Config) :
    List (Time × StoreOp) → Backend → Inventory → Prop
  | [], _, _ => True
  | (now, call) :: calls, b, s =>
    (follow now s call ((method now call).run (Backend.exec index cfg now) b).1).1 = true
      ∧ ((method now call).run (Backend.exec index cfg now) b).2.coins
        = (follow now s call ((method now call).run (Backend.exec index cfg now)
            b).1).2.rows.rows.map Row.toUtxo
      ∧ Conforms index cfg calls ((method now call).run (Backend.exec index cfg now) b).2
          (follow now s call ((method now call).run (Backend.exec index cfg now) b).1).2

instance decidableConforms (index : ℕ → List Record → List Record) (cfg : Config) :
    ∀ (calls : List (Time × StoreOp)) (b : Backend) (s : Inventory), Decidable
      (Conforms index cfg calls b s)
  | [], _, _ => .isTrue trivial
  | _ :: calls, _, _ =>
    have := decidableConforms index cfg calls
    inferInstanceAs (Decidable (_ ∧ _ ∧ _))

section Step

variable {index : ℕ → List Record → List Record} {cfg : Config} {now : Time} {worth : Outpoint → ℕ}
  {b : Backend}
  {s : Inventory}

/-- The coins that the call mints. -/
def mintsOf : StoreOp → List Mint
  | .mint ms => ms
  | _ => []

theorem Refines.coins_eq (h : Refines worth b s) : b.coins = s.rows.rows.map Row.toUtxo :=
  List.forall₂_eq_eq_eq ▸ List.forall₂_map_left_iff.mpr
    (List.forall₂_map_right_iff.mpr (h.rows.imp fun _ _ hs => hs.utxo))

theorem implements_method {call : StoreOp} (hc : claimed call = none)
    (hm : ∀ m ∈ mintsOf call, m.satoshis = worth m.outpoint) :
    Implements index cfg now worth (method now call) fun s => reply now s call := by
  cases call with
  | mint ms => exact Prog.simulates_map (implements_mint hm) _
  | remove ops force => exact Prog.simulates_map (implements_remove ops force) _
  | reserveOutpoints userID R ops =>
    exact Prog.simulates_map (implements_reserveOutpoints userID R ops) _
  | releaseReservation userID R =>
    exact Prog.simulates_map (implements_releaseReservation userID R) _
  | releaseOutpoints R ops => exact Prog.simulates_map (implements_releaseOutpoints R ops) _
  | pin userID R => exact Prog.simulates_map (implements_setPinned userID R true) _
  | unpin userID R => exact Prog.simulates_map (implements_setPinned userID R false) _
  | spend sps force => exact Prog.simulates_map (implements_spend force sps) _
  | unspend t ops =>
    exact Prog.simulates_map (implements_unspend t ops) fun n => StoreAnswer.count (.ok n)
  | removeSpentBy t =>
    exact Prog.simulates_map (implements_removeSpentBy t) fun n => StoreAnswer.count (.ok n)
  | promote ops target =>
    exact Prog.simulates_map (implements_promote ops target) fun n => StoreAnswer.count (.ok n)
  | removeByMintTx t ops => exact Prog.simulates_map (implements_removeByMintTx t ops) _
  | freeze ops => exact Prog.simulates_map (implements_freeze ops) _
  | unfreeze ops => exact Prog.simulates_map (implements_unfreeze ops) _
  | claimSmallestSufficient sc R minSats => cases hc
  | claimLargestInsufficient sc R capSats limit => cases hc
  | claimExact sc R denomination count => cases hc

theorem reserve_nil (now : Time) (R : Token) (s : Inventory) : s.reserve now R [] = s :=
  congrArg (Inventory.mk · s.nextSeq) (Table.update_of_forall_not fun _ _ => by simp)

/-- A claim has nothing when it begins. -/
theorem Refines.holding (h : Refines worth b s) (R : Token) (sc : Scope) (bound : Bound) :
    Holding worth now R sc bound s [] b :=
  ⟨by rw [List.map_nil, reserve_nil]; exact h, List.nodup_nil, fun u hu =>
      (List.not_mem_nil hu).elim⟩

theorem Settles.follow {call : StoreOp} {sc : Scope} {R : Token} {bound : Bound}
    {r : Except UtxoErr (List Utxo)}
    (hc : claimed call = some (sc, R, bound)) (h : Settles worth now R sc bound s r b) :
    (follow now s call (.coins r)).1 = true ∧ Refines worth b (follow now s call (.coins r)).2 := by
  unfold Aerostore.follow
  rw [hc]
  cases r with
  | error e =>
    have hrefines := h.refines
    rw [Except.toOption, Option.getD_none, List.map_nil, reserve_nil] at hrefines
    exact ⟨rfl, hrefines⟩
  | ok us =>
    refine ⟨?_, h.refines⟩
    rw [Bool.and_eq_true, decide_eq_true_eq, List.all_eq_true]
    exact ⟨h.nodup, h.grants⟩

variable (cfg now) in
/-- One call of the run. -/
theorem Refines.follow (hindex : ∀ n l, index n l ⊆ l) (h : Refines worth b s) {call : StoreOp}
    (hm : ∀ m ∈ mintsOf call, m.satoshis = worth m.outpoint) :
    (follow now s call ((method now call).run (Backend.exec index cfg now) b).1).1 = true
      ∧ Refines worth ((method now call).run (Backend.exec index cfg now) b).2
          (follow now s call ((method now call).run (Backend.exec index cfg now) b).1).2 := by
  rcases hc : claimed call with _ | ⟨sc, R, bound⟩
  · obtain ⟨ha, h'⟩ := implements_method hc hm b s h
    unfold Aerostore.follow
    rw [hc]
    exact ⟨decide_eq_true ha, h'⟩
  · cases call with
    | claimSmallestSufficient sc' R' minSats =>
      obtain ⟨rfl, rfl, rfl⟩ : sc' = sc ∧ R' = R ∧ Bound.atLeast minSats = bound := by
        simpa [claimed] using hc
      simp only [method, Prog.run_bind, run_pure]
      exact (ensures_claimSmallestSufficient hindex minSats b (h.holding _ _ _)).follow hc
    | claimLargestInsufficient sc' R' capSats limit =>
      obtain ⟨rfl, rfl, rfl⟩ : sc' = sc ∧ R' = R ∧ Bound.below capSats = bound := by
        simpa [claimed] using hc
      simp only [method, Prog.run_bind, run_pure]
      exact (ensures_claimLargestInsufficient hindex capSats limit b (h.holding _ _ _)).follow hc
    | claimExact sc' R' denomination count =>
      obtain ⟨rfl, rfl, rfl⟩ : sc' = sc ∧ R' = R ∧ Bound.exactly denomination = bound := by
        simpa [claimed] using hc
      simp only [method, Prog.run_bind, run_pure]
      exact (ensures_claimExact hindex denomination count b (h.holding _ _ _)).follow hc
    | _ => cases hc

theorem refines_initial (worth : Outpoint → ℕ) (start : Time) :
    Refines worth (.initial start) .empty :=
  ⟨.empty, Backend.ready_initial _ start⟩

end Step

section Runs

variable {index : ℕ → List Record → List Record} {worth : Outpoint → ℕ}

theorem Refines.conforms (hindex : ∀ n l, index n l ⊆ l) (cfg : Config) :
    ∀ (calls : List (Time × StoreOp)) {b : Backend} {s : Inventory}, Refines worth b s →
      (∀ call ∈ calls, ∀ m ∈ mintsOf call.2, m.satoshis = worth m.outpoint) →
        Conforms index cfg calls b s
  | [], _, _, _, _ => trivial
  | (now, call) :: calls, b, s, h, hm => by
    obtain ⟨hanswer, h'⟩ := h.follow cfg now hindex (hm (now, call) List.mem_cons_self)
    refine ⟨hanswer, h'.coins_eq, Refines.conforms hindex cfg calls h' fun call hcall => ?_⟩
    exact hm call (List.mem_cons_of_mem _ hcall)

/-- All coins that the run mints. -/
def mintsOfRun (calls : List (Time × StoreOp)) : List Mint := calls.flatMap fun call =>
    mintsOf call.2

/-- An outpoint is minted with one value throughout. -/
def SteadyMints (calls : List (Time × StoreOp)) : Prop :=
  ∀ m ∈ mintsOfRun calls, ∀ m' ∈ mintsOfRun calls, m.outpoint = m'.outpoint →
      m.satoshis = m'.satoshis

instance (calls : List (Time × StoreOp)) : Decidable (SteadyMints calls) :=
  inferInstanceAs (Decidable (∀ m ∈ mintsOfRun calls, ∀ m' ∈ mintsOfRun calls, _))

/-- The value that the run mints the outpoint with. -/
def worthIn (calls : List (Time × StoreOp)) (op : Outpoint) : ℕ :=
  (((mintsOfRun calls).find? fun m => m.outpoint = op).map (·.satoshis)).getD 0

theorem SteadyMints.satoshis_eq {calls : List (Time × StoreOp)} (h : SteadyMints calls) {m : Mint}
    (hm : m ∈ mintsOfRun calls) : m.satoshis = worthIn calls m.outpoint := by
  unfold worthIn
  cases hf : (mintsOfRun calls).find? fun m' => m'.outpoint = m.outpoint with
  | none => exact absurd (List.find?_eq_none.mp hf m hm) (by simp)
  | some m' =>
    have hop : m'.outpoint = m.outpoint := by simpa using List.find?_some hf
    exact h m hm m' (List.mem_of_find?_eq_some hf) hop.symm

/-- Whatever the index comes up with, and with or without a cache. -/
theorem aerostore_conforms (hindex : ∀ n l, index n l ⊆ l) (cfg : Config) (start : Time)
    (calls : List (Time × StoreOp)) (h : SteadyMints calls) :
    Conforms index cfg calls (.initial start) .empty :=
  (refines_initial (worthIn calls) start).conforms hindex cfg calls fun call hcall _ hm =>
    h.satoshis_eq (List.mem_flatMap.mpr ⟨call, hcall, hm⟩)

def mintAt (txid : TxID) (satoshis : ℕ) : Mint := ⟨⟨txid, 0⟩, 7, "default", satoshis, 107, .mined⟩

/-- The claim of the coin of 1010 leaves the other one in the cache. That one is removed and minted
again with less, and a claim for 900 returns it. -/
def staleRun (satoshis : ℕ) : List (Time × StoreOp) :=
  [(1, .mint [mintAt "a" 1000, mintAt "b" 1010]),
   (2, .claimExact ⟨7, "default", .mined⟩ "r1" 1010 1),
   (3, .remove [⟨"a", 0⟩] false),
   (4, .mint [mintAt "a" satoshis]),
   (5, .claimSmallestSufficient ⟨7, "default", .mined⟩ "r2" 900)]

def cachedConfig : Config := ⟨some ⟨1024, 1000⟩, 512⟩

theorem claim_returns_stale_coin :
    Conforms (fun _ l => l) cachedConfig ((staleRun 600).take 4) (.initial 0) .empty
      ∧ ¬Conforms (fun _ l => l) cachedConfig (staleRun 600) (.initial 0) .empty := by decide

theorem aerostore_conforms_reminted : (∀ n l, (fun (_ : ℕ) (l : List Record) => l) n l ⊆ l)
    ∧ SteadyMints (staleRun 1000)
    ∧ Conforms (fun _ l => l) cachedConfig (staleRun 1000) (.initial 0) .empty :=
  ⟨fun _ _ _ h => h, by decide, aerostore_conforms (fun _ _ _ h =>
      h) cachedConfig 0 (staleRun 1000) (by decide)⟩

end Runs

end ArcadeToolbox.Aerostore
