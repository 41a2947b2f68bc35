import ArcadeToolbox.Lib.Pairs
import ArcadeToolbox.Storage.FundHolds
import ArcadeToolbox.Utxostore.Users

/-!
# What an action sees of the other users

Two wallets may differ in the coins of the other users. `CreateAction` reads the tables, which do
not differ, and calls the store for its user alone. The one call that names coins without a user
gives back coins that were claimed just before, so they are the user's as well.
-/

namespace ArcadeToolbox

open Txn Inventory

namespace Storage

open UtxoStore

variable {α β : Type} {u : UserID} {ops : List Outpoint} {s₀ t₀ s t : Session Db}

/-- Two sessions that differ in coins of the other users, each with the coins of the others it began
with. The outpoints listed are coins of the user. -/
structure Twins (u : UserID) (ops : List Outpoint) (s₀ t₀ s t : Session Db) : Prop where
  same : ∃ i, t = { s with db := { s.db with utxo := i } }
  numbered : Numbered s.db.utxo
  alike : Alike u s.db.utxo t.db.utxo
  owns : Owns u ops s.db.utxo
  left : Others u s₀.db.utxo s.db.utxo
  right : Others u t₀.db.utxo t.db.utxo

theorem Twins.owning {ops' : List Outpoint} (h : Twins u ops s₀ t₀ s t)
    (ho : Owns u ops' s.db.utxo) :
    Twins u ops' s₀ t₀ s t := { h with owns := ho }

theorem Twins.edited {x y : α × Inventory} (h : Twins u ops s₀ t₀ s t)
    (hd : Discreet u s.db.utxo t.db.utxo x y) :
    Twins u ops s₀ t₀ { s with db := { s.db with utxo := x.2 } }
      { t with db := { t.db with utxo := y.2 } } := by
  obtain ⟨-, e, hx, hy, hs, ht⟩ := hd
  obtain ⟨i, rfl⟩ := h.same
  refine ⟨⟨y.2, rfl⟩, ?_, ?_, ?_, ?_, ?_⟩
  · exact hx ▸ e.numbered h.numbered
  · exact hx ▸ hy ▸ e.alike h.alike
  · exact hx ▸ e.owns h.owns
  · exact hx ▸ h.left.trans (e.others hs)
  · exact hy ▸ h.right.trans (e.others ht)

theorem blind_beat (e : Err) : Uow.Blind (Twins u ops s₀ t₀) (Uow.beat e) := by
  rintro ⟨d, now, beats, busy⟩ t h
  obtain ⟨i, rfl⟩ := h.same
  rcases beats with _ | ⟨⟨advance, fault⟩, bs⟩
  · exact ⟨rfl, h⟩
  · cases fault <;> exact ⟨rfl, ⟨i, rfl⟩, h.numbered, h.alike, h.owns, h.left, h.right⟩

theorem blind_metaStmt (f : Time → Metadata → Except Err α × Metadata) :
    Uow.Blind (Twins u ops s₀ t₀) (metaStmt f) := by
  refine Uow.blind_stmt (blind_beat _) fun s t h => ?_
  obtain ⟨i, rfl⟩ := h.same
  exact ⟨rfl, ⟨i, rfl⟩, h.numbered, h.alike, h.owns, h.left, h.right⟩

theorem blind_metaQuery (f : Metadata → α) : Uow.Blind (Twins u ops s₀ t₀) (metaQuery f) := by
  refine Uow.blind_stmt (blind_beat _) fun s t h => ?_
  obtain ⟨i, rfl⟩ := h.same
  exact ⟨rfl, h⟩

theorem blind_utxoStmt {f : Time → Inventory → Except Err α × Inventory}
    (hf : ∀ now i j, Numbered i → Alike u i j → Owns u ops i → Discreet u i j (f now i) (f now j)) :
    Uow.Blind (Twins u ops s₀ t₀) (utxoStmt f) := by
  refine Uow.blind_stmt (blind_beat _) fun s t h => ?_
  obtain ⟨i, rfl⟩ := h.same
  have hd := hf s.now s.db.utxo i h.numbered h.alike h.owns
  exact ⟨hd.1, h.edited hd⟩

theorem blind_doUnit {mode : Mode} {x : Work α} (hx : Uow.Blind (Twins u ops s₀ t₀) x) :
    Uow.Blind (Twins u ops s₀ t₀) (doUnit mode x) := by
  refine Uow.blind_atomically hx fun s t s' t' h h' => ?_
  obtain ⟨i, rfl⟩ := h.same
  obtain ⟨j, rfl⟩ := h'.same
  rcases mode with _ | _
  · exact ⟨⟨i, rfl⟩, h.numbered, h.alike, h.owns, h.left, h.right⟩
  · exact ⟨⟨j, rfl⟩, h'.numbered, h'.alike, h'.owns, h'.left, h'.right⟩

section Calls

variable {x : Time → Inventory → Except UtxoErr α × Inventory}

theorem twins_answer (hx : ∀ now i j, Numbered i → Alike u i j → Owns u ops i →
    Discreet u i j (x now i) (x now j))
    (h : Twins u ops s₀ t₀ s t) :
    (answer x s).1 = (answer x t).1 ∧ Twins u ops s₀ t₀ (answer x s).2 (answer x t).2 := by
  have hblind : Uow.Blind (Twins u ops s₀ t₀) (utxoStmt fun now i =>
      ((.ok (x now i).1 : Except Err (Except UtxoErr α)), (x now i).2)) :=
    blind_utxoStmt fun now i j hn ha ho => (hx now i j hn ha ho).ok
  obtain ⟨hans, h'⟩ := hblind s t h
  unfold answer
  rcases hs : utxoStmt (fun now i => ((.ok (x now i).1 : Except Err (Except UtxoErr α)),
      (x now i).2)) s with ⟨r, s'⟩
  rcases ht : utxoStmt (fun now i => ((.ok (x now i).1 : Except Err (Except UtxoErr α)),
      (x now i).2)) t with ⟨r', t'⟩
  rw [hs, ht] at hans h'
  obtain rfl : r = r' := hans
  rcases r with e | a <;> exact ⟨rfl, h'⟩

theorem Twins.busy {busy : List Bool} (h : Twins u ops s₀ t₀ s t) :
    Twins u ops s₀ t₀ { s with busy := busy } { t with busy := busy } := by
  obtain ⟨i, rfl⟩ := h.same
  exact ⟨⟨i, rfl⟩, h.numbered, h.alike, h.owns, h.left, h.right⟩

theorem twins_optimistic
    (hx : ∀ now i j, Numbered i → Alike u i j → Owns u ops i → Discreet u i j (x now i) (x now j))
    (h : Twins u ops s₀ t₀ s t) :
    (optimistic x s).1 = (optimistic x t).1 ∧ Twins u ops s₀ t₀ (optimistic x s).2
    (optimistic x t).2 := by
  have hbusy : t.busy = s.busy := by
    obtain ⟨i, rfl⟩ := h.same
    rfl
  unfold optimistic
  rw [hbusy]
  rcases s.busy with _ | ⟨_ | _, busy⟩
  · exact twins_answer hx h
  · exact twins_answer hx h.busy
  · exact ⟨rfl, h.busy⟩

theorem twins_claimableExists (sc : Scope) (hsc : sc.userID = u) (minSats : ℕ)
    (h : Twins u ops s₀ t₀ s t) :
    (claimableExists sc minSats s).1 = (claimableExists sc minSats t).1
      ∧ Twins u ops s₀ t₀ (claimableExists sc minSats s).2 (claimableExists sc minSats t).2 := by
  have hlook : ∀ (_ : Time) (i j : Inventory), Numbered i → Alike u i j → Owns u ops i →
      Discreet u i j
      ((Except.ok (i.rows.any fun r => claimable r sc && decide (minSats ≤ r.satoshis)) : Except
          UtxoErr Bool), i)
      (.ok (j.rows.any fun r => claimable r sc && decide (minSats ≤ r.satoshis)), j) := by
    intro _ i j _ ha _
    subst hsc
    rw [any_claimable_alike ha]
    exact discreet_same _
  have hbusy : t.busy = s.busy := by
    obtain ⟨i, rfl⟩ := h.same
    rfl
  unfold claimableExists
  rw [hbusy]
  rcases s.busy with _ | ⟨_ | _, busy⟩
  · exact twins_answer hlook h
  · exact twins_answer hlook h.busy
  · exact ⟨rfl, h.busy⟩

end Calls

section Fund

variable (prober : Bool) (args : FundArgs) (s₀ t₀ : Session Db)

/-- What is known to be the user's after a part of a pass. -/
def known {ε : Type} (g : α → List Outpoint) : Except ε α → List Outpoint
  | .ok a => g a
  | .error _ => []

/-- The part cannot tell the sessions apart. It relies on `ops` being coins of the user, and what it
answers shows `g` to be. -/
def Sees (ops : List Outpoint) (x : FundM α) (g : α → List Outpoint) : Prop :=
  Prog.Blind (call prober) (Twins args.userID ops s₀ t₀) x.run fun r =>
      Twins args.userID (known g r) s₀ t₀

variable {prober args s₀ t₀} {g : α → List Outpoint}

theorem sees_bind {x : FundM α} {f : α → FundM β} {g' : β → List Outpoint}
    (hx : Sees prober args s₀ t₀ ops x g) (hf : ∀ a, Sees prober args s₀ t₀ (g a) (f a) g') :
    Sees prober args s₀ t₀ ops (x >>= f) g' := by
  refine Prog.blind_except_bind (fun s t h => ?_) hf
  obtain ⟨ha, h'⟩ := hx s t h
  refine ⟨ha, ?_⟩
  rcases hr : (x.run.run (call prober) s).1 with e | a <;> rw [hr] at h' <;> exact h'

theorem sees_pure {a : α} (h : g a ⊆ ops) : Sees prober args s₀ t₀ ops (pure a) g := fun _ _ hT =>
  ⟨rfl, hT.owning (hT.owns.subset h)⟩

theorem sees_throw (e : FundErr) : Sees prober args s₀ t₀ ops (throw e : FundM α) g := fun _ _ hT =>
  ⟨rfl, hT.owning (owns_nil _)⟩

theorem sees_liftCollector (r : Except FundErr α) (h : ∀ a, r = .ok a → g a ⊆ ops) :
    Sees prober args s₀ t₀ ops (Funder.liftCollector r) g := by
  rcases r with e | a
  · exact sees_throw e
  · exact sees_pure (h a rfl)

theorem sees_liftStore (r : Except UtxoErr α) :
    Sees prober args s₀ t₀ (known g r) (Funder.liftStore r) g := by
  rcases r with e | a
  · exact sees_throw _
  · exact sees_pure (List.Subset.refl _)

theorem sees_ask {c : StoreCall} {g : c.Answer → List Outpoint}
    (h : ∀ s t, Twins args.userID ops s₀ t₀ s t → (call prober c s).1 = (call prober c t).1
      ∧ Twins args.userID (g (call prober c s).1) s₀ t₀ (call prober c s).2 (call prober c t).2) :
    Sees prober args s₀ t₀ ops (Funder.ask c) g := by
  intro s t hT
  obtain ⟨ha, h'⟩ := h s t hT
  exact ⟨congrArg Except.ok ha, h'⟩

theorem sees_attempt {x : FundM α} (hx : Sees prober args s₀ t₀ ops x fun _ => []) :
    Sees prober args s₀ t₀ ops (ExceptT.lift x.run : FundM (Except FundErr α)) fun _ => [] := by
  intro s t h
  obtain ⟨ha, h'⟩ := hx s t h
  rw [Prog.run_lift, Prog.run_lift]
  exact ⟨congrArg Except.ok ha, h'.owning (owns_nil _)⟩

theorem sees_claimSmallestSufficient (tier : Tier) (n : ℕ) : Sees prober args s₀ t₀ ops
    (Funder.claimSmallestSufficient (Funder.scope args tier) args.reservation n) fun _ => [] := by
  refine sees_bind (sees_ask fun s t h => ?_) sees_liftStore
  obtain ⟨ha, h'⟩ := twins_optimistic (fun now i j hn hij _ =>
    discreet_claimSmallestSufficient now (Funder.scope args tier) args.reservation n hn hij) h
  refine ⟨ha, h'.owning ?_⟩
  unfold known
  split <;> exact owns_nil _

/-- A claim shows what it answers to be the user's. -/
theorem twins_claim {x : Time → Inventory → Except UtxoErr (List Utxo) × Inventory}
    (hx : ∀ now i j, Numbered i → Alike u i j → Owns u ops i → Discreet u i j (x now i) (x now j))
    (hclaimed : ∀ now i us, (x now i).1 = .ok us → Owns u (us.map (·.outpoint)) (x now i).2)
    (h : Twins u ops s₀ t₀ s t) : (optimistic x s).1 = (optimistic x t).1
      ∧ Twins u (known (fun us => ops ++ us.map (·.outpoint)) (optimistic x s).1) s₀ t₀
        (optimistic x s).2
        (optimistic x t).2 := by
  obtain ⟨ha, h'⟩ := twins_optimistic hx h
  refine ⟨ha, h'.owning ?_⟩
  rcases hr : (optimistic x s).1 with e | us
  · exact owns_nil _
  · obtain ⟨now, hus, hutxo⟩ := optimistic_ok hr
    exact h'.owns.append (hutxo ▸ hclaimed now _ us hus)

theorem sees_claimLargestInsufficient (tier : Tier) (n : ℕ) : Sees prober args s₀ t₀ ops
    (Funder.claimLargestInsufficient (Funder.scope args tier) args.reservation n)
    fun us => ops ++ us.map (·.outpoint) := by
  refine sees_bind (sees_ask fun s t h => twins_claim (fun now i j hn hij _ =>
      ?_) (fun now i us hus => ?_) h)
    sees_liftStore
  · exact discreet_claimLargestInsufficient now (Funder.scope args tier) args.reservation n _ hn hij
  · rcases claimLargestInsufficient_cases i now (Funder.scope args tier) args.reservation n
      insufficientBatchSize
      with ⟨e, he⟩ | ⟨us', i', he, hclaimed⟩ <;> rw [he] at hus ⊢
    · cases hus
    · cases hus
      exact hclaimed.owns

theorem sees_claimExact (tier : Tier) (denomination count : ℕ) : Sees prober args s₀ t₀ ops
    (Funder.claimExact (Funder.scope args tier) args.reservation denomination count)
    fun us => ops ++ us.map (·.outpoint) := by
  refine sees_bind (sees_ask fun s t h => twins_claim (fun now i j hn hij _ =>
      ?_) (fun now i us hus => ?_) h)
    sees_liftStore
  · exact discreet_claimExact now (Funder.scope args tier) args.reservation
      denomination count hn hij
  · rcases claimExact_cases i now (Funder.scope args tier) args.reservation denomination count
      with ⟨e, he⟩ | ⟨us', i', he, hclaimed⟩ <;> rw [he] at hus ⊢
    · cases hus
    · cases hus
      exact hclaimed.owns

theorem sees_releaseOutpoints {us : List Utxo} (h : us.map (·.outpoint) ⊆ ops) :
    Sees prober args s₀ t₀ ops (Funder.releaseOutpoints args.reservation us) fun _ => [] := by
  unfold Funder.releaseOutpoints
  split
  · exact sees_pure (List.nil_subset _)
  · refine sees_bind (sees_ask fun s t hT => ?_) sees_liftStore
    obtain ⟨ha, h'⟩ := twins_optimistic (fun _ i j _ hij ho =>
        discreet_releaseOutpoints args.reservation hij ho)
      (hT.owning (hT.owns.subset h))
    refine ⟨ha, h'.owning ?_⟩
    unfold known
    split <;> exact owns_nil _

theorem consumeBatch_suffix : ∀ {us rest : List Utxo} {c c' : UtxoCollector},
    Funder.consumeBatch us c = .ok (rest, c') → rest <:+ us
  | [], rest, c, c', h => by
    cases h
    exact List.suffix_rfl
  | u :: us, rest, c, c', h => by
    obtain ⟨b, -, h⟩ := Except.bind_eq_ok h
    split_ifs at h
    · cases h
      exact List.suffix_rfl
    · obtain ⟨r, -, h⟩ := Except.bind_eq_ok h
      split_ifs at h
      · cases h
        exact List.suffix_rfl
      · obtain ⟨c1, -, h⟩ := Except.bind_eq_ok h
        exact (consumeBatch_suffix h).trans (List.suffix_cons u us)

theorem consumeExact_suffix : ∀ {us rest : List Utxo} {c c' : UtxoCollector},
    Funder.consumeExact us c = .ok (rest, c') → rest <:+ us
  | [], rest, c, c', h => by
    cases h
    exact List.suffix_rfl
  | u :: us, rest, c, c', h => by
    obtain ⟨b, -, h⟩ := Except.bind_eq_ok h
    split_ifs at h
    · cases h
      exact List.suffix_rfl
    · obtain ⟨c1, -, h⟩ := Except.bind_eq_ok h
      exact (consumeExact_suffix h).trans (List.suffix_cons u us)

theorem sees_giveBack {us : List Utxo} {r : Except FundErr (List Utxo × UtxoCollector)}
    (hr : ∀ rest c, r = .ok (rest, c) → rest <:+ us) (h : us.map (·.outpoint) ⊆ ops)
    (a : List Utxo × UtxoCollector → α) :
    Sees prober args s₀ t₀ ops (do
      let x ← Funder.liftCollector r
      Funder.releaseOutpoints args.reservation x.1
      return a x) fun _ => [] := by
  refine sees_bind (sees_liftCollector (g := fun x => x.1.map (·.outpoint)) r fun x hx =>
      ?_) fun x =>
    sees_bind (sees_releaseOutpoints (List.Subset.refl _)) fun _ => sees_pure (List.nil_subset _)
  exact List.Subset.trans ((hr x.1 x.2 hx).map _).subset h

theorem sees_fromTier (remaining : ℕ) (tier : Tier) (c : UtxoCollector) :
    Sees prober args s₀ t₀ [] (Funder.fromTier args remaining tier c) fun _ => [] := by
  refine sees_bind (sees_claimSmallestSufficient tier remaining) fun r => ?_
  rcases r with _ | x
  · refine sees_bind (sees_claimLargestInsufficient tier remaining) fun batch => ?_
    exact sees_giveBack (fun _ _ => consumeBatch_suffix) (List.subset_append_right _ _) _
  · exact sees_bind (sees_liftCollector (g := fun _ => []) _ fun _ _ => List.nil_subset _) fun _ =>
      sees_pure (List.nil_subset _)

theorem sees_round (remaining : ℕ) : ∀ (tiers : List Tier) (c : UtxoCollector),
    Sees prober args s₀ t₀ [] (Funder.round args remaining tiers c) fun _ => []
  | [], _ => sees_pure (List.nil_subset _)
  | tier :: tiers, c => by
    refine sees_bind (sees_fromTier remaining tier c) fun r => ?_
    dsimp only
    split
    · exact sees_pure (List.nil_subset _)
    · exact sees_round remaining tiers r.2

/-- Arithmetic sees no coins. -/
theorem sees_arith (r : Except FundErr α) :
    Sees prober args s₀ t₀ [] (Funder.liftCollector r) fun _ => [] :=
  sees_liftCollector r fun _ _ => List.nil_subset _

theorem sees_boundedTieredClaim : ∀ (n : ℕ) (c : UtxoCollector),
    Sees prober args s₀ t₀ [] (Funder.boundedTieredClaim args n c) fun _ => []
  | 0, _ => sees_throw _
  | n + 1, c => by
    refine sees_bind (sees_arith _) fun funded => ?_
    split
    · exact sees_pure (List.nil_subset _)
    · refine sees_bind (sees_arith _) fun remaining => ?_
      split
      · exact sees_pure (List.nil_subset _)
      · refine sees_bind (sees_round _ _ c) fun r => ?_
        dsimp only
        split
        · exact sees_bind (sees_throw _) fun _ => sees_boundedTieredClaim n r.2
        · exact sees_boundedTieredClaim n r.2

theorem sees_probe : ∀ tiers : List Tier,
    Sees prober args s₀ t₀ [] (Funder.probe args tiers) fun _ => []
  | [] => sees_pure (List.nil_subset _)
  | tier :: tiers => by
    refine sees_bind (g := fun _ => []) (sees_ask fun s t h => ?_) fun r => ?_
    · obtain ⟨ha, h'⟩ := twins_claimableExists (Funder.scope args tier) rfl 0 h
      unfold call
      split
      · exact ⟨congrArg some ha, h'⟩
      · exact ⟨rfl, h⟩
    · split
      · exact sees_pure (List.nil_subset _)
      · exact sees_pure (List.nil_subset _)
      · exact sees_pure (List.nil_subset _)
      · exact sees_probe tiers

theorem sees_orHiddenInventory {x : FundM α} (hx : Sees prober args s₀ t₀ [] x fun _ => []) :
    Sees prober args s₀ t₀ [] (Funder.orHiddenInventory args x) fun _ => [] := by
  refine sees_bind (sees_attempt hx) fun r => ?_
  split
  · exact sees_pure (List.nil_subset _)
  · refine sees_bind (sees_probe _) fun t => ?_
    split <;> exact sees_throw _
  · exact sees_throw _

theorem sees_claimExactTiers : ∀ (tiers : List Tier) (n : ℕ) (ops : List Outpoint),
    Sees prober args s₀ t₀ ops (Funder.claimExactTiers args tiers n) fun us => ops ++ us.map
      (·.outpoint)
  | [], _, _ => sees_pure (by simp)
  | tier :: tiers, n, ops => by
    unfold Funder.claimExactTiers
    split
    · exact sees_pure (by simp)
    · refine sees_bind (sees_claimExact tier args.denomination n) fun got => ?_
      refine sees_bind (sees_claimExactTiers tiers (n - got.length) _) fun more => sees_pure ?_
      simp [List.append_assoc]

theorem sees_claimExactFastPath (fees : FeeCalc) (c : UtxoCollector) :
    Sees prober args s₀ t₀ [] (Funder.claimExactFastPath fees args c) fun _ => [] := by
  unfold Funder.claimExactFastPath
  dsimp only
  split
  · exact sees_throw _
  · refine sees_bind (sees_arith _) fun _ => sees_bind (sees_arith _) fun need => ?_
    split
    · exact sees_pure (List.nil_subset _)
    · refine sees_bind (sees_claimExactTiers _ _ []) fun claimed => ?_
      exact sees_giveBack (fun _ _ => consumeExact_suffix) (List.Subset.refl _) _

theorem sees_tieredClaim (rounds : ℕ) (c : UtxoCollector) :
    Sees prober args s₀ t₀ [] (Funder.tieredClaim rounds args c) fun _ => [] :=
  sees_orHiddenInventory (sees_bind (sees_boundedTieredClaim _ c) fun _ => sees_arith _)

theorem sees_fundOnce (fees : FeeCalc) (rounds : ℕ) :
    Sees prober args s₀ t₀ [] (Funder.fundOnce fees rounds args) fun _ => [] := by
  refine sees_bind (sees_arith _) fun c => ?_
  split
  · refine sees_bind (sees_claimExactFastPath fees c) fun c => sees_bind (sees_arith _) fun b => ?_
    split
    · exact sees_arith _
    · exact sees_tieredClaim rounds c
  · exact sees_tieredClaim rounds c

theorem sees_release : Sees prober args s₀ t₀ [] (Funder.release args.userID args.reservation)
    fun _ => [] := by
  refine sees_bind (g := fun _ => []) (sees_ask fun s t h => ?_) fun _ =>
      sees_pure (List.nil_subset _)
  exact twins_answer (fun _ i j _ hij _ => discreet_releaseReservation args.reservation hij) h

theorem sees_attempts (fees : FeeCalc) (rounds : ℕ) : ∀ n : ℕ,
    Sees prober args s₀ t₀ [] (Funder.attempts fees rounds args n) fun _ => []
  | 0 => sees_throw _
  | n + 1 => by
    refine sees_bind (sees_attempt (sees_fundOnce fees rounds)) fun r => ?_
    rcases r with e | r
    · dsimp only
      split
      · refine sees_bind sees_release fun _ => ?_
        split
        · exact sees_attempts fees rounds n
        · exact sees_throw _
      · exact sees_throw _
    · exact sees_pure (List.nil_subset _)

theorem sees_fund (fees : FeeCalc) (rounds : ℕ) :
    Sees prober args s₀ t₀ [] (Funder.fund fees rounds args) fun _ => [] := by
  unfold Funder.fund
  split
  · exact sees_throw _
  · exact sees_attempts fees rounds _

end Fund

variable {p : Provider} {env : Env} {userID : UserID} {args : CreateActionArgs}

theorem blind_resolveProvidedInput (i : CreateActionInput) :
    Uow.Blind (Twins u ops s₀ t₀) (resolveProvidedInput env userID i) := by
  refine Uow.blind_bind (blind_metaQuery _) fun row => ?_
  rcases row with _ | row
  · dsimp only
    split
    · exact Uow.blind_pure _
    · exact Uow.blind_throw _
  · exact Uow.blind_pure _

theorem blind_changeBasketCount : Uow.Blind (Twins u ops s₀ t₀) (changeBasketCount p userID) := by
  unfold changeBasketCount
  split
  · exact Uow.blind_pure _
  · exact blind_metaQuery _

theorem blind_reserveProvidedInputs (reference : Token) (named : List Outpoint) :
    Uow.Blind (Twins u [] s₀ t₀) (reserveProvidedInputs u reference named) := by
  unfold reserveProvidedInputs
  split
  · exact Uow.blind_pure _
  · refine blind_utxoStmt fun now i j _ hij _ => ?_
    obtain ⟨ha, hedit⟩ := discreet_reserveOutpoints now reference named hij
    exact ⟨by simp only [joinBatch, ha], hedit⟩

theorem blind_liftFund (r : Except FundErr α) : Uow.Blind (Twins u ops s₀ t₀) (liftFund r) := by
  rcases r with e | a
  · exact Uow.blind_throw _
  · exact Uow.blind_pure _

theorem blind_persistCreateAction (reference : Token) (provided : List ResolvedInput)
    (fundRes : FundResult) :
    Uow.Blind (Twins u ops s₀ t₀)
      (persistCreateAction p env userID reference args provided fundRes) := by
  unfold persistCreateAction
  refine Uow.blind_bind (blind_liftFund _) fun total => Uow.blind_bind ?_ fun _ =>
    Uow.blind_bind (blind_metaStmt _) fun id => Uow.blind_bind ?_ fun _ =>
    Uow.blind_bind (blind_metaQuery _) fun _ => Uow.blind_pure _
  · unfold require
    split
    · exact Uow.blind_pure _
    · exact Uow.blind_throw _
  · exact Uow.blind_forM (fun x => Uow.blind_bind (blind_metaStmt _) fun _ => Uow.blind_pure _) _

theorem blind_fund (fa : FundArgs) (hu : fa.userID = u) :
    Uow.Blind (Twins u [] s₀ t₀) (runProg p.funding.prober (fundProg p fa)) := by
  subst hu
  intro s t h
  obtain ⟨ha, h'⟩ := sees_fund p.funding.fees p.funding.rounds s t h
  exact ⟨congrArg Except.ok ha, h'.owning (owns_nil _)⟩

theorem blind_orRelease {reference : Token} {x : Work α} (hx : Uow.Blind (Twins u [] s₀ t₀) x) :
    Uow.Blind (Twins u [] s₀ t₀) (orRelease u reference x) := by
  refine Uow.blind_bind (Uow.blind_attempt hx) fun r => ?_
  rcases r with e | a
  · refine Uow.blind_bind (Uow.blind_bind (Uow.blind_attempt ?_) fun _ => Uow.blind_pure _) fun _ =>
      Uow.blind_throw _
    refine blind_utxoStmt fun _ i j _ hij _ => ?_
    obtain ⟨ha, hedit⟩ := discreet_releaseReservation reference hij
    exact ⟨by simp only [liftUtxo, ha], hedit⟩
  · exact Uow.blind_pure _

variable (p env args) in
theorem blind_createAction : Uow.Blind (Twins userID [] s₀ t₀)
    (createAction p env userID args) := by
  unfold createAction
  refine Uow.blind_bind (Uow.blind_mapM blind_resolveProvidedInput _) fun provided =>
    Uow.blind_bind blind_changeBasketCount fun count => ?_
  rcases hfa : fundArgs p userID env.reference args provided count with e | fa
  · exact Uow.blind_throw _
  have hfund : Uow.Blind (Twins userID [] s₀ t₀) (runProg p.funding.prober (fundProg p fa)) :=
    blind_fund fa (fundArgs_ok hfa).1
  rcases p.mode with _ | _
  · exact blind_doUnit (Uow.blind_bind (blind_reserveProvidedInputs _ _) fun _ =>
      Uow.blind_bind hfund fun r =>
      Uow.blind_bind (blind_liftFund r) fun fundRes => blind_persistCreateAction _ _ _)
  · exact Uow.blind_bind (blind_orRelease (blind_reserveProvidedInputs _ _)) fun _ =>
      Uow.blind_bind hfund fun r =>
      Uow.blind_bind (blind_liftFund r) fun fundRes =>
        blind_orRelease (blind_doUnit (blind_persistCreateAction _ _ _))

/-- A call in a session and in one with another inventory: it answers the same and leaves the same
coins of the user, and in both the others keep what they have. -/
structure Undisturbed (p : Provider) (env : Env) (userID : UserID) (args : CreateActionArgs)
    (s t : Session Db) :
    Prop where
  reply : (createActionReply p env userID args s).1 = (createActionReply p env userID args t).1
  own : Alike userID (createActionReply p env userID args s).2.db.utxo
      (createActionReply p env userID args t).2.db.utxo
  others_left : Others userID s.db.utxo (createActionReply p env userID args s).2.db.utxo
  others_right : Others userID t.db.utxo (createActionReply p env userID args t).2.db.utxo

/-- The session with another inventory. -/
def stocked (s : Session Db) (i : Inventory) : Session Db :=
  { s with db := { s.db with utxo := i } }

/-- Whatever coins the others have, an action ends the same for its user, and the others keep what
they have. -/
theorem createAction_noninterference (p : Provider) (env : Env) (userID : UserID)
    (args : CreateActionArgs)
    (s : Session Db) (i : Inventory) (hn : Numbered s.db.utxo) (hi : Alike userID s.db.utxo i) :
    Undisturbed p env userID args s (stocked s i) := by
  have hstart : Twins userID [] s (stocked s i) s (stocked s i) :=
    ⟨⟨i, rfl⟩, hn, hi, owns_nil _, fun _ _ => Iff.rfl, fun _ _ => Iff.rfl⟩
  obtain ⟨ha, h⟩ := blind_createAction p env args s (stocked s i) hstart
  exact ⟨congrArg (Except.mapError (reportError p.mode)) ha, h.alike, h.left, h.right⟩

/-- The coins of `plainDb`, and one of another user before them. -/
def crowded : Inventory :=
  ⟨⟨[{ plainCoin 2 7000 3 with userID := 2 }, plainCoin 0 600 1, plainCoin 1 50000 2], by
      decide⟩, 3⟩

theorem createAction_noninterference_crowded :
    Undisturbed (plainProvider .b) plainEnv 1 plainArgs busySession
      (stocked busySession crowded) := by
  refine createAction_noninterference (plainProvider .b) plainEnv 1 plainArgs busySession
      crowded ?_ ?_
  · intro r hr r' hr' hseq
    simp only [busySession, plainDb, Table.mem_def, List.mem_cons, List.not_mem_nil,
        or_false] at hr hr'
    rcases hr with rfl | rfl <;> rcases hr' with rfl | rfl
        <;> first | rfl | exact absurd hseq (by decide)
  · intro r hu
    have hne : r ≠ { plainCoin 2 7000 3 with userID := 2 } := by
      rintro rfl
      exact absurd hu (by decide)
    simp [busySession, plainDb, crowded, Table.mem_def, hne]

end Storage

end ArcadeToolbox
