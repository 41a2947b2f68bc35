import ArcadeToolbox.System.Mined

/-!
# The tier of the change under concurrent records

A SEEN record promotes the change to the unproven tier whatever the status is by then. One that was
routed before a MINED record committed takes the coins of a completed transaction back to that tier.

Of the coins of one transaction, the units that apply records add none, and all but its own SEEN
lift a tier to mined or leave it alone. So where no SEEN of it commits while it is completed, all
its change is mined.
-/

namespace ArcadeToolbox

open Txn Uow

/-- There is a change row of `T` at this index, with or without a basket. -/
def Metadata.changeAt (T : TxID) (m : Metadata) (vout : ℕ) (inBasket : Bool) : Prop :=
  ∃ o ∈ m.outputs, o.change = true ∧ m.outputTxID o = some T ∧ o.vout = vout
    ∧ o.basket.isSome = inBasket

/-- The coins of all change outputs of `T` are mined. -/
def ChangeMined (T : TxID) (d : Db) : Prop :=
  ∀ o ∈ d.metadata.outputs, o.change = true → d.metadata.outputTxID o = some T →
    ∀ r ∈ d.utxo.get ⟨T, o.vout⟩, r.tier = .mined

instance (T : TxID) (d : Db) : Decidable (ChangeMined T d) :=
  inferInstanceAs (Decidable (∀ o ∈ d.metadata.outputs, _ → _ → ∀ r ∈ d.utxo.get ⟨T, o.vout⟩, _))

/-- The coins of change outputs that no promotion names are mined. -/
def UnnamedMined (T : TxID) (d : Db) : Prop :=
  ∀ o ∈ d.metadata.outputs, o.change = true → d.metadata.outputTxID o = some T →
    ⟨T, o.vout⟩ ∉ d.metadata.changeOutpoints [T] → ∀ r ∈ d.utxo.get ⟨T, o.vout⟩, r.tier = .mined

instance (T : TxID) (d : Db) : Decidable (UnnamedMined T d) :=
  inferInstanceAs (Decidable (∀ o ∈ d.metadata.outputs, _ → _ → _ →
      ∀ r ∈ d.utxo.get ⟨T, o.vout⟩, _))

variable {T : TxID} {d d' : Db} {m m' : Metadata} {free : Bool} {vout : ℕ}

theorem mem_changeOutpoints_iff_changeAt :
    ⟨T, vout⟩ ∈ m.changeOutpoints [T] ↔ m.changeAt T vout true := by
  rw [Metadata.mem_changeOutpoints]
  constructor
  · rintro ⟨o, ho, hc, hb, ht, -, hv⟩
    exact ⟨o, ho, hc, ht, hv, hb⟩
  · rintro ⟨o, ho, hc, ht, hv, hb⟩
    exact ⟨o, ho, hc, hb, ht, List.mem_singleton_self T, hv⟩

theorem changeMined_iff : ChangeMined T d ↔ ∀ vout b, d.metadata.changeAt T vout b →
    ∀ r, d.utxo.get ⟨T, vout⟩ = some r → r.tier = .mined := by
  constructor
  · rintro h _ _ ⟨o, ho, hc, ht, rfl, -⟩
    exact h o ho hc ht
  · intro h o ho hc ht
    exact h o.vout _ ⟨o, ho, hc, ht, rfl, rfl⟩

theorem unnamedMined_iff : UnnamedMined T d ↔ ∀ vout b, d.metadata.changeAt T vout b →
    ¬ d.metadata.changeAt T vout true → ∀ r, d.utxo.get ⟨T, vout⟩ = some r → r.tier = .mined := by
  constructor
  · rintro h _ _ ⟨o, ho, hc, ht, rfl, -⟩ hno
    exact h o ho hc ht (mem_changeOutpoints_iff_changeAt.not.mpr hno)
  · intro h o ho hc ht hno
    exact h o.vout _ ⟨o, ho, hc, ht, rfl, rfl⟩ (mem_changeOutpoints_iff_changeAt.not.mp hno)

theorem changeAt_congr (ho : m'.outputs = m.outputs) (ht : ∀ o, m'.outputTxID o = m.outputTxID o)
    (b : Bool) : m'.changeAt T vout b ↔ m.changeAt T vout b := by
  simp only [Metadata.changeAt, ho, ht]

/-- The coins of `T`: none is new, and a tier is lifted to mined or kept, or the coin is one that a
promotion names and `free` says that it may be moved. -/
def TiersKept (T : TxID) (free : Bool) (m : Metadata) (i i' : Inventory) : Prop :=
  ∀ vout r', i'.get ⟨T, vout⟩ = some r' → ∃ r, i.get ⟨T, vout⟩ = some r
    ∧ (r'.tier = r.tier ∨ r'.tier = .mined ∨ free = true ∧ m.changeAt T vout true)

/-- The rows of the change stay, and so do their tiers. -/
structure ChangeKept (T : TxID) (free : Bool) (s s' : Session Db) : Prop where
  change : ∀ vout b, s'.db.metadata.changeAt T vout b ↔ s.db.metadata.changeAt T vout b
  tiers : TiersKept T free s.db.metadata s.db.utxo s'.db.utxo

theorem TiersKept.refl (i : Inventory) : TiersKept T free m i i :=
  fun _ r' h => ⟨r', h, Or.inl rfl⟩

instance : IsPreorder (Session Db) (ChangeKept T free) where
  refl s := ⟨fun _ _ => Iff.rfl, TiersKept.refl _⟩
  trans s s₁ s₂ h h' := by
    refine ⟨fun v b => (h'.change v b).trans (h.change v b), fun v r₂ hr₂ => ?_⟩
    obtain ⟨r₁, hr₁, h₂⟩ := h'.tiers v r₂ hr₂
    obtain ⟨r, hr, h₁⟩ := h.tiers v r₁ hr₁
    refine ⟨r, hr, ?_⟩
    rcases h₂ with h₂ | h₂ | ⟨hf, hv⟩
    · rwa [h₂]
    · exact Or.inr (Or.inl h₂)
    · exact Or.inr (Or.inr ⟨hf, (h.change v true).mp hv⟩)

variable {s s' : Session Db}

theorem ChangeKept.of_waits (h : Waits s s') : ChangeKept T free s s' := by
  have hdb := h.db
  refine ⟨fun _ _ => by rw [hdb], ?_⟩
  rw [hdb]
  exact TiersKept.refl _

/-- What is mined stays mined. -/
theorem ChangeKept.mined (h : ChangeKept T false s s') (hm : ChangeMined T s.db) :
    ChangeMined T s'.db := by
  rw [changeMined_iff] at hm ⊢
  intro v b hv r' hr'
  obtain ⟨r, hr, ht | ht | ht⟩ := h.tiers v r' hr'
  · rw [ht]
    exact hm v b ((h.change v b).mp hv) r hr
  · exact ht
  · cases ht.1

theorem ChangeKept.unnamed (h : ChangeKept T free s s')
    (hm : UnnamedMined T s.db) : UnnamedMined T s'.db := by
  rw [unnamedMined_iff] at hm ⊢
  intro v b hv hno r' hr'
  have hno := (h.change v true).not.mp hno
  obtain ⟨r, hr, ht | ht | ht⟩ := h.tiers v r' hr'
  · rw [ht]
    exact hm v b ((h.change v b).mp hv) hno r hr
  · exact ht
  · exact absurd ht.2 hno

namespace Storage

variable {α : Type} {p : Provider} {env : Env}

theorem changeKept_metaStmt {f : Time → Metadata → Except Err α × Metadata}
    (hf : ∀ t m, (f t m).2.outputs = m.outputs ∧ ∀ o, (f t m).2.outputTxID o = m.outputTxID o) :
    Moves (ChangeKept T free) (metaStmt f) :=
  moves_stmt (fun _ _ => ChangeKept.of_waits) _ fun s =>
    ⟨fun _ b => changeAt_congr (hf s.now s.db.metadata).1 (hf s.now s.db.metadata).2 b,
        TiersKept.refl _⟩

theorem changeKept_metaQuery (f : Metadata → α) : Moves (ChangeKept T free) (metaQuery f) :=
  moves_query (fun _ _ => ChangeKept.of_waits) _ _

theorem changeKept_note (e : Event) : Moves (ChangeKept T free) (note e) := fun _ =>
  ⟨fun _ b => changeAt_congr rfl (fun _ => rfl) b, TiersKept.refl _⟩

theorem changeKept_noteIf (b : Bool) (e : Event) : Moves (ChangeKept T free) (noteIf b e) := by
  unfold noteIf
  split
  · exact changeKept_note e
  · exact moves_pure _

theorem changeKept_utxoStmt {f : Time → Inventory → Except Err α × Inventory}
    (hf : ∀ t m i, TiersKept T free m i (f t i).2) : Moves (ChangeKept T free) (utxoStmt f) :=
  moves_stmt (fun _ _ => ChangeKept.of_waits) _ fun _ => ⟨fun _ _ => Iff.rfl, hf _ _ _⟩

theorem changeKept_doUnit {mode : Mode} {x : Work α} (hx : Moves (ChangeKept T free) x) :
    Moves (ChangeKept T free) (doUnit mode x) := by
  intro s
  have h := hx s
  unfold doUnit atomically
  rcases hs : x s with ⟨e | a, s'⟩ <;> rw [hs] at h
  · cases mode
    · exact ⟨fun _ _ => Iff.rfl, TiersKept.refl _⟩
    · exact ⟨fun _ _ => Iff.rfl, h.tiers⟩
  · exact h

theorem changeKept_write (w : KnownWrite) (t : TxID) :
    Moves (ChangeKept T free) (KnownTxRepo.write w t) :=
  changeKept_metaStmt fun _ _ => ⟨Metadata.writeKnownOne_outputs _ _ _ _,
    fun o => Metadata.outputTxID_writeKnownOne _ _ _ o⟩

theorem changeKept_bulkWrite (w : KnownWrite) (ts : List TxID) :
    Moves (ChangeKept T free) (KnownTxRepo.bulkWrite w ts) :=
  changeKept_metaStmt fun _ _ => ⟨rfl, fun _ => rfl⟩

theorem changeKept_updateStatusByTxID (t : TxID) (st : TxStatus) (expected : List TxStatus) :
    Moves (ChangeKept T free) (TransactionsRepo.updateStatusByTxID t st expected) := by
  refine changeKept_metaStmt fun _ m => ?_
  rw [Metadata.writeTxOr_snd]
  exact ⟨rfl, fun o => Metadata.outputTxID_writeStatus _ _ _ o⟩

theorem changeKept_bulkUpdateStatusByTxIDs (ts : List TxID) (st : TxStatus)
    (expected : List TxStatus) :
    Moves (ChangeKept T free) (TransactionsRepo.bulkUpdateStatusByTxIDs ts st expected) :=
  changeKept_metaStmt fun _ _ => ⟨rfl, fun o => Metadata.outputTxID_writeStatus _ _ _ o⟩

theorem changeAt_markSpent (m : Metadata) (id : TransactionID) (sel : OutputRow → Bool) (b : Bool) :
    Metadata.changeAt T { m with
        outputs := m.outputs.update sel (fun o => { o with spentBy := some id }) fun _ =>
          rfl } vout b
      ↔ m.changeAt T vout b := by
  have hmem : ∀ x, x ∈ m.outputs.update sel (fun o => { o with spentBy := some id })
      (fun _ => rfl) ↔
      ∃ o ∈ m.outputs, x = if sel o then { o with spentBy := some id } else o := fun x =>
    @Table.mem_update _ _ _ m.outputs sel (fun o => { o with spentBy := some id }) (fun _ => rfl) x
  constructor
  · rintro ⟨x, hx, hrow⟩
    obtain ⟨o, ho, rfl⟩ := (hmem x).mp hx
    refine ⟨o, ho, ?_⟩
    split at hrow <;> exact hrow
  · rintro ⟨o, ho, hrow⟩
    refine ⟨_, (hmem _).mpr ⟨o, ho, rfl⟩, ?_⟩
    split <;> exact hrow

theorem changeKept_markSpent (id : TransactionID) (ids : List OutputID) :
    Moves (ChangeKept T free) (OutputsRepo.markSpent id ids) :=
  moves_stmt (fun _ _ => ChangeKept.of_waits) _ fun s =>
    ⟨fun _ b => changeAt_markSpent s.db.metadata id _ b, TiersKept.refl _⟩

variable {i : Inventory} {ops : List Outpoint}

theorem tiersKept_drop (q : Row → Bool) : TiersKept T free m i (i.drop q) := by
  intro v r' h
  rw [Inventory.get_drop, Option.filter_eq_some_iff] at h
  exact ⟨r', h.1, Or.inl rfl⟩

theorem tiersKept_remove (force : Bool) : TiersKept T free m i (i.remove ops force).2 :=
  tiersKept_drop _

theorem tiersKept_removeSpentBy (t : TxID) : TiersKept T free m i (i.removeSpentBy t).2 :=
  tiersKept_drop _

theorem tiersKept_unfreeze : TiersKept T free m i (i.unfreeze ops).2 := by
  intro v r' h
  unfold Inventory.unfreeze at h
  rw [Inventory.get_setFrozen] at h
  obtain ⟨r, hr, rfl⟩ := Option.map_eq_some_iff.mp h
  exact ⟨r, hr, Or.inl (by split <;> rfl)⟩

theorem tiersKept_spend : ∀ (sps : List SpendOp) (i : Inventory),
    TiersKept T free m i (i.spend true sps).2
  | [], _ => TiersKept.refl _
  | sp :: sps, i => by
    intro v r' h
    obtain ⟨r1, hr1, ht1⟩ := tiersKept_spend sps (Inventory.spendOne sp true i).2 v r' h
    rcases Inventory.spendOne_cases sp true i with he | ⟨-, he⟩ <;> rw [he] at hr1
    · exact ⟨r1, hr1, ht1⟩
    · rw [Inventory.get_spent] at hr1
      obtain ⟨r, hr, rfl⟩ := Option.map_eq_some_iff.mp hr1
      refine ⟨r, hr, ?_⟩
      split at ht1 <;> exact ht1

theorem tiersKept_mint {t : Time} {ms : List Mint} (h : ∀ mint ∈ ms, mint.outpoint.txid ≠ T) :
    TiersKept T free m i (i.mint t ms).2 := by
  intro v r' hr'
  rw [Inventory.get_mint_of_ne fun mint hm he => h mint hm (congrArg Outpoint.txid he)] at hr'
  exact ⟨r', hr', Or.inl rfl⟩

theorem tiersKept_promote {tier : Tier} (h : tier = .mined ∨ ∀ v, ⟨T, v⟩ ∈ ops →
    free = true ∧ m.changeAt T v true) : TiersKept T free m i (i.promote ops tier).2 := by
  intro v r' hr'
  rw [Inventory.get_promote] at hr'
  obtain ⟨r, hr, rfl⟩ := Option.map_eq_some_iff.mp hr'
  refine ⟨r, hr, ?_⟩
  split <;> rename_i hop
  · exact Or.inr (h.imp id fun h => h v hop)
  · exact Or.inl rfl

/-- A promotion names coins of the transactions it is for. -/
theorem changeKept_promoteBatch {ts : List TxID} {tier : Tier}
    (h : tier = .mined ∨ free = true ∨ T ∉ ts) :
    Moves (ChangeKept T free) (promoteBatch ts tier) := by
  intro s
  refine bind_at ?_ fun ops s1 hops => ?_
  · unfold changeOutpointsByTxIDs
    split
    · exact moves_pure _ s
    · exact moves_bind (changeKept_metaQuery _) (fun _ => moves_pure _) s
  obtain ⟨hw, rfl⟩ := changeOutpointsByTxIDs_ok hops
  split
  · exact moves_pure _ s1
  refine bind_at (stmt_at (fun _ _ => ChangeKept.of_waits) fun s2 hw2 => ?_) fun _ _ _ =>
      refl_of _ _
  refine ⟨fun _ _ => Iff.rfl, tiersKept_promote (h.imp id fun h v hv => ?_)⟩
  have hT := Metadata.txid_of_mem_changeOutpoints hv
  refine ⟨h.resolve_right fun hno => hno hT, ?_⟩
  rw [hw2.db, hw.db, ← mem_changeOutpoints_iff_changeAt, Metadata.mem_changeOutpoints]
  obtain ⟨o, ho, hc, hb, ht, -, hvout⟩ := Metadata.mem_changeOutpoints.mp hv
  exact ⟨o, ho, hc, hb, ht, List.mem_singleton_self T, hvout⟩

theorem changeKept_setArcadeStatus (t : TxID) (st : ArcadeStatus) :
    Moves (ChangeKept T free) (setArcadeStatus t st) :=
  moves_tolerate _ (changeKept_write _ _)

theorem changeKept_applySeen {rec : TxRecord} (h : free = true ∨ rec.txid ≠ T) :
    Moves (ChangeKept T free) (applySeen p rec) := by
  have hT : free = true ∨ T ∉ [rec.txid] := h.imp id fun h => by simpa using Ne.symm h
  exact changeKept_doUnit (moves_bind (moves_tolerate _ (changeKept_updateStatusByTxID _ _ _))
      fun _ =>
    moves_bind (moves_tolerate _ (changeKept_write _ _)) fun _ =>
    moves_bind (changeKept_promoteBatch (Or.inr hT)) fun _ => changeKept_setArcadeStatus _ _)

theorem changeKept_applyRejected (rec : TxRecord) : Moves (ChangeKept T free) (applyRejected rec) :=
  moves_bind moves_now fun _ => moves_tolerate _ (changeKept_write _ _)

theorem changeKept_setArcadeStatusBatch (recs : List TxRecord) :
    Moves (ChangeKept T free) (setArcadeStatusBatch recs) :=
  moves_forM _ fun _ _ => changeKept_bulkWrite _ _

theorem changeKept_applySeenBatch {recs : List TxRecord} (h : free = true ∨ T ∉ recs.map (·.txid)) :
    Moves (ChangeKept T free) (applySeenBatch recs) := by
  unfold applySeenBatch
  split
  · exact moves_pure _
  · exact moves_bind (changeKept_bulkUpdateStatusByTxIDs _ _ _) fun _ =>
      moves_bind (changeKept_bulkWrite _ _) fun _ =>
      moves_bind (changeKept_promoteBatch (Or.inr h)) fun _ => changeKept_setArcadeStatusBatch _

theorem changeKept_removeSpentInputs (ops : List Outpoint) :
    Moves (ChangeKept T free) (removeSpentInputs ops) := by
  unfold removeSpentInputs
  split
  · exact moves_pure _
  · exact changeKept_utxoStmt fun _ _ _ => tiersKept_remove true

theorem changeKept_removeSpentBy (t : TxID) :
    Moves (ChangeKept T free) (UtxoStore.removeSpentBy t) :=
  changeKept_utxoStmt fun _ _ _ => tiersKept_removeSpentBy t

theorem changeKept_applyMined (rec : TxRecord) (proof : Proof) :
    Moves (ChangeKept T free) (applyMined p rec proof) :=
  changeKept_doUnit (moves_bind (moves_tolerate _ (changeKept_write _ _)) fun _ =>
    moves_bind (changeKept_setArcadeStatus _ _) fun _ =>
    moves_bind (moves_tolerate _ (changeKept_updateStatusByTxID _ _ _)) fun _ =>
    moves_bind (changeKept_promoteBatch (Or.inl rfl)) fun _ =>
    moves_bind (changeKept_removeSpentBy _) fun _ => moves_pure _)

/-- What a batch does with its mined transactions before it promotes their change. -/
def minedBatchHead (proofs : List (TxRecord × Proof × List Outpoint)) : Work Unit := do
  proofs.forM fun pr => tolerate [.notFound] (KnownTxRepo.setProof pr.1.txid pr.2.1)
  setArcadeStatusBatch (proofs.map (·.1))
  TransactionsRepo.bulkUpdateStatusByTxIDs (proofs.map (·.1.txid)) .completed
    [.sending, .nosend, .unproven, .unprocessed, .completed]

/-- What comes after the promotion. -/
def minedBatchTail (proofs : List (TxRecord × Proof × List Outpoint)) : Work Unit := do
  removeSpentInputs (proofs.flatMap (·.2.2))
  (proofs.filter (·.2.2 = [])).forM fun pr => do
    let _ ← UtxoStore.removeSpentBy pr.1.txid

theorem applyMinedBatch_eq {proofs : List (TxRecord × Proof × List Outpoint)} (h : proofs ≠ []) :
    applyMinedBatch proofs = (do
      minedBatchHead proofs
      promoteBatch (proofs.map (·.1.txid)) .mined
      minedBatchTail proofs) := by
  simp only [applyMinedBatch, minedBatchHead, minedBatchTail, if_neg h, bind_assoc]

theorem changeKept_minedBatchHead (proofs : List (TxRecord × Proof × List Outpoint)) :
    Moves (ChangeKept T free) (minedBatchHead proofs) :=
  moves_bind (moves_forM _ fun _ _ => moves_tolerate _ (changeKept_write _ _)) fun _ =>
    moves_bind (changeKept_setArcadeStatusBatch _) fun _ => changeKept_bulkUpdateStatusByTxIDs _ _ _

theorem changeKept_minedBatchTail (proofs : List (TxRecord × Proof × List Outpoint)) :
    Moves (ChangeKept T free) (minedBatchTail proofs) :=
  moves_bind (changeKept_removeSpentInputs _) fun _ => moves_forM _ fun _ _ =>
    moves_bind (changeKept_removeSpentBy _) fun _ => moves_pure _

theorem changeKept_applyMinedBatch (proofs : List (TxRecord × Proof × List Outpoint)) :
    Moves (ChangeKept T free) (applyMinedBatch proofs) := by
  by_cases h : proofs = []
  · rw [applyMinedBatch, if_pos h]
    exact moves_pure _
  · rw [applyMinedBatch_eq h]
    exact moves_bind (changeKept_minedBatchHead _) fun _ =>
      moves_bind (changeKept_promoteBatch (Or.inl rfl)) fun _ => changeKept_minedBatchTail _

theorem changeKept_batchRest (plan : BatchPlan) :
    Moves (ChangeKept T free) (do
      applyRejectedBatch plan.rejected
      setArcadeStatusBatch plan.arcadeOnly) :=
  moves_bind (moves_forM _ fun _ _ => changeKept_applyRejected _) fun _ =>
    changeKept_setArcadeStatusBatch _

theorem changeKept_applyBatch {plan : BatchPlan} (h : free = true ∨ T ∉ plan.seen.map (·.txid)) :
    Moves (ChangeKept T free) (applyBatch p plan) :=
  changeKept_doUnit (moves_bind (changeKept_applySeenBatch h) fun _ =>
    moves_bind (changeKept_applyMinedBatch _) fun _ => changeKept_batchRest plan)

theorem changeKept_factSpendMinedInputs (k : KnownTx) (spender : TxID) (reservation : Token) :
    Moves (ChangeKept T free) (factSpendMinedInputs p k spender reservation) := by
  unfold factSpendMinedInputs
  split
  · exact moves_pure _
  · split
    · exact moves_pure _
    · exact moves_bind (changeKept_utxoStmt fun _ _ _ => tiersKept_spend _ _) fun _ =>
        moves_failOn _

theorem changeKept_markInputsSpent (u : UserID) (id : TransactionID) (raw : RawTx) :
    Moves (ChangeKept T free) (markInputsSpent p u id raw) := by
  unfold markInputsSpent
  split
  · exact moves_pure _
  · refine moves_bind (changeKept_metaQuery _) fun rows => ?_
    dsimp only
    split
    · exact moves_pure _
    · exact changeKept_markSpent _ _

theorem changeKept_markMinedInputsSpent (k : KnownTx) (row : Option TxRow) :
    Moves (ChangeKept T free) (markMinedInputsSpent p k row) := by
  unfold markMinedInputsSpent
  split
  · exact changeKept_markInputsSpent _ _ _
  · exact moves_pure _

theorem txid_of_remintRow {t : TxID} {tier : Tier} {o : OutputRow} {mint : Mint}
    (h : remintRow t tier o = some mint) : mint.outpoint.txid = t := by
  unfold remintRow at h
  split at h
  · cases h
    rfl
  · cases h

theorem changeKept_remintChangeByTxID {t : TxID} (h : t ≠ T) (tier : Tier) :
    Moves (ChangeKept T free) (remintChangeByTxID t tier) := by
  refine moves_bind (changeKept_metaQuery _) fun rows => ?_
  dsimp only
  have hmints : ∀ mint ∈ rows.filterMap fun o => remintRow t tier o.1, mint.outpoint.txid ≠ T := by
    intro mint hm
    obtain ⟨o, -, ho⟩ := List.mem_filterMap.mp hm
    rw [txid_of_remintRow ho]
    exact h
  split
  · exact moves_pure _
  refine moves_bind (changeKept_utxoStmt fun _ _ _ => tiersKept_mint hmints) fun _ =>
    moves_bind (moves_failOn _) fun _ => moves_bind (changeKept_utxoStmt fun _ _ _ =>
      tiersKept_promote (Or.inr fun v hv => ?_)) fun _ =>
    moves_bind (moves_attempt (changeKept_utxoStmt fun _ _ _ => tiersKept_unfreeze)) fun r => ?_
  · obtain ⟨mint, hm, he⟩ := List.mem_map.mp hv
    exact absurd (congrArg Outpoint.txid he) (hmints mint hm)
  · split
    · exact moves_require _ _
    · exact moves_throw _
    · exact moves_pure _

theorem changeKept_commitMinedRepair {k : KnownTx} (h : k.txid ≠ T) (spender : TxID)
    (row : Option TxRow) (proof : Proof) :
    Moves (ChangeKept T free) (commitMinedRepair p k spender row proof) :=
  changeKept_doUnit (moves_bind (changeKept_factSpendMinedInputs _ _ _) fun _ =>
    moves_bind (changeKept_markMinedInputsSpent _ _) fun _ =>
    moves_bind (moves_tolerate _ (changeKept_write _ _)) fun _ =>
    moves_bind (moves_tolerate _ (changeKept_updateStatusByTxID _ _ _)) fun _ =>
    moves_bind (changeKept_remintChangeByTxID h _) fun _ =>
    moves_bind (changeKept_removeSpentBy _) fun _ => moves_pure _)

theorem changeKept_verifyRecord (rec : TxRecord) :
    Moves (ChangeKept T free) (verifyRecord p env rec) :=
  moves_bind (moves_require _ _) fun _ => moves_bind (changeKept_noteIf _ _) fun _ => moves_pure _

end Storage

/-- The tasks of `ApplyStatusUpdate` and `ApplyStatusBatch`. -/
def Task.applies : Task → Bool
  | .status _ | .seen _ | .mined _ | .minedCommit _ _ | .rejected _ | .record _ _ | .repair _ _
  | .repairFind _ _ _ | .repairCommit _ _ _ _ | .batch _ | .batchCommit _ | .mark => true
  | _ => false

/-- The transactions whose change a task promotes to the unproven tier. -/
def Task.sees : Task → List TxID
  | .seen rec => [rec.txid]
  | .batchCommit plan => plan.seen.map (·.txid)
  | _ => []

/-- The transaction a task repairs. -/
def Task.repairs : Task → Option TxID
  | .repairCommit k _ _ _ => some k.txid
  | _ => none

open Storage

variable {p : Provider} {env : Env} {t t' : Task}

theorem applies_of_leads (hl : Leads p env m m' t t') (h : t.applies = true) :
    t'.applies = true := by
  cases hl <;> first | rfl | cases h

theorem changeKept_run (ha : t.applies = true) (hr : t.repairs ≠ some T)
    (hs : free = true ∨ T ∉ t.sees) : Moves (ChangeKept T free) (t.run p env) := by
  cases t with
  | status rec =>
    refine moves_bind ?_ fun found => ?_
    · unfold statusLoad
      split
      · exact moves_pure _
      · exact moves_bind (changeKept_noteIf _ _) fun _ => changeKept_metaQuery _
    · rcases found with _ | k
      · exact moves_pure _
      · dsimp only
        split <;> exact moves_pure _
  | seen rec =>
    exact moves_bind (changeKept_applySeen (hs.imp id fun h => by
        simpa [Task.sees, eq_comm] using h))
      fun _ => moves_pure _
  | mined rec =>
    refine moves_bind (changeKept_verifyRecord rec) fun o => ?_
    cases o <;> exact moves_pure _
  | minedCommit rec proof =>
    exact moves_bind (changeKept_applyMined rec proof) fun _ => moves_pure _
  | rejected rec => exact moves_bind (changeKept_applyRejected rec) fun _ => moves_pure _
  | record x st => exact moves_bind (changeKept_setArcadeStatus x st) fun _ => moves_pure _
  | repair rec k =>
    refine moves_bind (moves_bind (moves_require _ _) fun _ =>
        changeKept_setArcadeStatus _ _) fun _ =>
      moves_bind (changeKept_verifyRecord rec) fun o => ?_
    cases o <;> exact moves_pure _
  | repairFind k spender proof =>
    refine moves_bind (moves_bind (moves_attempt (changeKept_metaQuery _)) fun r => ?_) fun _ =>
      moves_pure _
    cases r <;> exact moves_pure _
  | repairCommit k spender row proof =>
    have hk : k.txid ≠ T := fun h => hr (congrArg some h)
    exact moves_bind (changeKept_commitMinedRepair hk spender row proof) fun _ => moves_pure _
  | batch recs =>
    refine moves_bind (moves_bind (moves_forM _ fun _ _ => changeKept_note _) fun _ =>
        ?_) fun known =>
      moves_bind (moves_bind (moves_forM _ fun _ _ => changeKept_note _) fun _ =>
          moves_pure _) fun _ =>
      moves_pure _
    split
    · exact moves_pure _
    · exact changeKept_metaQuery _
  | batchCommit plan =>
    change Moves (ChangeKept T free) (runBatchCommit p plan)
    unfold runBatchCommit
    split
    · exact moves_pure _
    · exact moves_bind (changeKept_applyBatch hs) fun _ => moves_pure _
  | mark => exact moves_pure _
  | _ => cases ha

def Life.isCompleted (L : Life) : Prop := ∃ k, L.row = some k ∧ k.status = .completed

/-- Only a proof completes a transaction. -/
theorem sets_completed {w : KnownWrite} (hw : w.lawful = true) (h : w.sets = some .completed) :
    ∃ pr, w = .setProof pr := by
  cases w with
  | setProof pr => exact ⟨pr, rfl⟩
  | upsert => cases hw
  | updateStatus | transitionSuspect | casFromPreBroadcast | clearProof =>
    cases h
    cases hw
  | _ => cases h

theorem Life.isCompleted.of_step {A : LifeOp → Prop}
    (hA : ∀ o, A o → o.Lawful ∧ o.Attested fun _ => False) {L L' : Life} {now : Time}
    (hs : Life.Step T A now L L') (h : L'.isCompleted) : L.isCompleted := by
  obtain ⟨k', hk', hst⟩ := h
  cases hs with
  | note => exact ⟨k', hk', hst⟩
  | write ha =>
    cases hk'
    obtain ⟨hlaw, hatt⟩ := hA _ ha
    rw [KnownWrite.edit_status] at hst
    refine ⟨_, rfl, ?_⟩
    rename_i w k _ _ _
    rcases hw : w.sets with _ | st <;> rw [hw] at hst
    · exact hst
    · obtain ⟨pr, rfl⟩ := sets_completed hlaw (hw.trans (congrArg some hst))
      exact (hatt.2 pr rfl).elim
  | storeNew ha | store ha =>
    cases hk'
    have hpre : ProvenTxReqStatus.completed ∈ ProvenTxReqStatus.preBroadcast := hst ▸ (hA _ ha).1
    exact absurd hpre (by decide)
  | @creditNew proof h ha | @credit proof k h ha =>
    cases hk'
    rcases proof with _ | pr
    · cases hst
    · exact ((hA _ ha).2 pr rfl).elim

theorem isCompleted_of_exec (hc : t.Proves (fun _ => False) T) (s : Shared)
    (h : ((t.exec p env s).1.db.metadata.life T).isCompleted) :
    (s.db.metadata.life T).isCompleted := by
  by_contra hno
  refine (exec_life p env t s T).keeps (I := fun L => ¬ L.isCompleted) ?_ hno h
  intro _ L L' hs hL hL'
  exact hL (hL'.of_step (fun o ho => ⟨ho.lawful, attested_of_touches hc ho⟩) hs)

theorem changeMined_promoteBatch {a : Unit} {ts : List TxID} (hT : T ∈ ts)
    (hu : UnnamedMined T s.db) (h : promoteBatch ts .mined s = (.ok a, s')) :
    ChangeMined T s'.db := by
  have hdb := promoteBatch_ok h
  rw [unnamedMined_iff] at hu
  rw [changeMined_iff, hdb]
  intro v b hv r' hr'
  rw [Inventory.get_promote] at hr'
  obtain ⟨r, hr, rfl⟩ := Option.map_eq_some_iff.mp hr'
  split
  · rfl
  · rename_i hop
    refine hu v b hv (fun hb => hop ?_) r hr
    obtain ⟨o, ho, hc, ht, hvo, hbo⟩ := hb
    exact Metadata.mem_changeOutpoints.mpr ⟨o, ho, hc, hbo, ht, hT, hvo⟩

theorem changeMined_applyMined {a : Unit} {rec : TxRecord} {proof : Proof}
    (hT : rec.txid = T) (hu : UnnamedMined T s.db) (h : applyMined p rec proof s = (.ok a, s')) :
    ChangeMined T s'.db := by
  obtain ⟨_, s1, h1, h⟩ := bind_ok (doUnit_ok h)
  obtain ⟨_, s2, h2, h⟩ := bind_ok h
  obtain ⟨_, s3, h3, h⟩ := bind_ok h
  obtain ⟨_, s4, h4, h⟩ := bind_ok h
  have hk1 : ChangeKept T true s s1 := (moves_tolerate _ (changeKept_write _ _)).run h1
  have hk2 : ChangeKept T true s1 s2 := (changeKept_setArcadeStatus _ _).run h2
  have hk3 : ChangeKept T true s2 s3 :=
    (moves_tolerate _ (changeKept_updateStatusByTxID _ _ _)).run h3
  have hm4 := changeMined_promoteBatch (by simp [hT])
      (hk3.unnamed (hk2.unnamed (hk1.unnamed hu))) h4
  exact ((moves_bind (changeKept_removeSpentBy _) fun _ => moves_pure _).run h).mined hm4

theorem changeMined_applyBatch {a : Unit} {plan : BatchPlan}
    (hT : T ∈ plan.verified.map (·.1.txid)) (hu : UnnamedMined T s.db)
    (h : applyBatch p plan s = (.ok a, s')) : ChangeMined T s'.db := by
  have hne : plan.verified ≠ [] := by
    rintro he
    simp [he] at hT
  obtain ⟨_, s1, h1, h⟩ := bind_ok (doUnit_ok h)
  obtain ⟨_, s2, h2, h⟩ := bind_ok h
  rw [applyMinedBatch_eq hne] at h2
  obtain ⟨_, s3, h3, h2⟩ := bind_ok h2
  obtain ⟨_, s4, h4, h2⟩ := bind_ok h2
  have hk1 : ChangeKept T true s s1 := (changeKept_applySeenBatch (Or.inl rfl)).run h1
  have hk3 : ChangeKept T true s1 s3 := (changeKept_minedBatchHead _).run h3
  have hm4 := changeMined_promoteBatch hT (hk3.unnamed (hk1.unnamed hu)) h4
  have hm2 := ((changeKept_minedBatchTail _).run h2).mined hm4
  exact ((changeKept_batchRest plan).run h).mined hm2

theorem last_snd (x : Work Unit) (s : Session Db) : (last x s).2 = (x s).2 := by
  unfold last
  rw [bind_apply]
  rcases x s with ⟨e | a, s'⟩ <;> rfl

/-- A unit that completes `T` has promoted its change, and one that fails has not completed it. -/
theorem promotes_of_proves (p : Provider) (env : Env) (ha : t.applies = true)
    (hr : t.repairs ≠ some T) (s : Session Db)
    (hu : UnnamedMined T s.db) : t.Proves (fun _ => False) T ∨ ChangeMined T (t.run p env s).2.db
      ∨ (t.run p env s).2.db.metadata = s.db.metadata := by
  cases t with
  | minedCommit rec proof =>
    by_cases hT : rec.txid = T
    · right
      change ChangeMined T (last (applyMined p rec proof) s).2.db
        ∨ (last (applyMined p rec proof) s).2.db.metadata = s.db.metadata
      rw [last_snd]
      rcases hx : applyMined p rec proof s with ⟨e | a, s'⟩
      · exact Or.inr (metadata_of_doUnit_error hx)
      · exact Or.inl (changeMined_applyMined hT hu hx)
    · exact Or.inl fun h => hT h
  | batchCommit plan =>
    by_cases hT : T ∈ plan.verified.map (·.1.txid)
    · right
      have hne : ¬ (plan.seen = [] ∧ plan.verified = [] ∧ plan.rejected = []
          ∧ plan.arcadeOnly = []) := by
        rintro ⟨-, he, -⟩
        simp [he] at hT
      change ChangeMined T (runBatchCommit p plan s).2.db
        ∨ (runBatchCommit p plan s).2.db.metadata = s.db.metadata
      rw [runBatchCommit, if_neg hne, last_snd]
      rcases hx : applyBatch p plan s with ⟨e | a, s'⟩
      · exact Or.inr (metadata_of_doUnit_error hx)
      · exact Or.inl (changeMined_applyBatch hT hu hx)
    · exact Or.inl fun pr hpr h => hT (List.mem_map.mpr ⟨pr, hpr, h⟩)
  | repairCommit k spender row proof => exact Or.inl fun h => hr (congrArg some h)
  | internalizeCommit => cases ha
  | _ => exact Or.inl trivial

/-- `T` is completed. -/
def Db.completes (T : TxID) (d : Db) : Bool := d.metadata.knownTxs.any fun k =>
    k.txid = T && k.status = .completed

theorem completes_iff : d.completes T = true ↔ (d.metadata.life T).isCompleted := by
  unfold Db.completes Life.isCompleted Metadata.life
  rw [Table.any_eq_true]
  simp only [Bool.and_eq_true, decide_eq_true_eq, Table.get?_eq_some]
  constructor
  · rintro ⟨k, hk, ht, hst⟩
    exact ⟨k, ⟨hk, ht⟩, hst⟩
  · rintro ⟨k, ⟨hk, ht⟩, hst⟩
    exact ⟨k, hk, ht, hst⟩

/-- Records are applied and nothing else happens; no SEEN of `T` commits while `T` is completed, and
`T` is not repaired. -/
def RecordStep (T : TxID) (s : System) : Step → Prop
  | .spawn op => ∀ t ∈ op.start, t.applies = true
  | .run i env => ∀ t ∈ Code.top s (.run i env : Step),
      (T ∈ t.sees → s.shared.db.completes T = false) ∧ t.repairs ≠ some T

/-- A completed transaction has its change mined, and change that no promotion names is mined. -/
def TierInv (T : TxID) (d : Db) : Prop := (d.completes T = true → ChangeMined T d)
    ∧ UnnamedMined T d

theorem tierInv_exec (ha : t.applies = true) (hr : t.repairs ≠ some T) (s : Shared)
    (hs : T ∈ t.sees → s.db.completes T = false) (h : TierInv T s.db) :
    TierInv T (t.exec p env s).1.db := by
  obtain ⟨hm, hu⟩ := h
  have hdb : (t.exec p env s).1.db = (t.run p env ⟨s.db, s.now, env.beats, env.busy⟩).2.db := by
    rw [exec_fst]
  have hfree : ChangeKept T true ⟨s.db, s.now, env.beats, env.busy⟩
      (t.run p env ⟨s.db, s.now, env.beats, env.busy⟩).2 := changeKept_run ha hr (Or.inl rfl) _
  refine ⟨fun hc => ?_, hdb ▸ hfree.unnamed hu⟩
  by_cases hbefore : s.db.completes T = true
  · -- the change is mined already, and only a SEEN of the transaction would take it back
    have hno : T ∉ t.sees := fun hT => by simp [hs hT] at hbefore
    have hkept : ChangeKept T false ⟨s.db, s.now, env.beats, env.busy⟩
        (t.run p env ⟨s.db, s.now, env.beats, env.busy⟩).2 := changeKept_run ha hr (Or.inr hno) _
    rw [hdb]
    exact hkept.mined (hm hbefore)
  · have hprove := promotes_of_proves p env ha hr ⟨s.db, s.now, env.beats, env.busy⟩ hu
    rcases hprove with hp | hp | hp
    · exact absurd (completes_iff.mpr (isCompleted_of_exec hp s (completes_iff.mp hc))) hbefore
    · rwa [hdb]
    · rw [completes_iff, hdb, hp] at hc
      exact absurd (completes_iff.mpr hc) hbefore

/-- From every state in which nothing is going on, a completed transaction has its change mined, and
change outputs that have lost their basket have no coin below the mined tier: however records about
any transactions are applied concurrently, singly and in batches, `T` has all its change mined
whenever it is completed, if no SEEN of it commits while it is completed. -/
theorem completed_change_mined (p : Provider) (T : TxID) (s : System) (ls : List Step)
    (hidle : ∀ th ∈ s.threads, th = [])
    (hmined : s.shared.db.completes T = true → ChangeMined T s.shared.db)
    (hunnamed : UnnamedMined T s.shared.db) (h : (wallet p).Along (RecordStep T) s ls) :
    ((wallet p).runs s ls).shared.db.completes T = true →
      ChangeMined T ((wallet p).runs s ls).shared.db := by
  refine (Code.runs_waiting (J := fun d : Shared => TierInv T d.db)
    (A := fun _ t => t.applies = true) (fun _ op hok _ => hok) ?_ ls s h
    ⟨⟨hmined, hunnamed⟩, fun th hth t ht => ?_⟩).1.1
  · intro s l env t hok hr hJ hA
    have hap := hr.waiting hA
    have htop := hr.top
    obtain ⟨i, rest, rfl, -⟩ := hr
    obtain ⟨hs, hrep⟩ := hok t htop
    exact ⟨tierInv_exec hap hrep s.shared hs hJ,
      fun t' ht' => applies_of_leads (exec_leads p env t s.shared ht') hap, hA⟩
  · rw [hidle th hth] at ht
    cases ht

instance (T : TxID) (s : System) : ∀ l : Step, Decidable (RecordStep T s l)
  | .spawn op => inferInstanceAs (Decidable (∀ t ∈ op.start, _))
  | .run i env => inferInstanceAs (Decidable (∀ t ∈ Code.top s (.run i env : Step), _))

/-- The child is created, signed and sent, and the oracle accepts it. -/
def sentChildSteps : List Step :=
  paidSteps ++ createSteps ++
    .spawn (.processAction 1 ⟨true, false, false, some "ref", some "child", some "child", []⟩) ::
      List.replicate 10 (.run 2 { Env.quiet with broadcast := .accepted })

/-- A SEEN record has been routed when a MINED record is applied. -/
def lateSeenSteps : List Step :=
  [.spawn (.applyStatusUpdate (childRecord .seenOnNetwork)), .run 3 Env.quiet,
    .spawn (.applyStatusUpdate (childRecord .mined))] ++ List.replicate 3 (.run 4 Env.mining)
    ++ [.run 3 Env.quiet]

theorem late_seen_demotes_change :
    (∀ th ∈ ((wallet (paidProvider .a)).runs System.initial
      (sentChildSteps ++ lateSeenSteps)).threads,
      th = [])
    ∧ ((wallet (paidProvider .a)).runs System.initial
      (sentChildSteps ++ lateSeenSteps)).shared.db.completes "child" = true
    ∧ ¬ ChangeMined "child" ((wallet (paidProvider .a)).runs System.initial
      (sentChildSteps ++ lateSeenSteps)).shared.db := by
  decide +kernel

/-- The same two records, one after the other. -/
def seenThenMinedSteps : List Step :=
  [.spawn (.applyStatusUpdate (childRecord .seenOnNetwork)), .run 3 Env.quiet, .run 3 Env.quiet,
    .spawn (.applyStatusUpdate (childRecord .mined))] ++ List.replicate 3 (.run 4 Env.mining)

theorem completed_change_mined_in_order :
    ((wallet (paidProvider .a)).runs ((wallet (paidProvider .a)).runs System.initial sentChildSteps)
      seenThenMinedSteps).shared.db.completes "child" = true
    ∧ ChangeMined "child" ((wallet (paidProvider .a)).runs
      ((wallet (paidProvider .a)).runs System.initial sentChildSteps)
        seenThenMinedSteps).shared.db := by
  have hc : ((wallet (paidProvider .a)).runs ((wallet (paidProvider .a)).runs System.initial
      sentChildSteps) seenThenMinedSteps).shared.db.completes "child" = true := by
    decide +kernel
  exact ⟨hc, completed_change_mined (paidProvider .a) "child" _ _ (by decide +kernel)
    (by decide +kernel) (by decide +kernel) (by decide +kernel) hc⟩

end ArcadeToolbox
