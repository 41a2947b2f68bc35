import ArcadeToolbox.Storage.Records
import ArcadeToolbox.System.Completed
import ArcadeToolbox.System.Replays

/-!
# What a verified MINED record leaves

The ordinary apply moves rows and coins that are where an accepted broadcast left them: a
transactions row that was failed stays failed, and change that was removed is not minted again. The
repair does both, but a suspect does not get it. Whether a record that is applied without an error
completes the transaction in all its parts can be read off the state before.
-/

namespace ArcadeToolbox

open Txn Uow

namespace Storage

/-- The transaction is completed in all its parts. -/
structure MinedApplied (p : Provider) (T : TxID) (raw : RawTx) (proof : Proof) (d : Db) : Prop where
  known : ∃ k ∈ d.metadata.knownTxs, k.txid = T ∧ k.status = .completed ∧ k.proof = some proof
  rows : ∀ r ∈ d.metadata.transactions, r.txid = some T → r.status = .completed
  inputs : ∀ op ∈ (p.ledger raw).inputs, ∀ r, d.utxo.get op = some r → r.claimable = false
  change : ∀ o, d.metadata.UnspentChange T o →
    ∃ r, d.utxo.get ⟨T, o.vout⟩ = some r ∧ r.tier = .mined ∧ r.frozen = false

/-- Where the ordinary apply completes a transaction: everything is there already, and what is
missing is the status of the rows and the tier of the coins in a basket. -/
structure MinedReady (p : Provider) (T : TxID) (raw : RawTx) (d : Db) : Prop where
  rows : ∀ r ∈ d.metadata.transactions, r.txid = some T →
    r.status ∈ [.sending, .nosend, .unproven, .unprocessed, .completed]
  inputs : ∀ op ∈ (p.ledger raw).inputs, ∀ r, d.utxo.get op = some r → r.claimable = false
  change : ∀ o, d.metadata.UnspentChange T o →
    ∃ r, d.utxo.get ⟨T, o.vout⟩ = some r ∧ r.spentBy ≠ some T ∧ r.frozen = false
      ∧ (⟨T, o.vout⟩ ∈ d.metadata.changeOutpoints [T] ∨ r.tier = .mined)

/-- Where the repair completes one: only change without a basket has to be there. -/
structure RepairReady (T : TxID) (d : Db) : Prop where
  rows : ∀ r ∈ d.metadata.transactions, r.txid = some T → r.status ∈ minedRepairTxStatuses
  change : ∀ o, d.metadata.UnspentChange T o →
    (∀ r, d.utxo.get ⟨T, o.vout⟩ = some r → r.spentBy ≠ some T)
    ∧ ((∃ o', d.metadata.UnspentChange T o' ∧ o'.vout = o.vout ∧ o'.basket.isSome = true)
      ∨ ∃ r, d.utxo.get ⟨T, o.vout⟩ = some r ∧ r.tier = .mined ∧ r.frozen = false)

variable {p : Provider} {env : Env} {s s' : Session Db} {a : Unit} {rec : TxRecord} {proof : Proof}
  {k : KnownTx} {T : TxID} {raw : RawTx} {d d' : Db}

theorem get_minedUtxo {u : Inventory} {ops : List Outpoint} {op : Outpoint} {r' : Row} :
    ((u.promote ops .mined).2.removeSpentBy T).2.get op = some r' ↔
      ∃ r, u.get op = some r ∧ r.spentBy ≠ some T
        ∧ r' = if op ∈ ops then { r with tier := .mined } else r := by
  rw [Inventory.get_removeSpentBy, Inventory.get_promote, Option.filter_eq_some_iff]
  constructor
  · rintro ⟨h, hs⟩
    obtain ⟨r, hr, rfl⟩ := Option.map_eq_some_iff.mp h
    refine ⟨r, hr, ?_, rfl⟩
    split at hs <;> simpa using hs
  · rintro ⟨r, hr, hs, rfl⟩
    refine ⟨by rw [hr, Option.map_some], ?_⟩
    split <;> simpa using hs

theorem minedApplied_iff_ready (hk : k ∈ s.db.metadata.knownTxs) (hkt : k.txid = rec.txid)
    (h : applyMined p rec proof s = (.ok a, s')) :
    MinedApplied p rec.txid raw proof s'.db ↔ MinedReady p rec.txid raw s.db := by
  obtain ⟨t, t', hdb⟩ := applyMined_ok h
  have hm : s'.db.metadata = minedMetadata rec proof t t' s.db.metadata := by rw [hdb]
  have hu : s'.db.utxo = ((s.db.utxo.promote (s.db.metadata.changeOutpoints [rec.txid])
      .mined).2.removeSpentBy rec.txid).2 := by rw [hdb]
  have hchange : ∀ o, s'.db.metadata.UnspentChange rec.txid o
      ↔ s.db.metadata.UnspentChange rec.txid o := by
    intro o
    simp only [Metadata.UnspentChange, hm, outputs_minedMetadata, outputTxID_minedMetadata]
  have hrows : (∀ r ∈ s'.db.metadata.transactions, r.txid = some rec.txid → r.status = .completed)
      ↔ ∀ r ∈ s.db.metadata.transactions, r.txid = some rec.txid →
        r.status ∈ [.sending, .nosend, .unproven, .unprocessed, .completed] := by
    rw [hm, minedMetadata, Metadata.forall_status_writeTx (by simp),
      Metadata.writeKnownOne_transactions, Metadata.writeKnownOne_transactions]
  constructor
  · intro ha
    refine ⟨hrows.mp ha.rows, fun op hop r hr => ?_, fun o ho => ?_⟩
    · by_contra hc
      have hc : r.claimable = true := by simpa using hc
      have hs : r.spentBy ≠ some rec.txid := by
        simp only [Row.claimable, Bool.and_eq_true, decide_eq_true_eq] at hc
        simp [hc.1.2]
      have := ha.inputs op hop _ (hu ▸ get_minedUtxo.mpr ⟨r, hr, hs, rfl⟩)
      split at this <;> simp_all [Row.claimable]
    · obtain ⟨r', hr', htier, hfrozen⟩ := ha.change o ((hchange o).mpr ho)
      obtain ⟨r, hr, hs, rfl⟩ := get_minedUtxo.mp (hu ▸ hr')
      refine ⟨r, hr, hs, ?_⟩
      split at hfrozen <;> rename_i hop
      · exact ⟨hfrozen, Or.inl hop⟩
      · rw [if_neg hop] at htier
        exact ⟨hfrozen, Or.inr htier⟩
  · intro hready
    refine ⟨?_, hrows.mpr hready.rows, fun op hop r' hr' => ?_, fun o ho => ?_⟩
    · have hget : s'.db.metadata.knownTxs.get? rec.txid
          = some ((KnownWrite.setArcadeStatus rec.status).edit t'
              ((KnownWrite.setProof proof).edit t k)) := by
        rw [hm]
        change ((s.db.metadata.writeKnownOne _ _ _).2.writeKnownOne _ _ _).2.knownTxs.get? _ = _
        rw [Metadata.get?_writeKnownOne, Metadata.get?_writeKnownOne,
            Table.get?_eq_some.mpr ⟨hk, hkt⟩]
        rfl
      obtain ⟨hmem, htx⟩ := Table.get?_eq_some.mp hget
      exact ⟨_, hmem, htx, rfl, rfl⟩
    · obtain ⟨r, hr, -, rfl⟩ := get_minedUtxo.mp (hu ▸ hr')
      have := hready.inputs op hop r hr
      split <;> simpa [Row.claimable] using this
    · obtain ⟨r, hr, hs, hfrozen, hop⟩ := hready.change o ((hchange o).mp ho)
      refine ⟨_, hu ▸ get_minedUtxo.mpr ⟨r, hr, hs, rfl⟩, ?_⟩
      split
      · exact ⟨rfl, hfrozen⟩
      · rename_i hno
        exact ⟨hop.resolve_left hno, hfrozen⟩

theorem mem_remints {m : Metadata} {mint : Mint} : mint ∈ remints T m ↔
    ∃ o basket, m.UnspentChange T o ∧ o.basket = some basket ∧ mint =
      { outpoint := ⟨T, o.vout⟩, userID := o.userID, basket := basket, satoshis := o.satoshis,
        inputSize := defaultP2PKHInputSize, tier := .mined } := by
  constructor
  · intro h
    obtain ⟨x, hx, h⟩ := List.mem_filterMap.mp h
    obtain ⟨ho, hc, ht, hts⟩ := Metadata.mem_changeRows.mp hx
    rw [List.mem_singleton] at hts
    unfold remintRow at h
    split at h
    · rename_i basket hb hs
      exact ⟨x.1, basket, ⟨ho, hc, hts ▸ ht, hs⟩, hb, (Option.some.inj h).symm⟩
    · cases h
  · rintro ⟨o, basket, ⟨ho, hc, ht, hs⟩, hb, rfl⟩
    refine List.mem_filterMap.mpr ⟨(o, T), Metadata.mem_changeRows.mpr ⟨ho, hc, ht, by simp⟩, ?_⟩
    simp [remintRow, hb, hs]

theorem mem_map_remints {m : Metadata} {op : Outpoint} : op ∈ (remints T m).map (·.outpoint) ↔
    ∃ o, m.UnspentChange T o ∧ o.basket.isSome = true ∧ ⟨T, o.vout⟩ = op := by
  constructor
  · intro h
    obtain ⟨mint, hm, rfl⟩ := List.mem_map.mp h
    obtain ⟨o, basket, ho, hb, rfl⟩ := mem_remints.mp hm
    exact ⟨o, ho, by simp [hb], rfl⟩
  · rintro ⟨o, ho, hb, rfl⟩
    obtain ⟨basket, hb⟩ := Option.isSome_iff_exists.mp hb
    exact List.mem_map.mpr ⟨_, mem_remints.mpr ⟨o, basket, ho, hb, rfl⟩, rfl⟩

section Repair

variable {u : Inventory} {mints : List Mint} {t : Time} {op : Outpoint}

theorem get_repairedUtxo : (repairedUtxo T t mints u).get op
    = (((u.mint t mints).2.get op).map fun r =>
        if op ∈ mints.map (·.outpoint) then { r with tier := .mined, frozen := false }
          else r).filter
          fun r => r.spentBy ≠ some T := by
  unfold repairedUtxo Inventory.unfreeze
  rw [Inventory.get_removeSpentBy, Inventory.get_setFrozen, Inventory.get_promote, Option.map_map]
  congr 2
  funext r
  dsimp only [Function.comp]
  split <;> rfl

/-- A coin that is not minted again is kept unless the transaction spent it. -/
theorem get_repairedUtxo_of_not_mem (hop : op ∉ mints.map (·.outpoint)) :
    (repairedUtxo T t mints u).get op = (u.get op).filter fun r => r.spentBy ≠ some T := by
  have hne : ∀ m ∈ mints, m.outpoint ≠ op := by
    rintro m hm rfl
    exact hop (List.mem_map_of_mem hm)
  rw [get_repairedUtxo, Inventory.get_mint_of_ne hne]
  simp only [if_neg hop, Option.map_id_fun', id]

/-- A coin that is minted again is mined and not frozen, unless the transaction had spent it. -/
theorem get_repairedUtxo_of_mem
    (hmint : ∀ e ∈ (u.mint t mints).1, e = none ∨ ∃ op', e = some (.alreadyExists op'))
    (hop : op ∈ mints.map (·.outpoint)) :
    (∃ r, (repairedUtxo T t mints u).get op = some r ∧ r.tier = .mined ∧ r.frozen = false)
      ↔ ∀ r, u.get op = some r → r.spentBy ≠ some T := by
  simp only [get_repairedUtxo, if_pos hop, Option.filter_eq_some_iff, Option.map_eq_some_iff]
  rcases hg : u.get op with _ | r
  · obtain ⟨m, hm, hmop⟩ := List.mem_map.mp hop
    obtain ⟨m', hm', -, seq, hget⟩ := Inventory.get_mint_of_mem hmint m hm hmop hg
    refine iff_of_true ⟨_, ⟨⟨_, hget, rfl⟩, ?_⟩, rfl, rfl⟩ (by simp)
    simp [Inventory.minted]
  · rw [Inventory.get_mint_of_some mints hg]
    constructor
    · rintro ⟨_, ⟨⟨_, hr, rfl⟩, hs⟩, -, -⟩ r' hr'
      cases hr
      cases hr'
      simpa using hs
    · intro h
      exact ⟨_, ⟨⟨r, rfl, rfl⟩, by simpa using h r rfl⟩, rfl, rfl⟩

end Repair

/-- No input is left claimable: a coin that another transaction has spent is spent, and the others
are removed. -/
theorem claimable_spend {u : Inventory} {reservation : Token} {ops : List Outpoint} {op : Outpoint}
    {r : Row} (hres : reservation ≠ "") (hop : op ∈ ops)
    (hr : (u.spend true (ops.map fun o => ⟨o, reservation, T⟩)).2.get op = some r) :
    r.claimable = false := by
  have hown : ∀ sp ∈ ops.map (fun o => (⟨o, reservation, T⟩ : SpendOp)),
      sp.reservation ≠ "" ∧ sp.spendingTxID = T := by
    intro sp hsp
    obtain ⟨o, -, rfl⟩ := List.mem_map.mp hsp
    exact ⟨hres, rfl⟩
  obtain ⟨e, -, he⟩ := Inventory.resolved_of_mem (Inventory.resolved_spend (s := u) hown)
    (List.mem_map_of_mem hop)
  obtain ⟨w, hw, -⟩ := (Inventory.resolved_some hr).mp he
  simp [Row.claimable, hw]

section Repaired

variable {reservation : Token} {outs : Table OutputRow} {t t' : Time}

theorem Repaired.unspentChange_marked (h : Repaired p k raw k.txid reservation proof outs t t' d d')
    (o : OutputRow) : Metadata.UnspentChange k.txid { d.metadata with outputs := outs } o
      ↔ d.metadata.UnspentChange k.txid o := by
  constructor
  · rintro ⟨ho, hc, ht, hs⟩
    exact ⟨(h.outputs o ht).mp ho, hc, ht, hs⟩
  · rintro ⟨ho, hc, ht, hs⟩
    exact ⟨(h.outputs o ht).mpr ho, hc, ht, hs⟩

theorem Repaired.unspentChange (h : Repaired p k raw k.txid reservation proof outs t t' d d')
    (o : OutputRow) : d'.metadata.UnspentChange k.txid o ↔ d.metadata.UnspentChange k.txid o := by
  have houts : d'.metadata.outputs = outs := by
    rw [h.metadata]
    exact Metadata.writeKnownOne_outputs _ _ _ _
  have htxid : d'.metadata.outputTxID o = Metadata.outputTxID
      { d.metadata with outputs := outs } o := by
    rw [h.metadata, Metadata.outputTxID_writeStatus, Metadata.outputTxID_writeKnownOne]
  rw [← h.unspentChange_marked o, Metadata.UnspentChange, houts, htxid]
  rfl

theorem Repaired.rows (h : Repaired p k raw k.txid reservation proof outs t t' d d') :
    (∀ r ∈ d'.metadata.transactions, r.txid = some k.txid → r.status = .completed)
      ↔ ∀ r ∈ d.metadata.transactions, r.txid = some k.txid → r.status ∈ minedRepairTxStatuses := by
  rw [h.metadata, Metadata.forall_status_writeTx (by decide), Metadata.writeKnownOne_transactions]

theorem Repaired.known {k0 : KnownTx} (hk : k0 ∈ d.metadata.knownTxs) (hkt : k0.txid = k.txid)
    (h : Repaired p k raw k.txid reservation proof outs t t' d d') :
    ∃ k' ∈ d'.metadata.knownTxs, k'.txid = k.txid ∧ k'.status = .completed
      ∧ k'.proof = some proof := by
  have hget : d'.metadata.knownTxs.get? k.txid = some ((KnownWrite.setProof proof).edit t k0) := by
    rw [h.metadata]
    change (Metadata.writeKnownOne _ _ _ _).2.knownTxs.get? _ = _
    rw [Metadata.get?_writeKnownOne, Table.get?_eq_some.mpr ⟨hk, hkt⟩]
    rfl
  obtain ⟨hmem, htx⟩ := Table.get?_eq_some.mp hget
  exact ⟨_, hmem, htx, rfl, rfl⟩

theorem Repaired.inputs (hres : reservation ≠ "")
    (hself : ∀ op ∈ (p.ledger raw).inputs, op.txid ≠ k.txid)
    (h : Repaired p k raw k.txid reservation proof outs t t' d d') :
    ∀ op ∈ (p.ledger raw).inputs, ∀ r, d'.utxo.get op = some r → r.claimable = false := by
  intro op hop r hr
  have hno : op ∉ (remints k.txid { d.metadata with outputs := outs }).map (·.outpoint) := by
    intro hmem
    obtain ⟨o, -, -, rfl⟩ := mem_map_remints.mp hmem
    exact hself _ hop rfl
  rw [h.utxo, get_repairedUtxo_of_not_mem hno, Option.filter_eq_some_iff] at hr
  exact claimable_spend hres hop hr.1

theorem Repaired.change {o : OutputRow} (hself : ∀ op ∈ (p.ledger raw).inputs, op.txid ≠ k.txid)
    (h : Repaired p k raw k.txid reservation proof outs t t' d d') :
    (∃ r, d'.utxo.get ⟨k.txid, o.vout⟩ = some r ∧ r.tier = .mined ∧ r.frozen = false)
    ↔ (∀ r, d.utxo.get ⟨k.txid, o.vout⟩ = some r → r.spentBy ≠ some k.txid)
      ∧ ((∃ o', d.metadata.UnspentChange k.txid o' ∧ o'.vout = o.vout ∧ o'.basket.isSome = true)
        ∨ ∃ r, d.utxo.get ⟨k.txid, o.vout⟩ = some r ∧ r.tier = .mined ∧ r.frozen = false) := by
  -- the coins of the change are no inputs, so the spends leave them alone
  have hspent : (d.utxo.spend true ((p.ledger raw).inputs.map fun o =>
      ⟨o, reservation, k.txid⟩)).2.get ⟨k.txid, o.vout⟩ = d.utxo.get ⟨k.txid, o.vout⟩ := by
    refine Inventory.get_spend_of_ne _ fun sp hsp he => ?_
    obtain ⟨op, hop, rfl⟩ := List.mem_map.mp hsp
    exact hself op hop (congrArg Outpoint.txid he)
  rw [h.utxo]
  by_cases hop : ⟨k.txid, o.vout⟩ ∈ (remints k.txid { d.metadata with outputs := outs }).map
      (·.outpoint)
  · rw [get_repairedUtxo_of_mem h.minted hop, hspent]
    obtain ⟨o', ho', hb, hv⟩ := mem_map_remints.mp hop
    have hagain : ∃ o', d.metadata.UnspentChange k.txid o' ∧ o'.vout = o.vout
        ∧ o'.basket.isSome = true :=
      ⟨o', (h.unspentChange_marked o').mp ho', congrArg Outpoint.vout hv, hb⟩
    exact (and_iff_left (Or.inl hagain)).symm
  · have hagain : ¬ ∃ o', d.metadata.UnspentChange k.txid o' ∧ o'.vout = o.vout
        ∧ o'.basket.isSome = true := by
      rintro ⟨o', ho', hv, hb⟩
      exact hop (mem_map_remints.mpr ⟨o', (h.unspentChange_marked o').mpr ho', hb, by rw [hv]⟩)
    rw [get_repairedUtxo_of_not_mem hop, hspent, or_iff_right hagain]
    simp only [Option.filter_eq_some_iff, decide_eq_true_eq]
    constructor
    · rintro ⟨r, ⟨hr, hs⟩, hrow⟩
      refine ⟨fun r' hr' => ?_, r, hr, hrow⟩
      rw [hr] at hr'
      cases hr'
      exact hs
    · rintro ⟨hs, r, hr, hrow⟩
      exact ⟨r, ⟨hr, hs r hr⟩, hrow⟩

theorem Repaired.applied_iff {k0 : KnownTx} (hk : k0 ∈ d.metadata.knownTxs) (hkt : k0.txid = k.txid)
    (hres : reservation ≠ "") (hself : ∀ op ∈ (p.ledger raw).inputs, op.txid ≠ k.txid)
    (h : Repaired p k raw k.txid reservation proof outs t t' d d') :
    MinedApplied p k.txid raw proof d' ↔ RepairReady k.txid d := by
  constructor
  · intro ha
    exact ⟨h.rows.mp ha.rows, fun o ho =>
        (h.change hself).mp (ha.change o ((h.unspentChange o).mpr ho))⟩
  · intro hready
    refine ⟨h.known hk hkt, h.rows.mpr hready.rows, h.inputs hres hself, fun o ho => ?_⟩
    exact (h.change hself).mpr (hready.change o ((h.unspentChange o).mp ho))

end Repaired

theorem statusRoute_mined (hst : k.status ≠ .completed) (hclass : rec.status.isMinedClass = true)
    (hadm : rec.status.canSupersede k.arcadeStatus = true) :
    statusRoute k rec = if k.status ∈ minedRepairStatuses then .repair else .mined := by
  have hseen : rec.status.isSeenClass = false := by
    cases hs : rec.status <;> simp_all [ArcadeStatus.isMinedClass, ArcadeStatus.isSeenClass]
  have hterm : k.status ∉ minedRepairStatuses → k.status.isTerminalFailure = false := by
    cases hs : k.status <;> simp [minedRepairStatuses, ProvenTxReqStatus.isTerminalFailure]
  by_cases hrep : k.status ∈ minedRepairStatuses
  · simp [statusRoute, hclass, hadm, hseen, hrep]
  · simp [statusRoute, hclass, hadm, hseen, hrep, hst, hterm hrep]

section Congr

variable (ht : d'.metadata.transactions = d.metadata.transactions)
  (ho : d'.metadata.outputs = d.metadata.outputs) (hu : d'.utxo = d.utxo)

include ht ho

theorem unspentChange_congr (o : OutputRow) :
    d'.metadata.UnspentChange T o ↔ d.metadata.UnspentChange T o := by
  simp only [Metadata.UnspentChange, Metadata.outputTxID, ht, ho]

include hu

/-- What is needed is in the transactions, the outputs and the coins. -/
theorem RepairReady.congr : RepairReady T d' ↔ RepairReady T d := by
  constructor
  · rintro ⟨hrows, hchange⟩
    exact ⟨ht ▸ hrows, by simpa only [unspentChange_congr ht ho, hu] using hchange⟩
  · rintro ⟨hrows, hchange⟩
    exact ⟨ht ▸ hrows, by simpa only [unspentChange_congr ht ho, hu] using hchange⟩

theorem MinedReady.congr : MinedReady p T raw d' ↔ MinedReady p T raw d := by
  have hops : d'.metadata.changeOutpoints [T] = d.metadata.changeOutpoints [T] :=
    Metadata.changeOutpoints_congr ho (fun o => by simp only [Metadata.outputTxID, ht]) _
  constructor
  · rintro ⟨hrows, hinputs, hchange⟩
    exact ⟨ht ▸ hrows, hu ▸ hinputs, by simpa only [unspentChange_congr ht ho, hu, hops]
        using hchange⟩
  · rintro ⟨hrows, hinputs, hchange⟩
    exact ⟨ht ▸ hrows, hu ▸ hinputs, by simpa only [unspentChange_congr ht ho, hu, hops]
        using hchange⟩

end Congr

/-- The databases differ by notes. -/
def Noted (d d' : Db) : Prop := ∃ es, d' = { d with metadata := d.metadata.log es }

theorem noted_noteIf {b : Bool} {e : Event} (h : noteIf b e s = (.ok a, s')) :
    Noted s.db s'.db := by
  unfold noteIf at h
  split at h
  · cases h
    exact ⟨[e], rfl⟩
  · cases h
    exact ⟨[], by simp [Metadata.log]⟩

theorem noted_verifyRecord {o : Option Proof} (h : verifyRecord p env rec s = (.ok o, s')) :
    o = env.verifyMined rec ∧ Noted s.db s'.db := by
  obtain ⟨-, h⟩ := bind_require_ok h
  obtain ⟨_, s1, h1, h⟩ := bind_ok h
  cases h
  exact ⟨rfl, noted_noteIf h1⟩

theorem statusLoad_found {o : Option KnownTx} (hne : rec.txid ≠ "")
    (h : statusLoad rec s = (.ok o, s')) :
    o = s.db.metadata.knownTxs.get? rec.txid ∧ Noted s.db s'.db := by
  unfold statusLoad at h
  rw [if_neg hne] at h
  obtain ⟨_, s1, h1, h⟩ := bind_ok h
  obtain ⟨hw, rfl⟩ := metaQuery_ok h
  obtain ⟨es, hes⟩ := noted_noteIf h1
  rw [hes]
  refine ⟨rfl, es, ?_⟩
  rw [hw.db, hes]

theorem Noted.tables (h : Noted d d') : d'.metadata.knownTxs = d.metadata.knownTxs
    ∧ d'.metadata.transactions = d.metadata.transactions ∧ d'.metadata.outputs = d.metadata.outputs
    ∧ d'.utxo = d.utxo := by
  obtain ⟨es, rfl⟩ := h
  exact ⟨rfl, rfl, rfl, rfl⟩

theorem waits_repairTxRow (t : TxID) : Moves Waits (repairTxRow t) := by
  refine moves_bind (moves_attempt (moves_query (fun _ _ h => h) _ _)) fun r => ?_
  cases r <;> exact moves_pure _

/-- The word of the oracle and the notes come before the unit of work, and the repair does not
depend on them. -/
theorem applyMinedRepair_completes (hk : k ∈ s.db.metadata.knownTxs) (hkt : k.txid = rec.txid)
    (hraw : k.rawTx = some raw) (hver : env.verifyMined rec = some proof)
    (hself : ∀ op ∈ (p.ledger raw).inputs, op.txid ≠ rec.txid)
    (h : applyMinedRepair p env rec k s = (.ok a, s')) :
    MinedApplied p rec.txid raw proof s'.db ↔ RepairReady rec.txid s.db := by
  obtain ⟨_, s1, h1, h⟩ := bind_ok h
  obtain ⟨o, s2, h2, h⟩ := bind_ok h
  obtain ⟨rfl, hnoted⟩ := noted_verifyRecord h2
  rw [hver] at h
  obtain ⟨row, s3, h3, h⟩ := bind_ok h
  have hdb3 : s3.db = s2.db := ((waits_repairTxRow _).run h3).db
  obtain ⟨hkn, htr, hou, hut⟩ := hnoted.tables
  obtain ⟨r, hw⟩ := tolerate_wrote (by decide) (bind_require_ok h1).2
  have hm1 := hw.metadata
  -- the row of the transaction is there when the unit runs
  have hget : s3.db.metadata.knownTxs.get? rec.txid
      = some ((KnownWrite.setArcadeStatus rec.status).edit s1.now k) := by
    rw [hdb3, hkn, hm1, Metadata.get?_writeKnownOne, Table.get?_eq_some.mpr ⟨hk, hkt⟩]
    rfl
  obtain ⟨hk3, hkt3⟩ := Table.get?_eq_some.mp hget
  rw [← hkt] at hself hkt3 h ⊢
  obtain ⟨outs, t, t', hrep⟩ := commitMinedRepair_ok hraw hself h
  rw [hrep.applied_iff hk3 hkt3 (repairReservation_ne _ _) hself]
  refine RepairReady.congr ?_ ?_ ?_
  · rw [hdb3, htr, hm1, Metadata.writeKnownOne_transactions]
  · rw [hdb3, hou, hm1, Metadata.writeKnownOne_outputs]
  · rw [hdb3, hut, hw.utxo]

/-- Of a transaction that is not completed and whose bytes are retained, a record of the MINED class
that the lattice admits and whose merkle path verifies, applied without an error, leaves all parts
completed exactly if the transaction was ready for the apply its status leads to. -/
theorem mined_record_completes (hk : k ∈ s.db.metadata.knownTxs) (hkt : k.txid = rec.txid)
    (hst : k.status ≠ .completed) (hraw : k.rawTx = some raw)
    (hclass : rec.status.isMinedClass = true) (hadm : rec.status.canSupersede k.arcadeStatus = true)
    (hver : env.verifyMined rec = some proof)
    (hself : ∀ op ∈ (p.ledger raw).inputs, op.txid ≠ rec.txid)
    (h : applyStatusUpdate p env rec s = (.ok (), s')) :
    MinedApplied p rec.txid raw proof s'.db ↔
      rec.txid ≠ "" ∧ if k.status ∈ minedRepairStatuses then RepairReady rec.txid s.db
        else MinedReady p rec.txid raw s.db := by
  obtain ⟨o, s₁, h₁, h⟩ := bind_ok h
  by_cases hne : rec.txid = ""
  · -- a record without a txid is passed over
    rw [statusLoad, if_pos hne] at h₁
    cases h₁
    cases h
    refine iff_of_false (fun ha => ?_) (fun hc => hc.1 hne)
    obtain ⟨k', hk', hkt', hst', -⟩ := ha.known
    rw [Table.eq_of_key hk' hk (hkt'.trans hkt.symm)] at hst'
    exact hst hst'
  rw [and_iff_right hne]
  obtain ⟨rfl, hnoted⟩ := statusLoad_found hne h₁
  rw [Table.get?_eq_some.mpr ⟨hk, hkt⟩] at h
  dsimp only at h
  rw [statusRoute_mined hst hclass hadm] at h
  obtain ⟨hkn, htr, hou, hut⟩ := hnoted.tables
  by_cases hrep : k.status ∈ minedRepairStatuses
  · rw [if_pos hrep] at h ⊢
    rw [applyMinedRepair_completes (hkn ▸ hk) hkt hraw hver hself h]
    exact RepairReady.congr htr hou hut
  · rw [if_neg hrep] at h ⊢
    obtain ⟨o, s₂, h₂, h⟩ := bind_ok h
    obtain ⟨rfl, hnoted'⟩ := noted_verifyRecord h₂
    rw [hver] at h
    obtain ⟨hkn', htr', hou', hut'⟩ := hnoted'.tables
    rw [minedApplied_iff_ready (by rw [hkn', hkn]; exact hk) hkt h]
    exact MinedReady.congr (htr'.trans htr) (hou'.trans hou) (hut'.trans hut)

/-- The oracle has refused the child when it was sent. -/
def refusedChild : Session Db :=
  let s := ((wallet (paidProvider .b)).runs System.initial
    (unprovenPaidSteps ++ createCallSteps ++ signRejectedSteps)).shared
  ⟨s.db, s.now, [], []⟩

theorem refusedChild_known : ∃ k ∈ refusedChild.db.metadata.knownTxs, k.txid = "child"
    ∧ k.status = .suspectFailed ∧ k.rawTx = some "child"
    ∧ ArcadeStatus.mined.canSupersede k.arcadeStatus = true := by
  decide +kernel

theorem mined_suspect_incomplete :
    (∃ k ∈ refusedChild.db.metadata.knownTxs, k.txid = "child" ∧ k.status = .suspectFailed
      ∧ k.rawTx = some "child" ∧ ArcadeStatus.mined.canSupersede k.arcadeStatus = true)
    ∧ Env.mining.verifyMined (childRecord .mined) = some minedProof
    ∧ ∃ s', applyStatusUpdate (paidProvider .b) Env.mining (childRecord .mined) refusedChild
      = (.ok (), s')
      ∧ ¬ MinedApplied (paidProvider .b) "child" "child" minedProof s'.db := by
  refine ⟨refusedChild_known, rfl, ?_⟩
  -- the transactions row stays failed
  obtain ⟨_, s', h, hfailed⟩ := Uow.exists_of_check (q := fun _ s' =>
      s'.db.metadata.transactions.any
      fun r => r.txid = some "child" && r.status = .failed)
    (r := applyStatusUpdate (paidProvider .b) Env.mining (childRecord .mined) refusedChild)
    (by decide +kernel)
  refine ⟨s', h, fun ha => ?_⟩
  obtain ⟨r, hr, hst⟩ := Table.any_eq_true.mp hfailed
  simp only [Bool.and_eq_true, decide_eq_true_eq] at hst
  have := ha.rows r hr hst.1
  rw [hst.2] at this
  cases this

def sentChild : Session Db :=
  let s := ((wallet (paidProvider .b)).runs System.initial
    (paidSteps ++ createCallSteps ++ .spawn signed :: List.replicate 10 (.run 2 Env.quiet))).shared
  ⟨s.db, s.now, [], []⟩

theorem sentChild_known : ∃ k ∈ sentChild.db.metadata.knownTxs, k.txid = "child"
    ∧ k.status = .unsent ∧ k.rawTx = some "child"
    ∧ ArcadeStatus.mined.canSupersede k.arcadeStatus = true := by
  decide +kernel

theorem sentChild_ready : MinedReady (paidProvider .b) "child" "child" sentChild.db where
  rows := by decide +kernel
  inputs := by
    have h : ∀ op ∈ (paidLedger "child").inputs, ∀ r ∈ sentChild.db.utxo.get op,
        r.claimable = false := by
      decide +kernel
    exact h
  change := by
    have h : ∀ o ∈ sentChild.db.metadata.outputs.rows, o.change = true →
        sentChild.db.metadata.outputTxID o = some "child" →
        ∃ r ∈ sentChild.db.utxo.get ⟨"child", o.vout⟩, r.spentBy ≠ some "child" ∧ r.frozen = false
          ∧ (⟨"child", o.vout⟩ ∈ sentChild.db.metadata.changeOutpoints ["child"]
            ∨ r.tier = .mined) := by
      decide +kernel
    exact fun o ho => h o ho.1 ho.2.1 ho.2.2.1

/-- The signed child that waits for its broadcast is completed; the one that was refused is not. -/
theorem mined_record_completes_child :
    (∃ s', applyStatusUpdate (paidProvider .b) Env.mining (childRecord .mined) sentChild
      = (.ok (), s')
      ∧ MinedApplied (paidProvider .b) "child" "child" minedProof s'.db)
    ∧ ∃ k ∈ refusedChild.db.metadata.knownTxs, ∃ s',
      applyStatusUpdate (paidProvider .b) Env.mining (childRecord .mined) refusedChild
        = (.ok (), s')
      ∧ (MinedApplied (paidProvider .b) "child" "child" minedProof s'.db ↔
        "child" ≠ "" ∧ if k.status ∈ minedRepairStatuses then RepairReady "child" refusedChild.db
          else MinedReady (paidProvider .b) "child" "child" refusedChild.db) := by
  constructor
  · obtain ⟨k, hk, hkt, hst, hraw, hadm⟩ := sentChild_known
    obtain ⟨_, s', h, -⟩ := Uow.exists_of_check (q := fun _ _ => true)
      (r := applyStatusUpdate (paidProvider .b) Env.mining (childRecord .mined) sentChild)
      (by decide +kernel)
    refine ⟨s', h, (mined_record_completes hk hkt (by simp [hst]) hraw rfl hadm rfl
      (by decide) h).mpr ⟨by decide, ?_⟩⟩
    rw [if_neg (by simp [hst, minedRepairStatuses])]
    exact sentChild_ready
  · obtain ⟨k, hk, hkt, hst, hraw, hadm⟩ := refusedChild_known
    obtain ⟨_, s', h, -⟩ := Uow.exists_of_check (q := fun _ _ => true)
      (r := applyStatusUpdate (paidProvider .b) Env.mining (childRecord .mined) refusedChild)
      (by decide +kernel)
    exact ⟨k, hk, s', h, mined_record_completes hk hkt (by simp [hst]) hraw rfl hadm rfl
        (by decide) h⟩

end Storage

end ArcadeToolbox
