import ArcadeToolbox.Storage.Accepted
import ArcadeToolbox.Storage.StatusUpdates

/-!
# A mined record and what it leaves behind

A MINED record that verifies should leave the transaction completed in all its parts: the proof, the
transactions rows, the inputs and the change. The ordinary apply takes only rows and coins that are
where an accepted broadcast left them; the repair puts most of them back first. Each of the two ends
in a state that is a function of the state before.
-/

namespace ArcadeToolbox

open Txn Uow

namespace Metadata

variable {m m' : Metadata} {ts : List TxID}

/-- What `FindChangeOutputsByTxIDs` answers. -/
def changeRows (ts : List TxID) (m : Metadata) : List (OutputRow × TxID) :=
  (m.outputs.select fun o => o.change).filterMap fun o =>
    (m.outputTxID o).bind fun t => if t ∈ ts then some (o, t) else none

/-- What `changeOutpointsByTxIDs` answers. -/
def changeOutpoints (ts : List TxID) (m : Metadata) : List Outpoint :=
  ((m.changeRows ts).filter (·.1.basket.isSome)).map fun o => ⟨o.2, o.1.vout⟩

theorem mem_changeRows {x : OutputRow × TxID} : x ∈ m.changeRows ts ↔
    x.1 ∈ m.outputs ∧ x.1.change = true ∧ m.outputTxID x.1 = some x.2 ∧ x.2 ∈ ts := by
  obtain ⟨o, t⟩ := x
  constructor
  · intro h
    obtain ⟨o', ho', h⟩ := List.mem_filterMap.mp h
    obtain ⟨ho', hc⟩ := List.mem_filter.mp ho'
    obtain ⟨t', ht', h⟩ := Option.bind_eq_some_iff.mp h
    split at h
    · cases h
      exact ⟨ho', by simpa using hc, ht', ‹_›⟩
    · cases h
  · rintro ⟨ho, hc, ht, hts⟩
    refine List.mem_filterMap.mpr ⟨o, List.mem_filter.mpr ⟨ho, by simpa using hc⟩, ?_⟩
    simp [ht, hts]

theorem mem_changeOutpoints {op : Outpoint} : op ∈ m.changeOutpoints ts ↔
    ∃ o ∈ m.outputs, o.change = true ∧ o.basket.isSome = true ∧ m.outputTxID o = some op.txid
      ∧ op.txid ∈ ts ∧ o.vout = op.vout := by
  constructor
  · intro h
    obtain ⟨x, hx, rfl⟩ := List.mem_map.mp h
    obtain ⟨hx, hb⟩ := List.mem_filter.mp hx
    obtain ⟨ho, hc, ht, hts⟩ := mem_changeRows.mp hx
    exact ⟨x.1, ho, hc, hb, ht, hts, rfl⟩
  · rintro ⟨o, ho, hc, hb, ht, hts, hv⟩
    refine List.mem_map.mpr ⟨(o, op.txid),
        List.mem_filter.mpr ⟨mem_changeRows.mpr ⟨ho, hc, ht, hts⟩, hb⟩, ?_⟩
    cases op
    simp_all

theorem txid_of_mem_changeOutpoints {op : Outpoint} (h : op ∈ m.changeOutpoints ts) :
    op.txid ∈ ts := by
  obtain ⟨-, -, -, -, -, hts, -⟩ := mem_changeOutpoints.mp h
  exact hts

theorem changeOutpoints_nil : m.changeOutpoints [] = [] :=
  List.eq_nil_iff_forall_not_mem.mpr fun _ h => by simpa using txid_of_mem_changeOutpoints h

/-- A write that leaves the outputs and the txids of the rows alone leaves the change alone. -/
theorem changeRows_congr (ho : m'.outputs = m.outputs) (ht : ∀ o, m'.outputTxID o = m.outputTxID o)
    (ts : List TxID) : m'.changeRows ts = m.changeRows ts := by
  simp only [changeRows, ho, ht]

theorem changeOutpoints_congr (ho : m'.outputs = m.outputs)
    (ht : ∀ o, m'.outputTxID o = m.outputTxID o)
    (ts : List TxID) : m'.changeOutpoints ts = m.changeOutpoints ts := by
  simp only [changeOutpoints, changeRows_congr ho ht]

theorem outputTxID_writeKnownOne (w : KnownWrite) (t : TxID) (now : Time) (o : OutputRow) :
    (m.writeKnownOne w t now).2.outputTxID o = m.outputTxID o := by
  simp only [outputTxID, writeKnownOne_transactions]

theorem outputTxID_writeStatus (st : TxStatus) (expected : List TxStatus) (sel : TxRow → Bool)
    (o : OutputRow) : (m.writeTx (.updateStatus st expected) sel).outputTxID o
      = m.outputTxID o := by
  have hget : (m.writeTx (.updateStatus st expected) sel).transactions.get? o.transactionID
      = (m.transactions.get? o.transactionID).map fun r =>
        if sel r && (TxWrite.updateStatus st expected).guard r then
          (TxWrite.updateStatus st expected).edit r else r :=
    @Table.get?_update _ _ _ m.transactions _ _ _ (fun r => TxWrite.edit_transactionID _ r) _
  unfold outputTxID
  rw [hget]
  rcases m.transactions.get? o.transactionID with _ | r
  · rfl
  · simp only [Option.map_some, Option.bind_some]
    split <;> rfl

theorem writeTxOr_snd (w : TxWrite) (sel : TxRow → Bool) (e : Err) :
    (m.writeTxOr w sel e).2 = m.writeTx w sel := by
  unfold writeTxOr
  split
  · rfl
  · rename_i hno
    have hno := Table.any_eq_false.mp (Bool.eq_false_iff.mpr hno)
    unfold writeTx
    rw [Table.update_of_forall_not hno]

theorem forall_status_writeTx {st : TxStatus} {expected : List TxStatus} (hst : st ∈ expected)
    (T : TxID) : (∀ r ∈ (m.writeTx (.updateStatus st expected) fun r =>
      r.txid = some T).transactions,
        r.txid = some T → r.status = st)
      ↔ ∀ r ∈ m.transactions, r.txid = some T → r.status ∈ expected := by
  have hguard : ∀ r, (TxWrite.updateStatus st expected).guard r = decide (r.status ∈ expected) := by
    intro r
    have hne : expected ≠ [] := List.ne_nil_of_mem hst
    simp [TxWrite.guard, hne]
  constructor
  · intro h r hr ht
    by_contra hno
    -- the write passes the row over
    have hst' := h r (mem_writeTx.mpr ⟨r, hr, by simp [hguard, hno]⟩) ht
    exact hno (hst' ▸ hst)
  · intro h x hx ht
    obtain ⟨r, hr, rfl⟩ := mem_writeTx.mp hx
    split at ht <;> rename_i hg
    · rw [if_pos hg]
      rfl
    · rw [if_neg hg]
      exact absurd (h r hr ht) (by simpa [hguard, ht] using hg)

/-- A change output that is not recorded as spent. -/
def UnspentChange (T : TxID) (m : Metadata) (o : OutputRow) : Prop :=
  o ∈ m.outputs ∧ o.change = true ∧ m.outputTxID o = some T ∧ o.spentBy = none

end Metadata

namespace Storage

section Calls

variable (p : Provider) (env : Env)

/-- `k` is the row as it was read. -/
def applyMinedRepair (rec : TxRecord) (k : KnownTx) : Work Unit := do
  repairRecord p rec
  match ← verifyRecord p env rec with
  | none => pure ()
  | some proof =>
    let row ← repairTxRow k.txid
    commitMinedRepair p k rec.txid row proof

/-- What one record does. -/
def applyStatusUpdate (rec : TxRecord) : Work Unit := do
  match ← statusLoad rec with
  | none => pure ()
  | some k =>
    match statusRoute k rec with
    | .ignore => pure ()
    | .recordOnly => setArcadeStatus rec.txid rec.status
    | .seen => applySeen p rec
    | .mined =>
      match ← verifyRecord p env rec with
      | none => pure ()
      | some proof => applyMined p rec proof
    | .repair => applyMinedRepair p env rec k
    | .rejected => applyRejected rec

end Calls

variable {α : Type} {p : Provider} {env : Env} {s s' : Session Db} {a : Unit} {ts : List TxID}
  {rec : TxRecord} {proof : Proof} {k : KnownTx} {T : TxID} {raw : RawTx}

theorem changeOutpointsByTxIDs_ok {ops : List Outpoint}
    (h : changeOutpointsByTxIDs ts s = (.ok ops, s')) :
    Waits s s' ∧ ops = s.db.metadata.changeOutpoints ts := by
  unfold changeOutpointsByTxIDs at h
  split at h
  · cases h
    rename_i hts
    rw [hts, Metadata.changeOutpoints_nil]
    exact ⟨refl_of _ _, rfl⟩
  · obtain ⟨rows, s1, hr, h⟩ := bind_ok h
    obtain ⟨hw, rfl⟩ := metaQuery_ok hr
    cases h
    exact ⟨hw, rfl⟩

theorem promoteBatch_ok {tier : Tier} (h : promoteBatch ts tier s = (.ok a, s')) :
    s'.db = { s.db with utxo := (s.db.utxo.promote (s.db.metadata.changeOutpoints ts)
      tier).2 } := by
  obtain ⟨ops, s1, hops, h⟩ := bind_ok h
  obtain ⟨hw, rfl⟩ := changeOutpointsByTxIDs_ok hops
  rw [← hw.db]
  split at h
  · cases h
    rename_i hnil
    rw [← hw.db] at hnil
    simp only [hnil, Inventory.promote_nil]
  · obtain ⟨n, s2, h2, h⟩ := bind_ok h
    cases h
    obtain ⟨t, -, hdb⟩ := utxoStmt_db (by simp) h2
    rw [hdb, hw.db]

/-- The proof and the word of the oracle, then the transactions rows. -/
def minedMetadata (rec : TxRecord) (proof : Proof) (t t' : Time) (m : Metadata) : Metadata :=
  ((m.writeKnownOne (.setProof proof) rec.txid t).2.writeKnownOne (.setArcadeStatus rec.status)
    rec.txid t').2.writeTx
      (.updateStatus .completed [.sending, .nosend, .unproven, .unprocessed, .completed])
      fun r => r.txid = some rec.txid

theorem outputTxID_minedMetadata (t t' : Time) (m : Metadata) (o : OutputRow) :
    (minedMetadata rec proof t t' m).outputTxID o = m.outputTxID o := by
  simp only [minedMetadata, Metadata.outputTxID_writeStatus, Metadata.outputTxID_writeKnownOne]

theorem outputs_minedMetadata (t t' : Time) (m : Metadata) :
    (minedMetadata rec proof t t' m).outputs = m.outputs := by
  change ((m.writeKnownOne _ _ _).2.writeKnownOne _ _ _).2.outputs = m.outputs
  rw [Metadata.writeKnownOne_outputs, Metadata.writeKnownOne_outputs]

theorem applyMined_ok (h : applyMined p rec proof s = (.ok a, s')) : ∃ t t', s'.db = { s.db with
      metadata := minedMetadata rec proof t t' s.db.metadata
      utxo := ((s.db.utxo.promote (s.db.metadata.changeOutpoints [rec.txid]) .mined).2.removeSpentBy
        rec.txid).2 } := by
  obtain ⟨_, s1, h1, h⟩ := bind_ok (doUnit_ok h)
  obtain ⟨_, s2, h2, h⟩ := bind_ok h
  obtain ⟨_, s3, h3, h⟩ := bind_ok h
  obtain ⟨_, s4, h4, h⟩ := bind_ok h
  obtain ⟨n, s5, h5, h⟩ := bind_ok h
  cases h
  obtain ⟨r1, hw1⟩ := tolerate_wrote (by decide) h1
  obtain ⟨r2, hw2⟩ := tolerate_wrote (by decide) h2
  obtain ⟨r3, hw3⟩ := tolerate_wrote (by decide) h3
  have hp := promoteBatch_ok h4
  obtain ⟨t, -, hdb⟩ := utxoStmt_db (by simp) h5
  have hm : s3.db.metadata = minedMetadata rec proof s1.now s2.now s.db.metadata := by
    rw [hw3.metadata, Metadata.writeTxOr_snd, hw2.metadata, hw1.metadata]
    rfl
  have hops : s3.db.metadata.changeOutpoints [rec.txid] = s.db.metadata.changeOutpoints
      [rec.txid] := by
    rw [hm]
    exact Metadata.changeOutpoints_congr (outputs_minedMetadata _ _ _)
      (fun o => outputTxID_minedMetadata _ _ _ o) _
  refine ⟨s1.now, s2.now, ?_⟩
  rw [hdb, hp, hops, hw3.db, hw2.db, hw1.db, Metadata.writeTxOr_snd]
  rfl

theorem factSpendMinedInputs_ok {spender : TxID} {reservation : Token} (hraw : k.rawTx = some raw)
    (h : factSpendMinedInputs p k spender reservation s = (.ok a, s')) : s'.db = { s.db with
      utxo := (s.db.utxo.spend true
        ((p.ledger raw).inputs.map fun o => ⟨o, reservation, spender⟩)).2 } := by
  unfold factSpendMinedInputs at h
  simp only [hraw] at h
  split at h
  · cases h
    rename_i hnil
    simp [hnil, Inventory.spend]
  · obtain ⟨errs, s1, h1, h⟩ := bind_ok h
    obtain ⟨-, rfl⟩ := failOn_ok h
    obtain ⟨t, -, hdb⟩ := utxoStmt_db (by simp) h1
    exact hdb

/-- Only rows at the inputs are marked. -/
theorem markInputsSpent_ok {u : UserID} {id : TransactionID}
    (h : markInputsSpent p u id raw s = (.ok a, s')) :
    ∃ outs, s'.db = { s.db with metadata := { s.db.metadata with outputs := outs } }
      ∧ ∀ o, (∀ op ∈ (p.ledger raw).inputs, s.db.metadata.outputTxID o ≠ some op.txid) →
        (o ∈ outs ↔ o ∈ s.db.metadata.outputs) := by
  unfold markInputsSpent at h
  split at h
  · cases h
    exact ⟨_, rfl, fun _ _ => Iff.rfl⟩
  obtain ⟨rows, s1, hr, h⟩ := bind_ok h
  obtain ⟨hw, rfl⟩ := metaQuery_ok hr
  dsimp only at h
  split at h
  · cases h
    exact ⟨_, hw.db, fun _ _ => Iff.rfl⟩
  have hwrote := metaStmt_wrote (by simp) h
  refine ⟨_, by rw [hwrote.db, hw.db], fun o ho => ?_⟩
  -- the ids that are marked belong to rows at the inputs
  have hids : ∀ o' ∈ s.db.metadata.outputs, o'.outputID ∈ ((p.ledger raw).inputs.filterMap fun op =>
      (((s.db.metadata.outputs.select fun o => o.userID = u).filterMap fun o =>
        (s.db.metadata.outputTxID o).bind fun t =>
          if (⟨t, o.vout⟩ : Outpoint) ∈ (p.ledger raw).inputs then
              some (o, (⟨t, o.vout⟩ : Outpoint))
          else none).find? (·.2 = op)).map (·.1.outputID)) →
      ∃ op ∈ (p.ledger raw).inputs, s.db.metadata.outputTxID o' = some op.txid := by
    intro o' ho' hid
    obtain ⟨op, hop, hid⟩ := List.mem_filterMap.mp hid
    obtain ⟨x, hx, hid⟩ := Option.map_eq_some_iff.mp hid
    have hxop : x.2 = op := by simpa using List.find?_some hx
    obtain ⟨o'', ho'', hx⟩ := List.mem_filterMap.mp (List.mem_of_find?_eq_some hx)
    obtain ⟨t, ht, hx⟩ := Option.bind_eq_some_iff.mp hx
    split at hx
    · cases hx
      rw [← Table.eq_of_key (List.mem_filter.mp ho'').1 ho' hid]
      exact ⟨op, hop, by rw [ht, ← hxop]⟩
    · cases hx
  constructor
  · intro hmem
    obtain ⟨o', ho', he⟩ := Table.mem_update.mp hmem
    split at he
    · rename_i hid
      obtain ⟨op, hop, ht⟩ := hids o' ho' (by simpa using hid)
      rw [he] at ho
      exact absurd ht (ho op hop)
    · rwa [he]
  · intro hmem
    refine Table.mem_update.mpr ⟨o, hmem, ?_⟩
    rw [if_neg]
    intro hid
    obtain ⟨op, hop, ht⟩ := hids o hmem (by simpa using hid)
    exact ho op hop ht

theorem markMinedInputsSpent_ok {row : Option TxRow} (hraw : k.rawTx = some raw)
    (h : markMinedInputsSpent p k row s = (.ok a, s')) :
    ∃ outs, s'.db = { s.db with metadata := { s.db.metadata with outputs := outs } }
      ∧ ∀ o, (∀ op ∈ (p.ledger raw).inputs, s.db.metadata.outputTxID o ≠ some op.txid) →
        (o ∈ outs ↔ o ∈ s.db.metadata.outputs) := by
  unfold markMinedInputsSpent at h
  rcases row with _ | r
  · cases h
    exact ⟨_, rfl, fun _ _ => Iff.rfl⟩
  · simp only [hraw] at h
    exact markInputsSpent_ok h

/-- The coins a repair mints again. -/
def remints (T : TxID) (m : Metadata) : List Mint :=
  (m.changeRows [T]).filterMap fun o => remintRow T .mined o.1

theorem remintChangeByTxID_ok (h : remintChangeByTxID T .mined s = (.ok a, s')) :
    ∃ t, (∀ e ∈ (s.db.utxo.mint t (remints T s.db.metadata)).1,
        e = none ∨ ∃ op, e = some (.alreadyExists op))
      ∧ s'.db = { s.db with
        utxo := (((s.db.utxo.mint t (remints T s.db.metadata)).2.promote
          ((remints T s.db.metadata).map (·.outpoint)) .mined).2.unfreeze
            ((remints T s.db.metadata).map (·.outpoint))).2 } := by
  obtain ⟨rows, s1, hr, h⟩ := bind_ok h
  obtain ⟨hw, hrows⟩ := metaQuery_ok hr
  have hmints : rows.filterMap (fun o => remintRow T .mined o.1) = remints T s.db.metadata := by
    rw [hrows]
    rfl
  simp only [hmints] at h
  rw [← hw.db] at h ⊢
  generalize remints T s1.db.metadata = mints at h
  split at h
  · cases h
    rename_i hnil
    refine ⟨0, ?_, ?_⟩
    · simp [hnil, Inventory.mint]
    · simp [hnil, Inventory.mint, Inventory.promote_nil, Inventory.unfreeze,
        Inventory.setFrozen_nil]
  obtain ⟨errs, s2, h2, h⟩ := bind_ok h
  obtain ⟨hnone, h⟩ := bind_failOn_ok h
  obtain ⟨n, s4, h4, h⟩ := bind_ok h
  obtain ⟨r, s5, h5, h⟩ := bind_ok h
  have h5 := attempt_ok h5
  obtain ⟨t, hans, hdb2⟩ := utxoStmt_db (by simp) h2
  obtain rfl := Except.ok.inj hans
  obtain ⟨-, -, hdb4⟩ := utxoStmt_db (by simp) h4
  -- an unfreeze that misses some coins has unfrozen the others
  have hran : r ≠ .error (.utxo .unavailable) ∧ s' = s5 := by
    rcases r with e | _
    · cases e with
      | batch items => exact ⟨by simp, (require_ok h).2⟩
      | _ => cases h
    · cases h
      exact ⟨by simp, rfl⟩
  obtain ⟨-, -, hdb5⟩ := utxoStmt_db hran.1 h5
  refine ⟨t, fun e he => ?_, ?_⟩
  · rcases e with _ | e
    · exact Or.inl rfl
    · have := List.find?_eq_none.mp hnone e (List.mem_filterMap.mpr ⟨some e, he, rfl⟩)
      cases e <;> simp [UtxoErr.isAlreadyExists] at this
      exact Or.inr ⟨_, rfl⟩
  · rw [hran.2, hdb5, hdb4, hdb2]
    rfl

/-- The coins after a repair, `u` being those after the spends. -/
def repairedUtxo (T : TxID) (t : Time) (mints : List Mint) (u : Inventory) : Inventory :=
  ((((u.mint t mints).2.promote (mints.map (·.outpoint)) .mined).2.unfreeze
    (mints.map (·.outpoint))).2.removeSpentBy T).2

/-- What a repair leaves: `outs` are the output rows with the inputs marked, `t` and `t'` the times
of the proof and of the mints. -/
structure Repaired (p : Provider) (k : KnownTx) (raw : RawTx) (spender : TxID) (reservation : Token)
    (proof : Proof) (outs : Table OutputRow) (t t' : Time) (d d' : Db) : Prop where
  outputs : ∀ o, d.metadata.outputTxID o = some k.txid → (o ∈ outs ↔ o ∈ d.metadata.outputs)
  minted : ∀ e ∈ ((d.utxo.spend true
      ((p.ledger raw).inputs.map fun o => ⟨o, reservation, spender⟩)).2.mint t'
        (remints k.txid { d.metadata with outputs := outs })).1,
    e = none ∨ ∃ op, e = some (.alreadyExists op)
  metadata : d'.metadata = ({ d.metadata with outputs := outs }.writeKnownOne (.setProof proof)
    k.txid t).2.writeTx (.updateStatus .completed minedRepairTxStatuses) fun r =>
        r.txid = some k.txid
  utxo : d'.utxo = repairedUtxo spender t' (remints k.txid { d.metadata with outputs := outs })
    (d.utxo.spend true ((p.ledger raw).inputs.map fun o => ⟨o, reservation, spender⟩)).2

theorem repairReservation_ne (row : Option TxRow) (t : TxID) : repairReservation row t ≠ "" := by
  have hne : "mined-repair:" ++ t ≠ "" := by
    intro h
    have := congrArg String.length h
    simp [String.length_append] at this
  unfold repairReservation
  split
  · split
    · assumption
    · exact hne
  · exact hne

theorem commitMinedRepair_ok {spender : TxID} {row : Option TxRow} (hraw : k.rawTx = some raw)
    (hself : ∀ op ∈ (p.ledger raw).inputs, op.txid ≠ k.txid)
    (h : commitMinedRepair p k spender row proof s = (.ok a, s')) :
    ∃ outs t t', Repaired p k raw spender
      (repairReservation row k.txid) proof outs t t' s.db s'.db := by
  obtain ⟨_, s1, h1, h⟩ := bind_ok (doUnit_ok h)
  obtain ⟨_, s2, h2, h⟩ := bind_ok h
  obtain ⟨_, s3, h3, h⟩ := bind_ok h
  obtain ⟨_, s4, h4, h⟩ := bind_ok h
  obtain ⟨_, s5, h5, h⟩ := bind_ok h
  obtain ⟨n, s6, h6, h⟩ := bind_ok h
  cases h
  have hd1 := factSpendMinedInputs_ok hraw h1
  obtain ⟨outs, hd2, houts⟩ := markMinedInputsSpent_ok hraw h2
  obtain ⟨r3, hw3⟩ := tolerate_wrote (by decide) h3
  obtain ⟨r4, hw4⟩ := tolerate_wrote (by decide) h4
  obtain ⟨t', herrs, hd5⟩ := remintChangeByTxID_ok h5
  obtain ⟨-, -, hd6⟩ := utxoStmt_db (by simp) h6
  have hm4 : s4.db.metadata = ({ s.db.metadata with outputs := outs }.writeKnownOne
      (.setProof proof)
      k.txid s3.now).2.writeTx (.updateStatus .completed minedRepairTxStatuses)
        fun r => r.txid = some k.txid := by
    rw [hw4.metadata, Metadata.writeTxOr_snd, hw3.metadata, hd2, hd1]
  -- the proof and the statuses leave the change as it was
  have hrows : s4.db.metadata.changeRows [k.txid]
      = Metadata.changeRows [k.txid] { s.db.metadata with outputs := outs } := by
    refine Metadata.changeRows_congr ?_ (fun o => ?_) _
    · rw [hm4]
      exact Metadata.writeKnownOne_outputs _ _ _ _
    · rw [hm4, Metadata.outputTxID_writeStatus, Metadata.outputTxID_writeKnownOne]
  have hremints : remints k.txid s4.db.metadata
      = remints k.txid { s.db.metadata with outputs := outs } := by
    simp only [remints, hrows]
  have hu4 : s4.db.utxo = (s.db.utxo.spend true
      ((p.ledger raw).inputs.map fun o => ⟨o, repairReservation row k.txid, spender⟩)).2 := by
    rw [hw4.utxo, hw3.utxo, hd2, hd1]
  rw [hremints, hu4] at herrs
  refine ⟨outs, s3.now, t', ⟨fun o ho => ?_, herrs, ?_, ?_⟩⟩
  · rw [hd1] at houts
    refine houts o fun op hop ht => hself op hop ?_
    exact Option.some.inj (ht.symm.trans ho)
  · rw [hd6, hd5]
    exact hm4
  · rw [hd6, hd5, hremints, hu4]
    rfl

end Storage

end ArcadeToolbox
