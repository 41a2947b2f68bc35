import ArcadeToolbox.Storage.Outbox

/-!
# Status records of the oracle

A record is routed by the known transaction as it was read: terminal states and regressions of
the lattice are ignored, SEEN advances it, MINED needs a verified merkle path, a rejection makes
it suspect. A transaction the wallet has written off is only brought back by a verified proof,
through the mined repair.
-/

namespace ArcadeToolbox

open Txn

/-- `seenFencedStatuses`: the wallet has acted on the death of these. -/
def seenFencedStatuses : List ProvenTxReqStatus := [.aborted, .stuck]

def seenAdvanceSkipStatuses : List ProvenTxReqStatus :=
  ProvenTxReqStatus.beyondBroadcastStage ++ seenFencedStatuses

def minedRepairStatuses : List ProvenTxReqStatus := [.invalidTx, .doubleSpend, .stuck, .aborted]

def minedRepairTxStatuses : List TxStatus :=
  [.sending, .nosend, .unproven, .unprocessed, .completed, .failed, .aborted]

/-- Where a record goes. -/
inductive Route where
  | ignore
  | recordOnly
  | seen
  | mined
  | repair
  | rejected
  deriving DecidableEq, Repr

/-- The guards of `ApplyStatusUpdate`, in order, and its switch. -/
def statusRoute (k : KnownTx) (rec : TxRecord) : Route :=
  let repair := rec.status.isMinedClass && decide (k.status ∈ minedRepairStatuses)
  if !repair && (k.status = .completed || k.status.isTerminalFailure) then .ignore
  else if !rec.status.canSupersede k.arcadeStatus then .ignore
  else if rec.status.isSeenClass then
    if k.status ∈ seenFencedStatuses then .recordOnly else .seen
  else if rec.status.isMinedClass then
    if repair then .repair else .mined
  else if rec.status.isRejectedClass then .rejected
  else .recordOnly

theorem seenClass_of_route {k : KnownTx} {rec : TxRecord} (h : statusRoute k rec = .seen) :
    rec.status.isSeenClass = true := by
  unfold statusRoute at h
  dsimp only at h
  split_ifs at h
  assumption

theorem rejectedClass_of_route {k : KnownTx} {rec : TxRecord} (h : statusRoute k rec = .rejected) :
    rec.status.isRejectedClass = true ∧ rec.status.canSupersede k.arcadeStatus = true := by
  unfold statusRoute at h
  dsimp only at h
  split_ifs at h
  simp_all

namespace Storage

variable (p : Provider)

def changeOutpointsByTxIDs (txids : List TxID) : Work (List Outpoint) := do
  if txids = [] then return []
  else
    let rows ← OutputsRepo.findChangeOutputsByTxIDs txids
    return (rows.filter (·.1.basket.isSome)).map fun o => ⟨o.2, o.1.vout⟩

def setArcadeStatus (txid : TxID) (st : ArcadeStatus) : Work Unit :=
  tolerate [.notFound] (KnownTxRepo.setArcadeStatus txid st)

def promoteChangeByTxID (txid : TxID) (tier : Tier) : Work Unit := do
  let ops ← changeOutpointsByTxIDs [txid]
  unless ops = [] do
    let _ ← UtxoStore.promote ops tier

/-! ## One record -/

/-- The read of `ApplyStatusUpdate`; a SEEN-class record is evidence from then on. -/
def statusLoad (rec : TxRecord) : Work (Option KnownTx) := do
  if rec.txid = "" then return none
  else
    noteIf rec.status.isSeenClass (.seen rec.txid)
    KnownTxRepo.findByTxID rec.txid

/-- The transaction was seen by the network. -/
def applySeen (rec : TxRecord) : Work Unit :=
  doUnit p.mode do
    tolerate [.skipped] (TransactionsRepo.updateStatusByTxID rec.txid .unproven
      [.sending, .nosend, .unproven, .unprocessed])
    tolerate [.skipped, .notFound] (KnownTxRepo.updateStatus rec.txid .unconfirmed
      seenAdvanceSkipStatuses)
    promoteChangeByTxID rec.txid .unproven
    setArcadeStatus rec.txid rec.status

/-- The proof of a record, against the header source. -/
def verifyRecord (env : Env) (rec : TxRecord) : Work (Option Proof) := do
  require p.hasHeaders (.refused "storage: no headers source")
  noteIf (env.verifyMined rec).isSome (.proven rec.txid)
  return env.verifyMined rec

/-- The transaction was mined. -/
def applyMined (rec : TxRecord) (proof : Proof) : Work Unit :=
  doUnit p.mode do
    tolerate [.notFound] (KnownTxRepo.setProof rec.txid proof)
    setArcadeStatus rec.txid rec.status
    tolerate [.skipped] (TransactionsRepo.updateStatusByTxID rec.txid .completed
      [.sending, .nosend, .unproven, .unprocessed, .completed])
    promoteChangeByTxID rec.txid .mined
    let _ ← UtxoStore.removeSpentBy rec.txid

/-- The transaction was rejected. -/
def applyRejected (rec : TxRecord) : Work Unit := do
  let t ← now
  tolerate [.notFound] (KnownTxRepo.markSuspect rec.txid t rec.competingTxs rec.status
      rec.extraInfo)

/-! ## The mined repair -/

/-- The oracle's word is recorded before the proof is looked at. -/
def repairRecord (rec : TxRecord) : Work Unit := do
  require p.hasHeaders (.refused "storage: no headers source")
  setArcadeStatus rec.txid rec.status

/-- The row a repair charges the spends to; a failed read counts as none. -/
def repairTxRow (txid : TxID) : Work (Option TxRow) := do
  match ← Uow.attempt (TransactionsRepo.findByTxIDAllUsers txid) with
  | .error _ => return none
  | .ok rows => return (rows.find? (·.isOutgoing)).or rows.head?

def repairReservation (row : Option TxRow) (txid : TxID) : Token :=
  match row with
  | some r => if r.reference ≠ "" then r.reference else "mined-repair:" ++ txid
  | none => "mined-repair:" ++ txid

/-- The chain has consumed the inputs: an input that is unknown, or recorded as spent by another
transaction, does not stop the repair. -/
def factSpendMinedInputs (k : KnownTx) (spender : TxID) (reservation : Token) : Work Unit := do
  match k.rawTx with
  | none => pure ()
  | some rawTx =>
    unless (p.ledger rawTx).inputs = [] do
      let errs ← UtxoStore.spend ((p.ledger rawTx).inputs.map fun o =>
          ⟨o, reservation, spender⟩) true
      failOn ((errs.filterMap id).find? fun e => !e.isNotFound && !e.isSpent)

def remintRow (txid : TxID) (tier : Tier) (o : OutputRow) : Option Mint :=
  match o.basket, o.spentBy with
  | some basket, none => some
      { outpoint := ⟨txid, o.vout⟩, userID := o.userID, basket := basket, satoshis := o.satoshis,
        inputSize := defaultP2PKHInputSize, tier := tier }
  | _, _ => none

/-- The change is minted again. -/
def remintChangeByTxID (txid : TxID) (tier : Tier) : Work Unit := do
  let rows ← OutputsRepo.findChangeOutputsByTxIDs [txid]
  let mints := rows.filterMap fun o => remintRow txid tier o.1
  unless mints = [] do
    let errs ← UtxoStore.mint mints
    failOn ((errs.filterMap id).find? fun e => !e.isAlreadyExists)
    let _ ← UtxoStore.promote (mints.map (·.outpoint)) tier
    match ← Uow.attempt (UtxoStore.unfreeze (mints.map (·.outpoint))) with
    | .error (.batch items) => require (items.any (·.isNotFound)) (.batch items)
    | .error e => throw e
    | .ok _ => pure ()

def markMinedInputsSpent (k : KnownTx) (row : Option TxRow) : Work Unit :=
  match row, k.rawTx with
  | some r, some rawTx => markInputsSpent p r.userID r.transactionID rawTx
  | _, _ => pure ()

/-- `k` and `row` are as they were read before the unit of work; `spender` is the txid of the
record whose proof verified. -/
def commitMinedRepair (k : KnownTx) (spender : TxID) (row : Option TxRow) (proof : Proof) :
    Work Unit :=
  doUnit p.mode do
    factSpendMinedInputs p k spender (repairReservation row k.txid)
    markMinedInputsSpent p k row
    tolerate [.notFound] (KnownTxRepo.setProof k.txid proof)
    tolerate [.skipped] (TransactionsRepo.updateStatusByTxID k.txid .completed
        minedRepairTxStatuses)
    remintChangeByTxID k.txid .mined
    let _ ← UtxoStore.removeSpentBy spender

/-! ## A batch of records -/

/-- The records of one txid, in arrival order. -/
def recordsOf (recs : List TxRecord) (txid : TxID) : List TxRecord := recs.filter (·.txid = txid)

def minedRepairBatchRoute (st : ProvenTxReqStatus) (evs : List TxRecord) : Bool :=
  st ∈ minedRepairStatuses && evs.any (·.status.isMinedClass)

def multipleDistinctStatuses : List TxRecord → Bool
  | [] => false
  | e :: es => es.any (·.status ≠ e.status)

/-- What a batch does with one txid. -/
inductive BatchRoute where
  | skip
  | fallback
  | one (rec : TxRecord) (route : Route)
  deriving DecidableEq, Repr

/-- Which way a transaction's records go. -/
def batchRoute (k : KnownTx) (evs : List TxRecord) : BatchRoute :=
  if minedRepairBatchRoute k.status evs then .fallback
  else if k.status = .completed || k.status.isTerminalFailure then .skip
  else if multipleDistinctStatuses evs then .fallback
  else match evs.getLast? with
    | none => .skip
    | some rec => .one rec (statusRoute k rec)

/-- The records of a batch sorted by what is done with them; `verified` has the proof and the
inputs of the retained bytes. -/
structure BatchPlan where
  seen : List TxRecord
  verified : List (TxRecord × Proof × List Outpoint)
  rejected : List TxRecord
  arcadeOnly : List TxRecord
  fallback : List TxRecord

def batchTxIDs (recs : List TxRecord) : List TxID :=
  ((recs.map (·.txid)).filter (· ≠ "")).eraseDups

def routed (known : List KnownTx) (recs : List TxRecord) (route : Route) :
    List (TxRecord × KnownTx) :=
  (batchTxIDs recs).filterMap fun txid =>
    match known.find? (·.txid = txid) with
    | none => none
    | some k =>
      match batchRoute k (recordsOf recs txid) with
      | .one rec r => if r = route then some (rec, k) else none
      | _ => none

theorem mem_routed {known : List KnownTx} {recs : List TxRecord} {route : Route}
    {x : TxRecord × KnownTx} (h : x ∈ routed known recs route) :
    x.2 ∈ known ∧ x.2.txid = x.1.txid ∧ x.1 ∈ recs ∧ x.1.txid ≠ ""
      ∧ statusRoute x.2 x.1 = route := by
  obtain ⟨t, htx, h⟩ := List.mem_filterMap.mp h
  split at h
  · cases h
  rename_i k hk
  split at h
  · rename_i rec r hr
    split at h
    · cases h
      rename_i hroute
      unfold batchRoute at hr
      split_ifs at hr
      split at hr
      · cases hr
      · rename_i hlast
        cases hr
        obtain ⟨hmem, ht⟩ := List.mem_filter.mp (List.mem_of_getLast? hlast)
        have hkt : k.txid = t := by simpa using List.find?_some hk
        have hrt := of_decide_eq_true ht
        have hne : t ≠ "" := by simpa using (List.mem_filter.mp (List.mem_eraseDups.mp htx)).2
        exact ⟨List.mem_of_find?_eq_some hk, hkt.trans hrt.symm, hmem, by rwa [hrt], hroute⟩
    · cases h
  · cases h

/-- The records, by the way they go. -/
def batchPlan (env : Env) (known : List KnownTx) (recs : List TxRecord) : BatchPlan :=
  { seen := (routed known recs .seen).map (·.1)
    verified := if !p.hasHeaders then [] else
      (routed known recs .mined).filterMap fun x => (env.verifyMined x.1).map fun proof =>
        (x.1, proof, (x.2.rawTx.map fun raw => (p.ledger raw).inputs).getD [])
    rejected := (routed known recs .rejected).map (·.1)
    arcadeOnly := (routed known recs .recordOnly).map (·.1)
    fallback := (batchTxIDs recs).flatMap fun txid =>
      match known.find? (·.txid = txid) with
      | none => []
      | some k =>
        if batchRoute k (recordsOf recs txid) = .fallback then recordsOf recs txid else [] }

theorem mem_verified {p : Provider} {env : Env} {known : List KnownTx} {recs : List TxRecord}
    {pr : TxRecord × Proof × List Outpoint} (h : pr ∈ (batchPlan p env known recs).verified) :
    pr.1 ∈ recs ∧ env.verifyMined pr.1 = some pr.2.1 := by
  unfold batchPlan at h
  dsimp only at h
  split at h
  · cases h
  · obtain ⟨x, hx, h⟩ := List.mem_filterMap.mp h
    obtain ⟨proof, hp, rfl⟩ := Option.map_eq_some_iff.mp h
    exact ⟨(mem_routed hx).2.2.1, hp⟩

/-- The bulk read of `ApplyStatusBatch`. -/
def batchLoad (recs : List TxRecord) : Work (List KnownTx) := do
  (recs.filter fun r => r.status.isSeenClass && r.txid ≠ "").forM fun r => note (.seen r.txid)
  if batchTxIDs recs = [] then return [] else KnownTxRepo.findByTxIDs (batchTxIDs recs)

/-- Sort the records, verifying the merkle paths. -/
def batchVerify (env : Env) (known : List KnownTx) (recs : List TxRecord) : Work BatchPlan := do
  (batchPlan p env known recs).verified.forM fun pr => note (.proven pr.1.txid)
  return batchPlan p env known recs

/-- One statement for each record; records of one status are independent of each other. -/
def setArcadeStatusBatch (recs : List TxRecord) : Work Unit :=
  recs.forM fun rec => KnownTxRepo.bulkSetArcadeStatus [rec.txid] rec.status

def promoteBatch (txids : List TxID) (tier : Tier) : Work Unit := do
  let ops ← changeOutpointsByTxIDs txids
  unless ops = [] do
    let _ ← UtxoStore.promote ops tier

def removeSpentInputs (ops : List Outpoint) : Work Unit := do
  unless ops = [] do UtxoStore.remove ops true

/-- The seen ones of a batch. -/
def applySeenBatch (recs : List TxRecord) : Work Unit := do
  unless recs = [] do
    let txids := recs.map (·.txid)
    TransactionsRepo.bulkUpdateStatusByTxIDs txids .unproven [.sending, .nosend, .unproven,
        .unprocessed]
    KnownTxRepo.bulkUpdateStatus txids .unconfirmed seenAdvanceSkipStatuses
    promoteBatch txids .unproven
    setArcadeStatusBatch recs

/-- The mined ones of a batch. -/
def applyMinedBatch (proofs : List (TxRecord × Proof × List Outpoint)) : Work Unit := do
  unless proofs = [] do
    let txids := proofs.map (·.1.txid)
    proofs.forM fun pr => tolerate [.notFound] (KnownTxRepo.setProof pr.1.txid pr.2.1)
    setArcadeStatusBatch (proofs.map (·.1))
    TransactionsRepo.bulkUpdateStatusByTxIDs txids .completed
      [.sending, .nosend, .unproven, .unprocessed, .completed]
    promoteBatch txids .mined
    removeSpentInputs (proofs.flatMap (·.2.2))
    (proofs.filter (·.2.2 = [])).forM fun pr => do
      let _ ← UtxoStore.removeSpentBy pr.1.txid

def applyRejectedBatch (recs : List TxRecord) : Work Unit := recs.forM applyRejected

/-- The unit of work of a batch; the proofs verified before it. -/
def applyBatch (plan : BatchPlan) : Work Unit :=
  doUnit p.mode do
    applySeenBatch plan.seen
    applyMinedBatch plan.verified
    applyRejectedBatch plan.rejected
    setArcadeStatusBatch plan.arcadeOnly

end Storage

end ArcadeToolbox
