import ArcadeToolbox.Metastore.Tables

/-!
# The known transactions

Every statement that changes a row of `known_txs` is a `KnownWrite`: the rows it applies to
(`guard`, the rest of its WHERE clause) and what it sets (`edit`). The repository's methods run
one write against one txid, or against a set of them.
-/

namespace ArcadeToolbox

open Txn

/-- What an upsert supplies; the columns left out are those no caller supplies. -/
structure NewKnownTx where
  txid : TxID
  status : ProvenTxReqStatus
  wasBroadcast : Bool
  rawTx : Option RawTx
  proof : Option Proof
  deriving DecidableEq, Repr

/-- What can be written to a row. -/
inductive KnownWrite where
  /-- the update half of `Upsert` -/
  | upsert (kt : NewKnownTx) (skipForStatuses : List ProvenTxReqStatus)
  | updateStatus (status : ProvenTxReqStatus) (skipForStatuses : List ProvenTxReqStatus)
  | markSuspectFailed (suspectSince : Time) (rejectReason : String)
  | markSuspect (suspectSince : Time) (competingTxs : List TxID) (arcadeStatus : ArcadeStatus)
      (rejectReason : String)
  | stampVerifiedRejected (time : Time)
  | transitionSuspect (newStatus : ProvenTxReqStatus)
  | casFromPreBroadcast (newStatus : ProvenTxReqStatus)
  | reclaimStaleSend (grace : ℤ)
  | setProof (proof : Proof)
  | clearProof (newStatus : ProvenTxReqStatus)
  | setArcadeStatus (arcadeStatus : ArcadeStatus)
  | markPolled
  deriving DecidableEq

namespace KnownWrite

/-- The condition of the write. -/
def guard (now : Time) (k : KnownTx) : KnownWrite → Bool
  | upsert _ skip => k.status ∉ skip
  | updateStatus _ skip => k.status ∉ skip
  | stampVerifiedRejected _ => k.status = .suspectFailed && k.verifiedRejectedAt = none
  | transitionSuspect _ => k.status = .suspectFailed
  | casFromPreBroadcast _ => k.status ∈ ProvenTxReqStatus.preBroadcast && !k.wasBroadcast
  | reclaimStaleSend grace => k.status = .sending && !k.wasBroadcast && k.updatedAt ≤ now - grace
  | markSuspectFailed _ _ | markSuspect _ _ _ _ | setProof _ | clearProof _ | setArcadeStatus _
  | markPolled => true

/-- An empty reason keeps the one already recorded. -/
def rejectReasonArg (reason : String) (old : Option String) : Option String :=
  if reason = "" then old else some reason

/-- What it writes. -/
def edit (now : Time) (k : KnownTx) : KnownWrite → KnownTx
  | upsert kt _ =>
    { k with
      status := kt.status, rawTx := kt.rawTx, proof := kt.proof, competingTxs := [],
      suspectSince := none, verifiedRejectedAt := none, updatedAt := now,
      wasBroadcast := k.wasBroadcast || (kt.wasBroadcast || kt.status.wasBroadcastStatus) }
  | updateStatus st _ =>
    { k with status := st, wasBroadcast := k.wasBroadcast || st.wasBroadcastStatus,
             updatedAt := now }
  | markSuspectFailed since reason =>
    { k with status := .suspectFailed, suspectSince := some since, verifiedRejectedAt := none,
             rejectReason := rejectReasonArg reason k.rejectReason, updatedAt := now }
  | markSuspect since competing st reason =>
    { k with status := .suspectFailed, arcadeStatus := some st, competingTxs := competing,
             suspectSince := some since, verifiedRejectedAt := none,
             rejectReason := rejectReasonArg reason k.rejectReason, updatedAt := now }
  | stampVerifiedRejected time => { k with verifiedRejectedAt := some time, updatedAt := now }
  | transitionSuspect st => { k with status := st, updatedAt := now }
  | casFromPreBroadcast st => { k with status := st, updatedAt := now }
  | reclaimStaleSend _ => { k with updatedAt := now }
  | setProof proof =>
    { k with status := .completed, wasBroadcast := true, proof := some proof, updatedAt := now }
  | clearProof st => { k with status := st, arcadeStatus := none, proof := none, updatedAt := now }
  | setArcadeStatus st => { k with arcadeStatus := some st, updatedAt := now }
  | markPolled => { k with lastPolledAt := now }

@[simp] theorem edit_txid (w : KnownWrite) (now : Time) (k : KnownTx) :
    (w.edit now k).txid = k.txid := by
  cases w <;> rfl

/-- The status a write sets, if it sets one. -/
def sets : KnownWrite → Option ProvenTxReqStatus
  | upsert kt _ => some kt.status
  | updateStatus st _ | transitionSuspect st | casFromPreBroadcast st | clearProof st => some st
  | markSuspectFailed _ _ | markSuspect _ _ _ _ => some .suspectFailed
  | setProof _ => some .completed
  | stampVerifiedRejected _ | reclaimStaleSend _ | setArcadeStatus _ | markPolled => none

theorem edit_status (w : KnownWrite) (now : Time) (k : KnownTx) :
    (w.edit now k).status = w.sets.getD k.status := by
  cases w <;> rfl

/-- What a write that applied records in the audit. -/
def events (now : Time) (txid : TxID) : KnownWrite → List Event
  | casFromPreBroadcast .sending => [.claimed txid now]
  | casFromPreBroadcast .aborted => [.fenced txid]
  | reclaimStaleSend _ => [.reclaimed txid now]
  | _ => []

/-- A write that records nothing in the audit. -/
def silent : KnownWrite → Bool
  | casFromPreBroadcast _ | reclaimStaleSend _ => false
  | _ => true

theorem events_of_silent {w : KnownWrite} (h : w.silent = true) (now : Time) (txid : TxID) :
    w.events now txid = [] := by
  cases w <;> first | rfl | cases h

/-- A write that leaves the status, the broadcast flag, the bytes and the proof alone. -/
def quiet : KnownWrite → Bool
  | setArcadeStatus _ | markPolled | stampVerifiedRejected _ => true
  | _ => false

theorem sets_of_quiet {w : KnownWrite} (h : w.quiet = true) : w.sets = none := by
  cases w <;> first | rfl | cases h

end KnownWrite

namespace Metadata

/-- Run a write on the rows of the selected txids that meet its guard. -/
def writeKnown (w : KnownWrite) (now : Time) (sel : TxID → Bool) (m : Metadata) : Metadata :=
  { m with
    knownTxs := m.knownTxs.update (fun k => sel k.txid && w.guard now k) (fun k => w.edit now k)
      fun k => w.edit_txid now k }

/-- Run a write on one txid, telling a guard that refused from a row that is not there. -/
def writeKnownOne (w : KnownWrite) (txid : TxID) (now : Time) (m : Metadata) :
    Except Err Unit × Metadata :=
  if m.knownTxs.any fun k => k.txid = txid && w.guard now k then
    (.ok (), (m.writeKnown w now fun t => t = txid).log (w.events now txid))
  else if m.knownTxs.any fun k => k.txid = txid then (.error .skipped, m)
  else (.error .notFound, m)

/-- The row a fresh upsert inserts. -/
def newKnownRow (kt : NewKnownTx) (now : Time) : KnownTx :=
  { txid := kt.txid, status := kt.status, arcadeStatus := none,
    wasBroadcast := kt.wasBroadcast || kt.status.wasBroadcastStatus, rawTx := kt.rawTx,
    proof := kt.proof, competingTxs := [], suspectSince := none, verifiedRejectedAt := none,
    rejectReason := none, createdAt := now, updatedAt := now, lastPolledAt := 0 }

/-- Insert the row, or update the one that is there unless its status is in the skip set. -/
def upsertKnown (kt : NewKnownTx) (skip : List ProvenTxReqStatus) (now : Time) (m : Metadata) :
    Except Err Unit × Metadata :=
  match m.knownTxs.get? kt.txid with
  | none => (.ok (), { m with knownTxs := m.knownTxs.insert (newKnownRow kt now) })
  | some k =>
    if k.status ∈ skip then (.error .skipped, m)
    else (.ok (), m.writeKnown (.upsert kt skip) now fun t => t = kt.txid)

theorem mem_writeKnown {w : KnownWrite} {now : Time} {sel : TxID → Bool} {m : Metadata}
    {x : KnownTx} :
    x ∈ (m.writeKnown w now sel).knownTxs ↔
      ∃ k ∈ m.knownTxs, x = if sel k.txid && w.guard now k then w.edit now k else k :=
  @Table.mem_update _ _ _ m.knownTxs _ _ (fun k => w.edit_txid now k) x

/-- A write on one txid applies, is refused by its guard, or finds no row. -/
theorem writeKnownOne_cases (w : KnownWrite) (txid : TxID) (now : Time) (m : Metadata) :
    (∃ k ∈ m.knownTxs, k.txid = txid ∧ w.guard now k = true ∧ m.writeKnownOne w txid now
        = (.ok (), (m.writeKnown w now fun t => t = txid).log (w.events now txid)))
    ∨ (∃ k ∈ m.knownTxs, k.txid = txid ∧ w.guard now k = false
        ∧ m.writeKnownOne w txid now = (.error .skipped, m))
    ∨ ((∀ k ∈ m.knownTxs, k.txid ≠ txid) ∧ m.writeKnownOne w txid now = (.error .notFound, m)) := by
  unfold writeKnownOne
  by_cases h1 : m.knownTxs.any (fun k => k.txid = txid && w.guard now k)
  · obtain ⟨k, hk, hg⟩ := Table.any_eq_true.mp h1
    simp only [Bool.and_eq_true, decide_eq_true_eq] at hg
    exact Or.inl ⟨k, hk, hg.1, hg.2, if_pos h1⟩
  · have hno := Table.any_eq_false.mp (Bool.eq_false_iff.mpr h1)
    by_cases h2 : m.knownTxs.any (fun k => decide (k.txid = txid))
    · obtain ⟨k, hk, ht⟩ := Table.any_eq_true.mp h2
      have hg := hno k hk
      simp only [ht, Bool.true_and] at hg
      exact Or.inr (Or.inl ⟨k, hk, of_decide_eq_true ht, hg, by rw [if_neg h1, if_pos h2]⟩)
    · refine Or.inr (Or.inr ⟨fun k hk => ?_, by rw [if_neg h1, if_neg h2]⟩)
      exact of_decide_eq_false (Table.any_eq_false.mp (Bool.eq_false_iff.mpr h2) k hk)

theorem writeKnownOne_transactions (w : KnownWrite) (t : TxID) (now : Time) (m : Metadata) :
    (m.writeKnownOne w t now).2.transactions = m.transactions := by
  rcases writeKnownOne_cases w t now m with ⟨-, -, -, -, h⟩ | ⟨-, -, -, -, h⟩ | ⟨-, h⟩ <;> rw [h]
  rfl

theorem writeKnownOne_outputs (w : KnownWrite) (t : TxID) (now : Time) (m : Metadata) :
    (m.writeKnownOne w t now).2.outputs = m.outputs := by
  rcases writeKnownOne_cases w t now m with ⟨-, -, -, -, h⟩ | ⟨-, -, -, -, h⟩ | ⟨-, h⟩ <;> rw [h]
  rfl

/-- The row of the txid a write is about. -/
theorem get?_writeKnownOne (w : KnownWrite) (t : TxID) (now : Time) (m : Metadata) :
    (m.writeKnownOne w t now).2.knownTxs.get? t
      = (m.knownTxs.get? t).map fun k => if w.guard now k then w.edit now k else k := by
  rcases writeKnownOne_cases w t now m with ⟨k, hk, ht, hg, h⟩ | ⟨k, hk, ht, hg, h⟩ | ⟨hno, h⟩
  · rw [h]
    change (m.writeKnown w now fun t' => t' = t).knownTxs.get? t = _
    rw [writeKnown, @Table.get?_update _ _ _ m.knownTxs _ _ _ (fun k => w.edit_txid now k) t,
      Table.get?_eq_some.mpr ⟨hk, ht⟩]
    simp [ht]
  · rw [h, Table.get?_eq_some.mpr ⟨hk, ht⟩]
    simp [hg]
  · rw [h, Table.get?_eq_none.mpr hno]
    rfl

theorem upsertKnown_cases (kt : NewKnownTx) (skip : List ProvenTxReqStatus) (now : Time)
    (m : Metadata) :
    ((∀ k ∈ m.knownTxs, k.txid ≠ kt.txid) ∧ m.upsertKnown kt skip now
        = (.ok (), { m with knownTxs := m.knownTxs.insert (newKnownRow kt now) }))
    ∨ ∃ k ∈ m.knownTxs, k.txid = kt.txid ∧
        ((k.status ∈ skip ∧ m.upsertKnown kt skip now = (.error .skipped, m))
        ∨ (k.status ∉ skip ∧ m.upsertKnown kt skip now
            = (.ok (), m.writeKnown (.upsert kt skip) now fun t => t = kt.txid))) := by
  unfold upsertKnown
  rcases hg : m.knownTxs.get? kt.txid with _ | k
  · exact Or.inl ⟨Table.get?_eq_none.mp hg, rfl⟩
  · obtain ⟨hk, ht⟩ := Table.get?_eq_some.mp hg
    refine Or.inr ⟨k, hk, ht, ?_⟩
    by_cases hs : k.status ∈ skip
    · exact Or.inl ⟨hs, if_pos hs⟩
    · exact Or.inr ⟨hs, if_neg hs⟩

end Metadata

/-! ## The repository -/

namespace KnownTx

/-- A completed transaction with a proof at or above the fork. -/
def provenFrom (height : ℕ) (k : KnownTx) : Bool :=
  k.status = .completed && k.proof.any fun pr => height ≤ pr.height

/-- `ORDER BY block_height ASC, txid ASC`. -/
def lowestFirst (a b : KnownTx) : Prop :=
  a.proof.elim 0 (·.height) < b.proof.elim 0 (·.height)
    ∨ (a.proof.elim 0 (·.height) = b.proof.elim 0 (·.height) ∧ a.txid ≤ b.txid)

instance : DecidableRel lowestFirst := fun _ _ => inferInstanceAs (Decidable (_ ∨ _))

end KnownTx

namespace Storage

namespace KnownTxRepo

def upsert (kt : NewKnownTx) (skip : List ProvenTxReqStatus) : Work Unit :=
  metaStmt (Metadata.upsertKnown kt skip)

def write (w : KnownWrite) (txid : TxID) : Work Unit := metaStmt (Metadata.writeKnownOne w txid)

/-- A set-based statement: rows that are missing or that the guard refuses are passed over. -/
def bulkWrite (w : KnownWrite) (txids : List TxID) : Work Unit :=
  metaStmt fun now m => (.ok (), m.writeKnown w now fun t => t ∈ txids)

def updateStatus (txid : TxID) (st : ProvenTxReqStatus) (skip : List ProvenTxReqStatus) :
    Work Unit :=
  write (.updateStatus st skip) txid

def bulkUpdateStatus (txids : List TxID) (st : ProvenTxReqStatus) (skip : List ProvenTxReqStatus) :
    Work Unit :=
  bulkWrite (.updateStatus st skip) txids

def markSuspectFailed (txid : TxID) (since : Time) (reason : String) : Work Unit :=
  write (.markSuspectFailed since reason) txid

def markSuspect (txid : TxID) (since : Time) (competing : List TxID) (st : ArcadeStatus)
    (reason : String) : Work Unit :=
  write (.markSuspect since competing st reason) txid

/-- A stamp that does not apply is no error. -/
def stampVerifiedRejected (txid : TxID) (time : Time) : Work Unit :=
  bulkWrite (.stampVerifiedRejected time) [txid]

def transitionSuspect (txid : TxID) (st : ProvenTxReqStatus) : Work Unit :=
  write (.transitionSuspect st) txid

def transitionToAborted (txid : TxID) : Work Unit := write (.casFromPreBroadcast .aborted) txid

/-- Only one sender wins the row. -/
def claimForSend (txid : TxID) : Work Unit := write (.casFromPreBroadcast .sending) txid

/-- Take over a claim that was not followed up. -/
def reclaimStaleSend (txid : TxID) (grace : ℤ) : Work Unit := write (.reclaimStaleSend grace) txid

def setProof (txid : TxID) (proof : Proof) : Work Unit := write (.setProof proof) txid

def clearProof (txid : TxID) (st : ProvenTxReqStatus) : Work Unit := write (.clearProof st) txid

def setArcadeStatus (txid : TxID) (st : ArcadeStatus) : Work Unit :=
  write (.setArcadeStatus st) txid

def bulkSetArcadeStatus (txids : List TxID) (st : ArcadeStatus) : Work Unit :=
  bulkWrite (.setArcadeStatus st) txids

def markPolled (txids : List TxID) : Work Unit := bulkWrite .markPolled txids

def findByTxID (txid : TxID) : Work (Option KnownTx) := metaQuery fun m => m.knownTxs.get? txid

def findByTxIDs (txids : List TxID) : Work (List KnownTx) :=
  metaQuery fun m => m.knownTxs.select fun k => k.txid ∈ txids

/-- The send sweep's work list. -/
def resendable (grace : ℤ) (now : Time) (k : KnownTx) : Bool :=
  !k.wasBroadcast && k.rawTx.isSome
    && (k.status = .unsent
      || ((k.status = .unprocessed || k.status = .sending) && k.updatedAt ≤ now - grace))

/-- `ORDER BY created_at ASC, txid ASC`. -/
def createdFirst (a b : KnownTx) : Prop :=
  a.createdAt < b.createdAt ∨ (a.createdAt = b.createdAt ∧ a.txid ≤ b.txid)

instance : DecidableRel createdFirst := fun _ _ => inferInstanceAs (Decidable (_ ∨ _))

/-- `pollOrder`: least recently polled first. -/
def polledFirst (a b : KnownTx) : Prop :=
  a.lastPolledAt < b.lastPolledAt ∨ (a.lastPolledAt = b.lastPolledAt ∧
    (a.updatedAt < b.updatedAt ∨ (a.updatedAt = b.updatedAt ∧ a.txid ≤ b.txid)))

instance : DecidableRel polledFirst := fun _ _ => inferInstanceAs (Decidable (_ ∨ _))

def findResendable (grace : ℤ) (limit : ℕ) : Work (List KnownTx) :=
  metaStmt fun now m =>
    (.ok (((m.knownTxs.select (resendable grace now)).insertionSort createdFirst).take limit), m)

def findSuspectFailed (grace : ℤ) (limit : ℕ) : Work (List KnownTx) :=
  metaStmt fun now m =>
    (.ok (((m.knownTxs.select fun k => k.status = .suspectFailed
      && k.suspectSince.any fun t => t ≤ now - grace).insertionSort
        fun a b => a.suspectSince.getD 0 ≤ b.suspectSince.getD 0).take limit), m)

def findByStatusOlderThan (cutoff : Time) (limit : ℕ) (statuses : List ProvenTxReqStatus) :
    Work (List KnownTx) :=
  metaQuery fun m => ((m.knownTxs.select fun k => k.status ∈ statuses && k.updatedAt
      ≤ cutoff).insertionSort
    polledFirst).take limit

/-- The oracle says mined, a transactions row says written off. -/
def findMinedOnDeadTransactions (limit : ℕ) : Work (List KnownTx) :=
  metaQuery fun m => ((m.knownTxs.select fun k => k.arcadeStatus.any (·.isMinedClass)
    && m.transactions.any fun r => r.txid = some k.txid
      && (r.status = .aborted || r.status = .failed)).insertionSort polledFirst).take limit

def findProvenAtOrAbove (height limit : ℕ) : Work (List KnownTx) :=
  metaQuery fun m =>
    ((m.knownTxs.select (KnownTx.provenFrom height)).insertionSort KnownTx.lowestFirst).take limit

end KnownTxRepo

end Storage

end ArcadeToolbox
