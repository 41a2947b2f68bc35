import ArcadeToolbox.Lib.Locks
import ArcadeToolbox.Storage.CreateHolds
import ArcadeToolbox.System.Units
import Mathlib.Data.List.Dedup
import Mathlib.Data.Prod.Lex
import Mathlib.Logic.Equiv.List

/-!
# The row locks of a status batch

On PostgreSQL a status batch locks rows of `known_txs` and `transactions` until it commits. Each of
its statements takes its rows in ascending order of the stored txid. Batches of one class agree on
an order of the rows, and never wait for each other in a cycle; nor do mixed ones whose phases
ascend too. But records of the SEEN class lock `transactions` before `known_txs`, MINED ones the
other way round: one of each, of one transaction, is enough for a cycle.
-/

namespace ArcadeToolbox

open Txn

/-- A row that can be locked. -/
inductive LockRow where
  | known (txid : TxID)
  | transaction (txid : TxID) (id : TransactionID)
  deriving DecidableEq, Repr

namespace LockRow

variable (encTxID : TxID → ℕ)

/-- The rows of `transactions`, then those of `known_txs`; in a table by the stored txid, then by
the key. -/
def rank : LockRow → ℕ ×ₗ ℕ ×ₗ ℕ
  | transaction txid id => toLex (0, toLex (encTxID txid, id))
  | known txid => toLex (1, toLex (encTxID txid, 0))

/-- The batches that report a transaction mined lock its row in `known_txs` before those in
`transactions`. -/
def Behind (mined : TxID → Prop) : LockRow → LockRow → Prop
  | transaction t _, known t' => t' = t ∧ mined t
  | _, _ => False

end LockRow

namespace Storage

/-- The orders in which the statuses of the records come out of the maps they are grouped by. -/
structure MapOrders (plan : BatchPlan) where
  seen : List ArcadeStatus
  mined : List ArcadeStatus
  arcadeOnly : List ArcadeStatus
  seen_perm : seen.Perm (plan.seen.map (·.status)).dedup
  mined_perm : mined.Perm (plan.verified.map (·.1.status)).dedup
  arcadeOnly_perm : arcadeOnly.Perm (plan.arcadeOnly.map (·.status)).dedup

section Locks

-- the stored bytes of a txid, as a number
variable (encTxID : TxID → ℕ) (m : Metadata)

def sortedRawTxIDs (txids : List TxID) : List TxID :=
  txids.dedup.insertionSort fun a b => encTxID a ≤ encTxID b

/-- The rows that are there, in order. -/
def knownRows (txids : List TxID) : List LockRow :=
  ((sortedRawTxIDs encTxID txids).filter fun t => m.knownTxs.any (·.txid = t)).map .known

/-- One txid can have a row for each user. -/
def transactionRows (txids : List TxID) : List LockRow :=
  (sortedRawTxIDs encTxID txids).flatMap fun t =>
    (((m.transactions.select (·.txid = some t)).map (·.transactionID)).insertionSort (· ≤ ·)).map
        (.transaction t)

/-- The sub-select over two or more txids locks all their rows. A statement over one has no
sub-select, and locks what meets its whole condition. -/
def txidLockOrderedIn (txids : List TxID) (guarded : Bool) (rows : List LockRow) :
    List (LockRequest LockRow) :=
  rows.map fun r => ⟨r, !guarded || 2 ≤ txids.dedup.length⟩

/-- The locks of `BulkUpdateStatusByTxIDs`. -/
def bulkUpdateStatusByTxIDsLocks (txids : List TxID) : List (LockRequest LockRow) :=
  txidLockOrderedIn txids true (transactionRows encTxID m txids)

def bulkClearInputBEEFByTxIDsLocks (txids : List TxID) : List (LockRequest LockRow) :=
  txidLockOrderedIn txids true (transactionRows encTxID m txids)

def bulkUpdateStatusLocks (txids : List TxID) : List (LockRequest LockRow) :=
  txidLockOrderedIn txids true (knownRows encTxID m txids)

def bulkSetArcadeStatusLocks (txids : List TxID) : List (LockRequest LockRow) :=
  txidLockOrderedIn txids false (knownRows encTxID m txids)

/-- `SetProof` and `MarkSuspect`: one row, by its txid. -/
def knownTxLock (txid : TxID) : List (LockRequest LockRow) :=
  txidLockOrderedIn [txid] false (knownRows encTxID m [txid])

def setArcadeStatusBatchLocks (order : List ArcadeStatus) (recs : List TxRecord) :
    List (LockRequest LockRow) :=
  order.flatMap fun st => bulkSetArcadeStatusLocks encTxID m
      ((recs.filter (·.status = st)).map (·.txid))

/-- The locks of `applySeenBatch`. -/
def applySeenBatchLocks (order : List ArcadeStatus) (recs : List TxRecord) :
    List (LockRequest LockRow) :=
  bulkUpdateStatusByTxIDsLocks encTxID m (recs.map (·.txid))
    ++ bulkUpdateStatusLocks encTxID m (recs.map (·.txid))
    ++ setArcadeStatusBatchLocks encTxID m order recs

/-- The proofs are sorted before anything is written. -/
def applyMinedBatchLocks (order : List ArcadeStatus) (recs : List TxRecord) :
    List (LockRequest LockRow) :=
  (recs.insertionSort fun a b => encTxID a.txid ≤ encTxID b.txid).flatMap (fun rec =>
      knownTxLock encTxID m rec.txid)
    ++ setArcadeStatusBatchLocks encTxID m order recs
    ++ bulkUpdateStatusByTxIDsLocks encTxID m (recs.map (·.txid))
    ++ bulkClearInputBEEFByTxIDsLocks encTxID m (recs.map (·.txid))

/-- The locks of `applyRejectedBatch`. -/
def applyRejectedBatchLocks (recs : List TxRecord) : List (LockRequest LockRow) :=
  recs.flatMap fun rec => knownTxLock encTxID m rec.txid

/-- The rows that the unit of work of a batch locks, in the order of its statements. -/
def applyBatchLocks (plan : BatchPlan) (order : MapOrders plan) : List (LockRequest LockRow) :=
  applySeenBatchLocks encTxID m order.seen plan.seen
    ++ applyMinedBatchLocks encTxID m order.mined (plan.verified.map (·.1))
    ++ applyRejectedBatchLocks encTxID m plan.rejected
    ++ setArcadeStatusBatchLocks encTxID m order.arcadeOnly plan.arcadeOnly

end Locks

section Rows

variable {encTxID : TxID → ℕ} {m m' : Metadata} {txids : List TxID}

@[simp] theorem mem_sortedRawTxIDs {t : TxID} : t ∈ sortedRawTxIDs encTxID txids ↔ t ∈ txids := by
  simp [sortedRawTxIDs]

variable {x : LockRow}

theorem mem_knownRows : x ∈ knownRows encTxID m txids ↔
    ∃ t ∈ txids, (∃ k ∈ m.knownTxs, k.txid = t) ∧ x = .known t := by
  simp only [knownRows, List.mem_map, List.mem_filter, mem_sortedRawTxIDs, Table.any_eq_true,
      decide_eq_true_eq]
  exact ⟨fun ⟨t, ⟨ht, hk⟩, hx⟩ => ⟨t, ht, hk, hx.symm⟩, fun ⟨t, ht, hk, hx⟩ =>
      ⟨t, ⟨ht, hk⟩, hx.symm⟩⟩

theorem mem_transactionRows : x ∈ transactionRows encTxID m txids ↔
    ∃ t ∈ txids, ∃ r ∈ m.transactions, r.txid = some t ∧ x = .transaction t r.transactionID := by
  simp only [transactionRows, List.mem_flatMap, mem_sortedRawTxIDs, List.mem_map,
      List.mem_insertionSort,
    Table.mem_select, decide_eq_true_eq]
  constructor
  · rintro ⟨t, ht, id, ⟨r, ⟨hr, hrt⟩, rfl⟩, rfl⟩
    exact ⟨t, ht, r, hr, hrt, rfl⟩
  · rintro ⟨t, ht, r, hr, hrt, rfl⟩
    exact ⟨t, ht, _, ⟨r, ⟨hr, hrt⟩, rfl⟩, rfl⟩

/-- The row is among those that are asked for. -/
def Asks (locks : List (LockRequest LockRow)) (x : LockRow) : Prop := ∃ q ∈ locks, q.row = x

theorem asks_append {l l' : List (LockRequest LockRow)} : Asks (l ++ l') x ↔ Asks l x
    ∨ Asks l' x := by
  simp only [Asks, List.mem_append, or_and_right, exists_or]

theorem asks_txidLockOrderedIn {guarded : Bool} {rows : List LockRow} :
    Asks (txidLockOrderedIn txids guarded rows) x ↔ x ∈ rows := by
  simp [Asks, txidLockOrderedIn]

theorem asks_flatMap {α : Type} {f : α → List (LockRequest LockRow)} {l : List α} :
    Asks (l.flatMap f) x ↔ ∃ a ∈ l, Asks (f a) x := by
  simp only [Asks, List.mem_flatMap]
  exact ⟨fun ⟨q, ⟨a, ha, hq⟩, hx⟩ => ⟨a, ha, q, hq, hx⟩, fun ⟨a, ha, q, hq, hx⟩ =>
      ⟨q, ⟨a, ha, hq⟩, hx⟩⟩

theorem asks_setArcadeStatusBatchLocks {order : List ArcadeStatus} {recs : List TxRecord}
    (horder : order.Perm (recs.map (·.status)).dedup) {rec : TxRecord} (hrec : rec ∈ recs)
    (hk : ∃ k ∈ m.knownTxs, k.txid = rec.txid) :
    Asks (setArcadeStatusBatchLocks encTxID m order recs) (.known rec.txid) := by
  refine asks_flatMap.mpr ⟨rec.status, ?_,
      asks_txidLockOrderedIn.mpr (mem_knownRows.mpr ⟨rec.txid, ?_, hk, rfl⟩)⟩
  · rw [horder.mem_iff, List.mem_dedup]
    exact List.mem_map_of_mem hrec
  · exact List.mem_map_of_mem (List.mem_filter.mpr ⟨hrec, by simp⟩)

end Rows

/-- The single writes that the unit of a batch is made of: each is about transactions of its
records. -/
def BatchWrite (plan : BatchPlan) : MetaOp → Prop
  | .known _ t => t ∈ plan.verified.map (·.1.txid) ++ plan.rejected.map (·.txid)
  | .knownAll _ ts =>
    ∀ t ∈ ts, t ∈ (plan.seen ++ plan.verified.map (·.1) ++ plan.arcadeOnly).map (·.txid)
  | .txStatus _ _ ts => ∀ t ∈ ts, t ∈ plan.seen.map (·.txid) ++ plan.verified.map (·.1.txid)
  | _ => False

theorem trace_batchWrite (p : Provider) (plan : BatchPlan) :
    Uow.Moves (Trace (BatchWrite plan) fun _ => True) (applyBatch p plan) := by
  refine trace_applyBatch (fun _ _ => trivial) p ?_ ?_ ?_ ?_ ?_ ?_ trivial fun _ _ => trivial
  · exact fun t ht => List.mem_append_left _ ht
  · exact fun t ht => List.mem_append_right _ ht
  · intro t ht
    simp only [List.map_append, List.mem_append]
    exact Or.inl (Or.inl ht)
  · exact fun pr hpr => List.mem_append_left _ (List.mem_map_of_mem (f := fun pr => pr.1.txid) hpr)
  · exact fun rec hrec now => List.mem_append_right _ (List.mem_map_of_mem hrec)
  · intro rec hrec t ht
    rw [List.mem_singleton.mp ht]
    exact List.mem_map_of_mem hrec

section Asked

variable {plan : BatchPlan} {order : MapOrders plan} {encTxID : TxID → ℕ} {m m' : Metadata}
  {now : Time}

theorem asks_known {t : TxID} (ht : t ∈ plan.rejected.map (·.txid)
      ++ (plan.seen ++ plan.verified.map (·.1) ++ plan.arcadeOnly).map (·.txid))
    (hk : ∃ k ∈ m.knownTxs, k.txid = t) :
    Asks (applyBatchLocks encTxID m plan order) (.known t) := by
  have hrow : ∀ {ts : List TxID}, t ∈ ts → LockRow.known t ∈ knownRows encTxID m ts :=
    fun hts => mem_knownRows.mpr ⟨t, hts, hk, rfl⟩
  unfold applyBatchLocks applySeenBatchLocks applyMinedBatchLocks applyRejectedBatchLocks
  simp only [asks_append, asks_flatMap]
  simp only [List.map_append, List.mem_append, List.mem_map] at ht
  rcases ht with ⟨rec, hrec, rfl⟩ | (⟨rec, hrec, rfl⟩ | ⟨rec, ⟨pr, hpr, rfl⟩, rfl⟩) | ⟨rec,
      hrec, rfl⟩
  · exact Or.inl (Or.inr ⟨rec, hrec, asks_txidLockOrderedIn.mpr (hrow (List.mem_singleton_self _))⟩)
  · exact Or.inl
      (Or.inl (Or.inl (Or.inl (Or.inr (asks_txidLockOrderedIn.mpr
      (hrow (List.mem_map_of_mem hrec)))))))
  · refine Or.inl (Or.inl (Or.inr (Or.inl (Or.inl (Or.inl ⟨pr.1, ?_, ?_⟩)))))
    · exact (List.mem_insertionSort _).mpr (List.mem_map_of_mem hpr)
    · exact asks_txidLockOrderedIn.mpr (hrow (List.mem_singleton_self _))
  · exact Or.inr (asks_setArcadeStatusBatchLocks order.arcadeOnly_perm hrec hk)

theorem asks_transaction {t : TxID} {r : TxRow} (hr : r ∈ m.transactions) (hrt : r.txid = some t)
    (ht : t ∈ plan.seen.map (·.txid) ++ plan.verified.map (·.1.txid)) :
    Asks (applyBatchLocks encTxID m plan order) (.transaction t r.transactionID) := by
  have hrow : ∀ {ts : List TxID}, t ∈ ts → LockRow.transaction t r.transactionID
      ∈ transactionRows encTxID m ts :=
    fun hts => mem_transactionRows.mpr ⟨t, hts, r, hr, hrt, rfl⟩
  unfold applyBatchLocks applySeenBatchLocks applyMinedBatchLocks
  simp only [asks_append]
  rcases List.mem_append.mp ht with ht | ht
  · exact Or.inl (Or.inl (Or.inl (Or.inl (Or.inl (asks_txidLockOrderedIn.mpr (hrow ht))))))
  · refine Or.inl (Or.inl (Or.inr (Or.inl (Or.inr (asks_txidLockOrderedIn.mpr (hrow ?_))))))
    rwa [List.map_map]

/-- The rows that differ are locked by the batch; no row is new, and none is gone. -/
structure Within (encTxID : TxID → ℕ) (plan : BatchPlan) (order : MapOrders plan)
    (m m' : Metadata) : Prop where
  knownKept : ∀ k ∈ m.knownTxs, ∃ k' ∈ m'.knownTxs, k'.txid = k.txid
  transactionsKept : ∀ r ∈ m.transactions, ∃ r' ∈ m'.transactions,
      r'.transactionID = r.transactionID
  known : ∀ k' ∈ m'.knownTxs, (∃ k ∈ m.knownTxs, k.txid = k'.txid)
    ∧ (k' ∈ m.knownTxs ∨ Asks (applyBatchLocks encTxID m plan order) (.known k'.txid))
  transactions : ∀ r' ∈ m'.transactions,
    (∃ r ∈ m.transactions, r.transactionID = r'.transactionID ∧ r.txid = r'.txid)
    ∧ (r' ∈ m.transactions ∨ ∃ t, r'.txid = some t
      ∧ Asks (applyBatchLocks encTxID m plan order) (.transaction t r'.transactionID))

theorem Within.writeKnown (h : Within encTxID plan order m m') {w : KnownWrite} {sel : TxID → Bool}
    (hsel : ∀ t, sel t = true → t ∈ plan.rejected.map (·.txid)
      ++ (plan.seen ++ plan.verified.map (·.1) ++ plan.arcadeOnly).map (·.txid)) :
    Within encTxID plan order m (m'.writeKnown w now sel) := by
  refine ⟨fun k hk => ?_, h.transactionsKept, fun x hx => ?_, h.transactions⟩
  · obtain ⟨k', hk', ht⟩ := h.knownKept k hk
    refine ⟨_, Metadata.mem_writeKnown.mpr ⟨k', hk', rfl⟩, ?_⟩
    split
    · rwa [w.edit_txid]
    · exact ht
  obtain ⟨k, hk, rfl⟩ := Metadata.mem_writeKnown.mp hx
  obtain ⟨hold, hrow⟩ := h.known k hk
  split
  · rename_i hw
    rw [w.edit_txid]
    exact ⟨hold, Or.inr (asks_known (hsel _ (Bool.and_eq_true_iff.mp hw).1) hold)⟩
  · exact ⟨hold, hrow⟩

theorem Within.step {op : MetaOp} (hop : BatchWrite plan op) (h : Within encTxID plan order m m') :
    Within encTxID plan order m (op.apply now m') := by
  cases op with
  | known w t =>
    have hwrite : Within encTxID plan order m (m'.writeKnown w now fun t' => t' = t) := by
      refine h.writeKnown fun t' ht' => ?_
      rw [of_decide_eq_true ht']
      simp only [BatchWrite, List.mem_append] at hop
      simp only [List.map_append, List.map_map, List.mem_append]
      exact hop.elim (fun h => Or.inr (Or.inl (Or.inr h))) Or.inl
    change Within encTxID plan order m (m'.writeKnownOne w t now).2
    unfold Metadata.writeKnownOne
    split_ifs
    · exact ⟨hwrite.knownKept, hwrite.transactionsKept, hwrite.known, hwrite.transactions⟩
    · exact h
    · exact h
  | knownAll w ts =>
    exact h.writeKnown fun t ht => List.mem_append_right _ (hop t (of_decide_eq_true ht))
  | txStatus st expected ts =>
    refine ⟨h.knownKept, fun r hr => ?_, h.known, fun x hx => ?_⟩
    · obtain ⟨r', hr', hid⟩ := h.transactionsKept r hr
      refine ⟨_, Metadata.mem_writeTx.mpr ⟨r', hr', rfl⟩, ?_⟩
      split <;> exact hid
    obtain ⟨r, hr, rfl⟩ := Metadata.mem_writeTx.mp hx
    obtain ⟨⟨r0, hr0, hid, htx⟩, hrow⟩ := h.transactions r hr
    split
    · rename_i hw
      refine ⟨⟨r0, hr0, hid, htx⟩, Or.inr ?_⟩
      obtain ⟨t, hrt, ht⟩ : ∃ t, r.txid = some t ∧ decide (t ∈ ts) = true := by
        have hany := (Bool.and_eq_true_iff.mp hw).1
        rcases hrt : r.txid with _ | t <;> rw [hrt] at hany
        · cases hany
        · exact ⟨t, rfl, hany⟩
      have hask : Asks (applyBatchLocks encTxID m plan order) (.transaction t r0.transactionID) :=
        asks_transaction hr0 (htx.trans hrt) (hop t (of_decide_eq_true ht))
      rw [hid] at hask
      exact ⟨t, hrt, hask⟩
    · exact ⟨⟨r0, hr0, hid, htx⟩, hrow⟩
  | _ => exact hop.elim

/-- What the unit of a batch changes is among the rows it locks. -/
theorem applyBatch_within_locks (p : Provider) (s : Session Db) :
    Within encTxID plan order s.db.metadata (applyBatch p plan s).2.db.metadata := by
  refine TimedPath.keeps (trace_batchWrite p plan s).writes ?_ ?_
  · rintro t m1 m2 ⟨op, hop, -, rfl⟩ h
    exact h.step hop
  · exact ⟨fun k hk => ⟨k, hk, rfl⟩, fun r hr => ⟨r, hr, rfl⟩, fun k hk =>
      ⟨⟨k, hk, rfl⟩, Or.inl hk⟩,
      fun r hr => ⟨⟨r, hr, rfl, rfl⟩, Or.inl hr⟩⟩

end Asked

/-- The unit of work of a batch. -/
structure BatchTxn where
  plan : BatchPlan
  order : MapOrders plan

/-- The locks of the whole unit of work. -/
def BatchTxn.locks (encTxID : TxID → ℕ) (m : Metadata) (b : BatchTxn) :
    List (LockRequest LockRow) :=
  applyBatchLocks encTxID m b.plan b.order

section Along

variable {encTxID : TxID → ℕ} {m : Metadata} {txids : List TxID} {recs recs' : List TxRecord}
  {mined : TxID → Prop}

theorem not_gated_known (t : TxID) : ¬ Locking.Gated (LockRow.Behind mined) (.known t) :=
  fun ⟨_, h⟩ => h

theorem rises_known (henc : Function.Injective encTxID) {a b : TxID} (h : encTxID a ≤ encTxID b) :
    Locking.Rises (LockRow.rank encTxID) (.known a) (.known b) := fun hne =>
  Prod.Lex.right _ (Prod.Lex.left _ _
      (lt_of_le_of_ne h (henc.ne (ne_of_apply_ne LockRow.known hne))))

theorem pairwise_sortedRawTxIDs (henc : Function.Injective encTxID) :
    (sortedRawTxIDs encTxID txids).Pairwise fun a b => encTxID a < encTxID b := by
  have hle : (sortedRawTxIDs encTxID txids).Pairwise fun a b => encTxID a ≤ encTxID b := by
    have : IsTrans TxID fun a b => encTxID a ≤ encTxID b := ⟨fun _ _ _ => Nat.le_trans⟩
    have : Std.Total fun a b => encTxID a ≤ encTxID b := ⟨fun _ _ => Nat.le_total _ _⟩
    exact List.pairwise_insertionSort _ _
  have hne : (sortedRawTxIDs encTxID txids).Nodup :=
    (List.perm_insertionSort _ _).nodup_iff.mpr (List.nodup_dedup _)
  exact (hle.and hne).imp fun h => lt_of_le_of_ne h.1 (henc.ne h.2)

theorem rises_knownRows (henc : Function.Injective encTxID) :
    (knownRows encTxID m txids).Pairwise (Locking.Rises (LockRow.rank encTxID)) :=
  List.pairwise_map.mpr (((pairwise_sortedRawTxIDs henc).filter _).imp fun h =>
      rises_known henc h.le)

theorem rises_transactionRows (henc : Function.Injective encTxID) :
    (transactionRows encTxID m txids).Pairwise (Locking.Rises (LockRow.rank encTxID)) := by
  refine List.pairwise_flatMap.mpr ⟨fun t _ => ?_, (pairwise_sortedRawTxIDs henc).imp ?_⟩
  · refine List.pairwise_map.mpr ((List.pairwise_insertionSort (· ≤ ·) _).imp fun h hne => ?_)
    exact Prod.Lex.right _ (Prod.Lex.right _ (lt_of_le_of_ne h fun he => hne (he ▸ rfl)))
  · intro t t' h x hx y hy _
    obtain ⟨id, -, rfl⟩ := List.mem_map.mp hx
    obtain ⟨id', -, rfl⟩ := List.mem_map.mp hy
    exact Prod.Lex.right _ (Prod.Lex.left _ _ h)

/-- A row of `transactions`, or the shared row of one of the records. -/
def Early (recs : List TxRecord) (x : LockRow) : Prop :=
  (∃ t id, x = .transaction t id) ∨ ∃ rec ∈ recs, x = .known rec.txid

theorem rises_of_early (henc : Function.Injective encTxID)
    (h : ∀ a ∈ recs, ∀ b ∈ recs', encTxID a.txid ≤ encTxID b.txid) {x y : LockRow}
    (hx : Early recs x)
    (hy : ∃ rec ∈ recs', y = .known rec.txid) : Locking.Rises (LockRow.rank encTxID) x y := by
  obtain ⟨b, hb, rfl⟩ := hy
  rcases hx with ⟨t, id, rfl⟩ | ⟨a, ha, rfl⟩
  · exact fun _ => Prod.Lex.left _ _ Nat.zero_lt_one
  · exact rises_known henc (h a ha b hb)

theorem row_of_txidLockOrderedIn {guarded : Bool} {rows : List LockRow} {q : LockRequest LockRow}
    (hq : q ∈ txidLockOrderedIn txids guarded rows) : q.row ∈ rows := by
  obtain ⟨x, hx, rfl⟩ := List.mem_map.mp hq
  exact hx

theorem known_of_knownRows {x : LockRow} (hx : x ∈ knownRows encTxID m (recs.map (·.txid))) :
    ∃ rec ∈ recs, x = .known rec.txid := by
  obtain ⟨t, ht, -, rfl⟩ := mem_knownRows.mp hx
  obtain ⟨rec, hrec, rfl⟩ := List.mem_map.mp ht
  exact ⟨rec, hrec, rfl⟩

theorem row_of_setArcadeStatusBatchLocks {order : List ArcadeStatus} {q : LockRequest LockRow}
    (hq : q ∈ setArcadeStatusBatchLocks encTxID m order recs) :
    q.row ∈ knownRows encTxID m (recs.map (·.txid)) := by
  obtain ⟨st, -, hq⟩ := List.mem_flatMap.mp hq
  obtain ⟨t, ht, hk, hrow⟩ := mem_knownRows.mp (row_of_txidLockOrderedIn hq)
  obtain ⟨rec, hrec, rfl⟩ := List.mem_map.mp ht
  exact mem_knownRows.mpr ⟨rec.txid, List.mem_map_of_mem (List.mem_filter.mp hrec).1, hk, hrow⟩

theorem map_row_txidLockOrderedIn (txids : List TxID) (guarded : Bool) (rows : List LockRow) :
    (txidLockOrderedIn txids guarded rows).map (·.row) = rows := by
  unfold txidLockOrderedIn
  rw [List.map_map]
  exact List.map_id _

/-- The statements of the SEEN records: first the rows of `transactions`, then those of
`known_txs`. -/
theorem early_applySeenBatchLocks {order : List ArcadeStatus} {q : LockRequest LockRow}
    (hq : q ∈ applySeenBatchLocks encTxID m order recs) : Early recs q.row := by
  rcases List.mem_append.mp hq with hq | hq
  · rcases List.mem_append.mp hq with hq | hq
    · obtain ⟨t, -, r, -, -, hrow⟩ := mem_transactionRows.mp (row_of_txidLockOrderedIn hq)
      exact Or.inl ⟨t, _, hrow⟩
    · exact Or.inr (known_of_knownRows (row_of_txidLockOrderedIn hq))
  · exact Or.inr (known_of_knownRows (row_of_setArcadeStatusBatchLocks hq))

/-- The rows of the first two statements, in the order in which they are locked. -/
def seenRows (encTxID : TxID → ℕ) (m : Metadata) (recs : List TxRecord) : List LockRow :=
  transactionRows encTxID m (recs.map (·.txid)) ++ knownRows encTxID m (recs.map (·.txid))

theorem rises_seenRows (henc : Function.Injective encTxID) :
    (seenRows encTxID m recs).Pairwise (Locking.Rises (LockRow.rank encTxID)) := by
  refine List.pairwise_append.mpr ⟨rises_transactionRows henc, rises_knownRows henc,
    fun x hx y hy => ?_⟩
  obtain ⟨t, -, r, -, -, rfl⟩ := mem_transactionRows.mp hx
  obtain ⟨rec, -, rfl⟩ := known_of_knownRows hy
  exact fun _ => Prod.Lex.left _ _ Nat.zero_lt_one

theorem not_gated_seenRows (hseen : ∀ rec ∈ recs, ¬ mined rec.txid) {x : LockRow}
    (hx : x ∈ seenRows encTxID m recs) : ¬ Locking.Gated (LockRow.Behind mined) x := by
  rcases List.mem_append.mp hx with hx | hx
  · obtain ⟨t, ht, r, -, -, rfl⟩ := mem_transactionRows.mp hx
    obtain ⟨rec, hrec, rfl⟩ := List.mem_map.mp ht
    rintro ⟨_ | _, hg⟩
    · exact hseen rec hrec hg.2
    · exact hg
  · obtain ⟨rec, -, rfl⟩ := known_of_knownRows hx
    exact not_gated_known _

theorem map_row_seenLocks : (bulkUpdateStatusByTxIDsLocks encTxID m (recs.map (·.txid))
    ++ bulkUpdateStatusLocks encTxID m (recs.map (·.txid))).map (·.row)
      = seenRows encTxID m recs := by
  rw [List.map_append]
  exact congrArg₂ (· ++ ·) (map_row_txidLockOrderedIn _ _ _) (map_row_txidLockOrderedIn _ _ _)

theorem eq_of_mem_knownRows {txids : List TxID} (hone : ¬ 2 ≤ txids.dedup.length) {x y : LockRow}
    (hx : x ∈ knownRows encTxID m txids) (hy : y ∈ knownRows encTxID m txids) : x = y := by
  obtain ⟨t, ht, -, rfl⟩ := mem_knownRows.mp hx
  obtain ⟨t', ht', -, rfl⟩ := mem_knownRows.mp hy
  rw [← List.mem_dedup] at ht ht'
  rcases hd : txids.dedup with _ | ⟨a, _ | ⟨b, l⟩⟩ <;> simp_all

/-- The arcade statuses come last, for rows that the batch has locked, or for the only one it may
have. -/
theorem along_applySeenBatchLocks (henc : Function.Injective encTxID) (order : List ArcadeStatus)
    (hseen : ∀ rec ∈ recs, ¬ mined rec.txid) :
    Locking.Along (LockRow.rank encTxID) (LockRow.Behind mined)
      (applySeenBatchLocks encTxID m order recs) := by
  have hopen : ∀ q ∈ bulkUpdateStatusByTxIDsLocks encTxID m (recs.map (·.txid))
      ++ bulkUpdateStatusLocks encTxID m (recs.map (·.txid)),
      ¬ Locking.Gated (LockRow.Behind mined) q.row := fun q hq =>
    not_gated_seenRows hseen (map_row_seenLocks ▸ List.mem_map_of_mem hq)
  by_cases hmany : 2 ≤ (recs.map (·.txid)).dedup.length
  · refine (Locking.along_of_rises hopen (map_row_seenLocks ▸ rises_seenRows henc)).again
      fun q hq x hx => Or.inr ?_
    have hrow := row_of_setArcadeStatusBatchLocks hq
    obtain ⟨rec, -, hrec⟩ := known_of_knownRows hrow
    rw [hrec] at hx
    obtain ⟨-, rfl⟩ := hx.resolve_left fun h => not_gated_known _ ⟨x, h⟩
    refine ⟨⟨.known rec.txid, true⟩, List.mem_append_right _ (List.mem_map.mpr ⟨_, hrec ▸ hrow,
      ?_⟩), rfl, rfl⟩
    simp [hmany]
  · -- a single txid: its row is asked for again, and no other
    have hlast : ∀ x ∈ (setArcadeStatusBatchLocks encTxID m order recs).map (·.row),
        x ∈ knownRows encTxID m (recs.map (·.txid)) := by
      intro x hx
      obtain ⟨q, hq, rfl⟩ := List.mem_map.mp hx
      exact row_of_setArcadeStatusBatchLocks hq
    refine Locking.along_of_rises (fun q hq => ?_) ?_
    · rcases List.mem_append.mp hq with hq | hq
      · exact hopen q hq
      · exact not_gated_seenRows hseen
          (List.mem_append_right _ (row_of_setArcadeStatusBatchLocks hq))
    · unfold applySeenBatchLocks
      rw [List.map_append, map_row_seenLocks, List.pairwise_append]
      refine ⟨rises_seenRows henc, ?_, fun x hx y hy => ?_⟩
      · exact List.pairwise_of_forall_mem_list fun x hx y hy hne =>
          absurd (eq_of_mem_knownRows hmany (hlast x hx) (hlast y hy)) hne
      · rcases List.mem_append.mp hx with hx | hx
        · exact (List.pairwise_append.mp (rises_seenRows henc)).2.2 x hx y (hlast y hy)
        · exact fun hne => absurd (eq_of_mem_knownRows hmany hx (hlast y hy)) hne

theorem known_of_knownTxLocks {q : LockRequest LockRow}
    (hq : q ∈ recs.flatMap fun rec => knownTxLock encTxID m rec.txid) : ∃ rec ∈ recs,
      q.row = .known rec.txid := by
  obtain ⟨rec, hrec, hq⟩ := List.mem_flatMap.mp hq
  obtain ⟨t, ht, -, hrow⟩ := mem_knownRows.mp (row_of_txidLockOrderedIn hq)
  exact ⟨rec, hrec, hrow.trans (congrArg _ (List.mem_singleton.mp ht))⟩

/-- Statements for one row each, in ascending order. -/
theorem along_knownTxLocks (henc : Function.Injective encTxID)
    (h : recs.Pairwise fun a b => encTxID a.txid ≤ encTxID b.txid) :
    Locking.Along (LockRow.rank encTxID) (LockRow.Behind mined)
      (recs.flatMap fun rec => knownTxLock encTxID m rec.txid) := by
  refine Locking.along_of_rises (fun q hq => ?_) ?_
  · obtain ⟨rec, -, hrow⟩ := known_of_knownTxLocks hq
    exact hrow ▸ not_gated_known _
  · rw [List.map_flatMap]
    refine List.pairwise_flatMap.mpr ⟨fun rec _ => ?_, h.imp fun hle x hx y hy => ?_⟩
    · unfold knownTxLock
      rw [map_row_txidLockOrderedIn]
      exact rises_knownRows henc
    · unfold knownTxLock at hx hy
      rw [map_row_txidLockOrderedIn] at hx hy
      obtain ⟨t, ht, -, rfl⟩ := mem_knownRows.mp hx
      obtain ⟨t', ht', -, rfl⟩ := mem_knownRows.mp hy
      rw [List.mem_singleton.mp ht, List.mem_singleton.mp ht']
      exact rises_known henc hle

theorem known_of_applyMinedBatchLocks {order : List ArcadeStatus}
    (hmined : ∀ rec ∈ recs, mined rec.txid)
    {q : LockRequest LockRow} (hq : q ∈ applyMinedBatchLocks encTxID m order recs) :
    (∃ rec ∈ recs, q.row = .known rec.txid)
      ∨ ∃ rec ∈ recs, ∃ id, q.row = .transaction rec.txid id ∧ mined rec.txid := by
  have htransactions : ∀ q ∈ bulkUpdateStatusByTxIDsLocks encTxID m (recs.map (·.txid)),
      ∃ rec ∈ recs, ∃ id, q.row = .transaction rec.txid id ∧ mined rec.txid := by
    intro q hq
    obtain ⟨t, ht, r, -, -, hrow⟩ := mem_transactionRows.mp (row_of_txidLockOrderedIn hq)
    obtain ⟨rec, hrec, rfl⟩ := List.mem_map.mp ht
    exact ⟨rec, hrec, _, hrow, hmined rec hrec⟩
  rcases List.mem_append.mp hq with hq | hq
  · rcases List.mem_append.mp hq with hq | hq
    · rcases List.mem_append.mp hq with hq | hq
      · obtain ⟨rec, hrec, hrow⟩ := known_of_knownTxLocks hq
        exact Or.inl ⟨rec, (List.mem_insertionSort _).mp hrec, hrow⟩
      · exact Or.inl (known_of_knownRows (row_of_setArcadeStatusBatchLocks hq))
    · exact Or.inr (htransactions q hq)
  · exact Or.inr (htransactions q hq)

/-- The proofs lock the rows of `known_txs`; everything after that is about these rows or stands
behind them. -/
theorem along_applyMinedBatchLocks (henc : Function.Injective encTxID) (order : List ArcadeStatus)
    (hmined : ∀ rec ∈ recs, mined rec.txid) (hknown : ∀ rec ∈ recs, ∃ k ∈ m.knownTxs,
      k.txid = rec.txid) :
    Locking.Along (LockRow.rank encTxID) (LockRow.Behind mined)
      (applyMinedBatchLocks encTxID m order recs) := by
  have hsorted : (recs.insertionSort fun a b => encTxID a.txid ≤ encTxID b.txid).Pairwise
      fun a b => encTxID a.txid ≤ encTxID b.txid := by
    have : IsTrans TxRecord fun a b => encTxID a.txid ≤ encTxID b.txid :=
      ⟨fun _ _ _ => Nat.le_trans⟩
    have : Std.Total fun a b : TxRecord => encTxID a.txid ≤ encTxID b.txid :=
      ⟨fun _ _ => Nat.le_total _ _⟩
    exact List.pairwise_insertionSort _ _
  have hproofs : ∀ rec ∈ recs, ∃ q ∈ (recs.insertionSort fun a b =>
      encTxID a.txid ≤ encTxID b.txid).flatMap
      (fun rec => knownTxLock encTxID m rec.txid), q.sure = true ∧ q.row = .known rec.txid := by
    intro rec hrec
    refine ⟨⟨.known rec.txid, true⟩, List.mem_flatMap.mpr ⟨rec, (List.mem_insertionSort _).mpr hrec,
        ?_⟩, rfl, rfl⟩
    exact List.mem_map.mpr ⟨_, mem_knownRows.mpr ⟨rec.txid, List.mem_singleton_self _,
        hknown rec hrec, rfl⟩, rfl⟩
  unfold applyMinedBatchLocks
  rw [List.append_assoc, List.append_assoc]
  refine (along_knownTxLocks henc hsorted).again fun q hq x hx => Or.inr ?_
  have hq : q ∈ applyMinedBatchLocks encTxID m order recs := by
    unfold applyMinedBatchLocks
    rw [List.append_assoc, List.append_assoc]
    exact List.mem_append_right _ hq
  rcases known_of_applyMinedBatchLocks hmined hq with ⟨rec, hrec, hrow⟩ | ⟨rec, hrec, id, hrow, hm⟩
      <;> rw [hrow] at hx
  · obtain ⟨-, rfl⟩ := hx.resolve_left fun h => not_gated_known _ ⟨x, h⟩
    exact hproofs rec hrec
  · have hbehind := hx.resolve_right fun h => h.1 ⟨.known rec.txid, rfl, hm⟩
    cases x with
    | known t =>
      obtain ⟨rfl, -⟩ := hbehind
      exact hproofs rec hrec
    | transaction => exact hbehind.elim

/-- Records of one status are one statement. -/
theorem along_setArcadeStatusBatchLocks (henc : Function.Injective encTxID)
    {order : List ArcadeStatus} (horder : order.Perm (recs.map (·.status)).dedup)
    (hone : ∀ a ∈ recs, ∀ b ∈ recs, a.status = b.status) :
    Locking.Along (LockRow.rank encTxID) (LockRow.Behind mined)
      (setArcadeStatusBatchLocks encTxID m order recs) := by
  refine Locking.along_of_rises (fun q hq => ?_) ?_
  · obtain ⟨rec, -, hrow⟩ := known_of_knownRows (row_of_setArcadeStatusBatchLocks hq)
    exact hrow ▸ not_gated_known _
  · unfold setArcadeStatusBatchLocks bulkSetArcadeStatusLocks
    simp only [List.map_flatMap, map_row_txidLockOrderedIn]
    refine List.pairwise_flatMap.mpr ⟨fun _ _ => rises_knownRows henc, ?_⟩
    have hmem : ∀ st ∈ order, ∃ rec ∈ recs, rec.status = st := fun st hst =>
      List.mem_map.mp (List.mem_dedup.mp (horder.mem_iff.mp hst))
    have hnodup : order.Pairwise (· ≠ ·) := horder.nodup_iff.mpr (List.nodup_dedup _)
    refine hnodup.imp_of_mem fun {st st'} hst hst' hne => absurd ?_ hne
    obtain ⟨a, ha, rfl⟩ := hmem st hst
    obtain ⟨b, hb, rfl⟩ := hmem st' hst'
    exact hone a ha b hb

end Along

/-- The records as the batch applies them, phase by phase. -/
def BatchPlan.phases (plan : BatchPlan) : List (List TxRecord) :=
  [plan.seen, plan.verified.map (·.1), plan.rejected, plan.arcadeOnly]

/-- The txids ascend from phase to phase. The rejected ones, which are written as they came, have
come in ascending order, and the records that are kept for their arcade status alone are of one
status. -/
structure BatchPlan.Ascends (encTxID : TxID → ℕ) (plan : BatchPlan) : Prop where
  phases : plan.phases.Pairwise fun recs recs' => ∀ a ∈ recs, ∀ b ∈ recs',
      encTxID a.txid ≤ encTxID b.txid
  rejected : plan.rejected.Pairwise fun a b => encTxID a.txid ≤ encTxID b.txid
  arcadeOnly : ∀ a ∈ plan.arcadeOnly, ∀ b ∈ plan.arcadeOnly, a.status = b.status

/-- Batches of SEEN records alone, and of MINED records alone, ascend. -/
theorem ascends_of_one_phase {encTxID : TxID → ℕ} {plan : BatchPlan}
    (hrejected : plan.rejected = [])
    (harcade : plan.arcadeOnly = []) (h : plan.seen = [] ∨ plan.verified = []) :
    plan.Ascends encTxID := by
  refine ⟨?_, by simp [hrejected], by simp [harcade]⟩
  rcases h with h | h <;> simp [BatchPlan.phases, hrejected, harcade, h]

theorem along_batch {encTxID : TxID → ℕ} {m : Metadata} {mined : TxID → Prop}
    (henc : Function.Injective encTxID)
    (b : BatchTxn) (hasc : b.plan.Ascends encTxID) (hseen : ∀ rec ∈ b.plan.seen, ¬ mined rec.txid)
    (hmined : ∀ pr ∈ b.plan.verified, mined pr.1.txid)
    (hknown : ∀ pr ∈ b.plan.verified, ∃ k ∈ m.knownTxs, k.txid = pr.1.txid) :
    Locking.Along (LockRow.rank encTxID) (LockRow.Behind mined) (b.locks encTxID m) := by
  obtain ⟨hphases, hrejected, harcade⟩ := hasc
  simp only [BatchPlan.phases, List.pairwise_cons, List.mem_cons, List.not_mem_nil, or_false,
      forall_eq_or_imp,
    forall_eq] at hphases
  obtain ⟨⟨hsm, hsr, hsa⟩, ⟨hmr, hma⟩, hra, -⟩ := hphases
  have hmined' : ∀ rec ∈ b.plan.verified.map (·.1), mined rec.txid := by simpa using hmined
  have hknown' : ∀ rec ∈ b.plan.verified.map (·.1), ∃ k ∈ m.knownTxs, k.txid = rec.txid := by
    simpa using hknown
  -- what each phase leaves behind, and what it asks for
  have hearly : ∀ {q}, q ∈ applyMinedBatchLocks encTxID m b.order.mined
      (b.plan.verified.map (·.1)) →
      Early (b.plan.verified.map (·.1)) q.row := fun hq =>
    (known_of_applyMinedBatchLocks hmined' hq).symm.imp (fun ⟨rec, _, id, hrow, _⟩ =>
        ⟨_, id, hrow⟩) id
  have hopen : ∀ {q}, q ∈ applyMinedBatchLocks encTxID m b.order.mined (b.plan.verified.map (·.1)) →
      ¬ Locking.Gated (LockRow.Behind mined) q.row → ∃ rec ∈ b.plan.verified.map (·.1),
          q.row = .known rec.txid := by
    intro q hq hfree
    refine (known_of_applyMinedBatchLocks hmined' hq).resolve_right ?_
    rintro ⟨rec, -, id, hrow, hm⟩
    exact hfree (hrow ▸ ⟨.known rec.txid, rfl, hm⟩)
  have hlast : ∀ {q}, q ∈ setArcadeStatusBatchLocks encTxID m b.order.arcadeOnly b.plan.arcadeOnly →
      ∃ rec ∈ b.plan.arcadeOnly, q.row = .known rec.txid := fun hq =>
    known_of_knownRows (row_of_setArcadeStatusBatchLocks hq)
  refine Locking.AlongFrom.append (along_setArcadeStatusBatchLocks henc
      b.order.arcadeOnly_perm harcade)
    (Locking.AlongFrom.append (along_knownTxLocks henc hrejected)
      (Locking.AlongFrom.append (along_applyMinedBatchLocks henc _ hmined' hknown')
        (along_applySeenBatchLocks henc _ hseen) ?_) ?_) ?_ <;>
    rw [List.nil_append] <;> intro x hx _ q hq hfree <;> obtain ⟨q', hq', rfl⟩ := List.mem_map.mp hx
  · exact rises_of_early henc hsm (early_applySeenBatchLocks hq') (hopen hq hfree)
  · rcases List.mem_append.mp hq' with hq' | hq'
    · exact rises_of_early henc hsr (early_applySeenBatchLocks hq') (known_of_knownTxLocks hq)
    · exact rises_of_early henc hmr (hearly hq') (known_of_knownTxLocks hq)
  · rcases List.mem_append.mp hq' with hq' | hq'
    · rcases List.mem_append.mp hq' with hq' | hq'
      · exact rises_of_early henc hsa (early_applySeenBatchLocks hq') (hlast hq)
      · exact rises_of_early henc hma (hearly hq') (hlast hq)
    · exact rises_of_early henc hra (Or.inr (known_of_knownTxLocks hq')) (hlast hq)

def sentKnownTx : KnownTx :=
  { txid := "tx", status := .sending, arcadeStatus := none, wasBroadcast := false, rawTx := none,
    proof := none, competingTxs := [], suspectSince := none, verifiedRejectedAt := none,
    rejectReason := none, createdAt := 0, updatedAt := 0, lastPolledAt := 0 }

/-- A transaction that has been handed to the network. -/
def sentTx : Metadata :=
  { transactions := ⟨[⟨1, 1, .sending, "ref", true, 0, some "tx", 0⟩], by decide⟩,
    knownTxs := ⟨[sentKnownTx], by decide⟩, outputs := ∅, outbox := ∅, nextTransactionID := 2,
    nextOutputID := 1, audit := [] }

def minedEnv : Env := { Env.quiet with verifyMined := fun _ => some ⟨1, "block", "path", "root"⟩ }

/-- The plan of a batch of one record about it. -/
def sentPlan (st : ArcadeStatus) : BatchPlan :=
  batchPlan (plainProvider .a) minedEnv sentTx.knownTxs.rows [⟨"tx", st, 0, "", [], none⟩]

theorem perm_seen : ([.seenOnNetwork] : List ArcadeStatus).Perm
    ((sentPlan .seenOnNetwork).seen.map (·.status)).dedup := by decide

theorem perm_mined : ([.mined] : List ArcadeStatus).Perm
    ((sentPlan .mined).verified.map (·.1.status)).dedup := by decide

theorem perm_rest {st : ArcadeStatus} (hst : st = .seenOnNetwork ∨ st = .mined) :
    ([] : List ArcadeStatus).Perm ((sentPlan st).arcadeOnly.map (·.status)).dedup := by
  rcases hst with rfl | rfl <;> decide

theorem perm_seen_mined : ([] : List ArcadeStatus).Perm
    ((sentPlan .seenOnNetwork).verified.map (·.1.status)).dedup := by decide

theorem perm_mined_seen : ([] : List ArcadeStatus).Perm
    ((sentPlan .mined).seen.map (·.status)).dedup := by decide

def seenTxn : BatchTxn :=
  ⟨sentPlan .seenOnNetwork, ⟨[.seenOnNetwork], [], [], perm_seen, perm_seen_mined,
      perm_rest (Or.inl rfl)⟩⟩

def minedTxn : BatchTxn :=
  ⟨sentPlan .mined, ⟨[], [.mined], [], perm_mined_seen, perm_mined, perm_rest (Or.inr rfl)⟩⟩

/-- One batch says that the transaction has been seen, the other that it has been mined. -/
def racing (mined : Bool) : BatchTxn := if mined then minedTxn else seenTxn

/-- The SEEN batch has locked the row of its first statement, the MINED batch that of its first
two. -/
def raced (b : Bool) : Locking LockRow :=
  if b then ⟨[.known "tx", .known "tx"], (minedTxn.locks (fun _ => 0) sentTx).drop 2⟩
  else ⟨[.transaction "tx" 1], (seenTxn.locks (fun _ => 0) sentTx).drop 1⟩

theorem racing_reaches : Locking.Reachable (fun b =>
    (racing b).locks (fun _ => 0) sentTx) raced := by
  have hseen : seenTxn.locks (fun _ => 0) sentTx
      = ⟨.transaction "tx" 1, false⟩ :: (seenTxn.locks (fun _ => 0) sentTx).drop 1 := by decide
  have hmined : minedTxn.locks (fun _ => 0) sentTx = ⟨.known "tx", true⟩ :: ⟨.known "tx", true⟩ ::
      (minedTxn.locks (fun _ => 0) sentTx).drop 2 := by decide
  let s1 := Function.update (Locking.start fun b => (racing b).locks (fun _ => 0) sentTx)
    false ⟨[.transaction "tx" 1], (seenTxn.locks (fun _ => 0) sentTx).drop 1⟩
  let s2 := Function.update s1
    true ⟨[.known "tx"], ⟨.known "tx", true⟩ :: (minedTxn.locks (fun _ => 0) sentTx).drop 2⟩
  have hlast : raced = Function.update s2
      true ⟨[.known "tx", .known "tx"], (minedTxn.locks (fun _ => 0) sentTx).drop 2⟩ := by
    funext b
    cases b <;> rfl
  rw [hlast]
  refine .tail (b := s2) (.tail (b := s1) (.single ?_) ?_) ?_
  · exact Locking.Step.lock false ⟨LockRow.transaction "tx" 1, false⟩ _ hseen fun _ _ hx =>
      absurd hx List.not_mem_nil
  · refine Locking.Step.lock true ⟨LockRow.known "tx", true⟩ _ hmined fun j hj => ?_
    rw [Bool.eq_false_of_not_eq_true hj]
    decide
  · refine Locking.Step.lock true ⟨LockRow.known "tx", true⟩ _ rfl fun j hj => ?_
    rw [Bool.eq_false_of_not_eq_true hj]
    decide

/-- A txid as a number, character by character. -/
def numberOf (t : TxID) : ℕ := Encodable.encode (t.toList.map Char.toNat)

theorem numberOf_injective : Function.Injective numberOf := by
  have hchar : Function.Injective Char.toNat := fun _ _ h => Char.toNat_inj.mp h
  exact Encodable.encode_injective.comp ((List.map_injective_iff.mpr hchar).comp fun _ _ =>
      String.toList_inj.mp)

end Storage

end ArcadeToolbox
