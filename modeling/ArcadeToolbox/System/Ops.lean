import ArcadeToolbox.Lib.Trace
import ArcadeToolbox.Storage.Internalize
import ArcadeToolbox.Storage.Reconciler
import ArcadeToolbox.Storage.Rules
import ArcadeToolbox.Storage.Sweeps

/-!
# The writes of the two stores

A unit of work is a trace of single writes of the metadata and, apart from it, a trace of single
operations on the coins: in Mode B the coin operations of a unit that fails stay. Where several
statements only mean something together they are one write, with what its statements checked as a
condition.
-/

namespace ArcadeToolbox

open Txn

/-- The inventory with the record of what the outbox took out of it. -/
abbrev Stock := Inventory × List Removal

def Db.stock (d : Db) : Stock := (d.utxo, d.removals)

/-- The mark a cascade leaves on a child of a dead parent. -/
def cascadeMark (parent : TxID) (since : Time) : KnownWrite :=
  .markSuspect since [] (.other "cascade") ("cascade: parent " ++ parent ++ " is terminally dead")

/-- What a cascade passes over: proven, already queued or already written off. -/
def cascadeExempt (st : ProvenTxReqStatus) : Bool :=
  st ∈ [.completed, .suspectFailed, .stuck] || st.isTerminalFailure

/-- What a statement can write to the metadata. -/
inductive MetaOp where
  | known (w : KnownWrite) (txid : TxID)
  | knownAll (w : KnownWrite) (txids : List TxID)
  /-- `cascadeChild`, with the row it read if that was an earlier one -/
  | cascade (parent : TxID) (since : Time) (child : TxID) (earlier : Option KnownTx)
  /-- the upsert of an internalized transaction -/
  | credit (txid : TxID) (proof : Option Proof)
  | note (e : Event)
  | txStatus (st : TxStatus) (expected : List TxStatus) (txids : List TxID)
  | insertTx (tx : NewTx)
  /-- a new row with its txid -/
  | adopt (tx : NewTx) (txid : TxID)
  | outputs (rows : Table OutputRow) (next : ℕ)
  | enqueue (q : Storage.QueuedOp)
  | markDone (key : OutboxKey)
  | recordError (key : OutboxKey)
  /-- `fenceAborted`, with the row as it was read -/
  | fence (row : TxRow)
  /-- the metadata half of `processNewTx` -/
  | store (id : TransactionID) (txid : TxID) (sts : TxStatus × ProvenTxReqStatus)

namespace MetaOp

/-- The known transaction `processNewTx` stores. -/
def storedKnownTx (txid : TxID) (st : ProvenTxReqStatus) : NewKnownTx :=
  { txid := txid, status := st, wasBroadcast := false, rawTx := some txid, proof := none }

/-- What it writes. -/
def apply (now : Time) (m : Metadata) : MetaOp → Metadata
  | known w txid => (m.writeKnownOne w txid now).2
  | knownAll w txids => m.writeKnown w now fun t => t ∈ txids
  | cascade parent since child _ => (m.writeKnownOne (cascadeMark parent since) child now).2
  | credit txid proof => (m.upsertKnown (Storage.internalizedKnownTx txid proof) [] now).2
  | note e => m.record e
  | txStatus st expected txids =>
    m.writeTx (.updateStatus st expected) fun r => r.txid.any (· ∈ txids)
  | insertTx tx => (m.insertTx tx now).2
  | adopt tx txid =>
    (m.insertTx tx now).2.writeTx (.setTxID txid) fun r => r.transactionID = m.nextTransactionID
  | outputs rows next => { m with outputs := rows, nextOutputID := next }
  | enqueue q =>
    { m with
      outbox := m.outbox.insert
        { owner := q.owner, chunk := q.chunk, payload := q.payload, attempts := 0,
          createdAt := now } }
  | markDone key => { m with outbox := m.outbox.delete fun e => e.key = key }
  | recordError key =>
    { m with
      outbox := m.outbox.update (fun e => e.key = key)
        (fun e => { e with attempts := e.attempts + 1 }) OutboxEntry.key_attempt }
  | fence row =>
    let m₁ := m.writeTx (.updateStatus .aborted abortableStatuses) fun r =>
      r.transactionID = row.transactionID
    match row.txid with
    | none => m₁
    | some txid => (m₁.writeKnownOne (.casFromPreBroadcast .aborted) txid now).2
  | store id txid sts =>
    let m₁ := m.writeTx (.setTxID txid) fun r => r.transactionID = id
    let m₂ := m₁.writeTx (.updateStatus sts.1 [.unsigned, .unprocessed]) fun r =>
        r.transactionID = id
    ((m₂.upsertKnown (storedKnownTx txid sts.2) ProvenTxReqStatus.neverRequeue now).2).record
      (.stored txid)

/-- What the statements of a write found. -/
def Enabled (m : Metadata) : MetaOp → Prop
  | knownAll w _ => w.silent = true
  | cascade _ _ child earlier =>
    ∀ k ∈ earlier.or (m.knownTxs.get? child), cascadeExempt k.status = false
  | adopt tx txid =>
    (∃ k ∈ m.knownTxs, k.txid = txid) ∧ ∀ r ∈ m.transactions, r.reference ≠ tx.reference
  | fence row =>
    (∃ r ∈ m.transactions, r.transactionID = row.transactionID ∧ r.status ∈ abortableStatuses)
    ∧ ∀ k ∈ m.knownTxs, row.txid = some k.txid →
        k.status ∈ ProvenTxReqStatus.preBroadcast ∧ k.wasBroadcast = false
  | store id txid _ =>
    (∃ r ∈ m.transactions, r.transactionID = id ∧ (r.txid = none ∨ r.txid = some txid)
      ∧ r.status ∈ [TxStatus.unsigned, .unprocessed])
    ∧ ∀ k ∈ m.knownTxs, k.txid = txid → k.status ∉ ProvenTxReqStatus.neverRequeue
  | _ => True

/-- A write that touches the known transactions only to stamp a poll, and neither the audit nor the
outbox, and moves a transactions row only by its txid. -/
def Plain : MetaOp → Prop
  | outputs _ _ => True
  | knownAll w _ => w = .markPolled
  | txStatus st _ _ => st = .unproven ∨ st = .failed ∨ st = .completed
  | _ => False

/-- One write of a set. -/
def Step (W : MetaOp → Prop) (now : Time) (m m' : Metadata) : Prop :=
  ∃ op, W op ∧ op.Enabled m ∧ m' = op.apply now m

end MetaOp

/-! ## Coins -/

/-- What a call of the funder does to the inventory. -/
def StoreCall.apply (now : Time) (i : Inventory) : StoreCall → Inventory
  | .claimSmallestSufficient sc reservation minSats =>
    (i.claimSmallestSufficient now sc reservation minSats).2
  | .claimLargestInsufficient sc reservation capSats limit =>
    (i.claimLargestInsufficient now sc reservation capSats limit).2
  | .claimExact sc reservation denomination count =>
    (i.claimExact now sc reservation denomination count).2
  | .releaseReservation userID reservation => (i.releaseReservation userID reservation).2
  | .releaseOutpoints reservation ops => (i.releaseOutpoints reservation ops).2
  | .claimableExists _ _ => i

/-- What a statement can do to the coins. -/
inductive CoinOp where
  | mint (ms : List Mint)
  | spend (ops : List SpendOp)
  | pin (userID : UserID) (reservation : Token)
  | unpin (userID : UserID) (reservation : Token)
  | releaseReservation (userID : UserID) (reservation : Token)
  | releaseOutpoints (reservation : Token) (ops : List Outpoint)
  | unspend (txid : TxID) (ops : List Outpoint)
  | removeSpentBy (txid : TxID)
  | removeByMintTx (mintTxID : TxID) (ops : List Outpoint)
  | promote (ops : List Outpoint) (tier : Tier)
  | remove (ops : List Outpoint) (force : Bool)
  | freeze (ops : List Outpoint)
  | unfreeze (ops : List Outpoint)
  | reserveOutpoints (userID : UserID) (reservation : Token) (ops : List Outpoint)
  | call (c : StoreCall)
  /-- the record of what the outbox took out -/
  | logged (removals : List Removal)

namespace CoinOp

def onInventory (now : Time) (i : Inventory) : CoinOp → Inventory
  | mint ms => (i.mint now ms).2
  | spend ops => (i.spend true ops).2
  | pin u r => (i.pin u r).2
  | unpin u r => (i.unpin u r).2
  | releaseReservation u r => (i.releaseReservation u r).2
  | releaseOutpoints r ops => (i.releaseOutpoints r ops).2
  | unspend t ops => (i.unspend t ops).2
  | removeSpentBy t => (i.removeSpentBy t).2
  | removeByMintTx t ops => (i.removeByMintTx t ops).2
  | promote ops tier => (i.promote ops tier).2
  | remove ops force => (i.remove ops force).2
  | freeze ops => (i.freeze ops).2
  | unfreeze ops => (i.unfreeze ops).2
  | reserveOutpoints u r ops => (i.reserveOutpoints now u r ops).2
  | call c => c.apply now i
  | logged _ => i

/-- On the coins and on the record of removals. -/
def apply (now : Time) (s : Stock) (op : CoinOp) : Stock :=
  (op.onInventory now s.1, match op with
    | logged removals => s.2 ++ removals
    | _ => s.2)

/-- An operation that changes neither who holds a coin nor whether it is spent or there. -/
def Plain : CoinOp → Prop
  | promote _ _ | freeze _ | unfreeze _ => True
  | _ => False

/-- One write of a set. -/
def Step (C : CoinOp → Prop) (now : Time) (s s' : Stock) : Prop := ∃ op, C op ∧ s' = op.apply now s

end CoinOp

/-! ## Traces -/

/-- The metadata went along writes of `W`, the coins along operations of `C`. -/
structure Trace (W : MetaOp → Prop) (C : CoinOp → Prop) (s s' : Session Db) : Prop where
  writes : Uow.Follows Db.metadata (MetaOp.Step W) s s'
  coins : Uow.Follows Db.stock (CoinOp.Step C) s s'

variable {W W' : MetaOp → Prop} {C C' : CoinOp → Prop} {α : Type}

instance : IsPreorder (Session Db) (Trace W C) where
  refl s := ⟨refl_of _ s, refl_of _ s⟩
  trans _ _ _ h h' := ⟨trans_of _ h.writes h'.writes, trans_of _ h.coins h'.coins⟩

theorem Trace.of_waits {s s' : Session Db} (h : Uow.Waits s s') : Trace W C s s' :=
  ⟨.of_waits h, .of_waits h⟩

theorem Trace.mono (hW : ∀ op, W op → W' op) (hC : ∀ op, C op → C' op) {s s' : Session Db}
    (h : Trace W C s s') : Trace W' C' s s' :=
  ⟨TimedPath.mono (fun _ _ _ ⟨op, ho, hr⟩ => ⟨op, hW op ho, hr⟩) h.writes,
   TimedPath.mono (fun _ _ _ ⟨op, ho, hr⟩ => ⟨op, hC op ho, hr⟩) h.coins⟩

namespace Storage

open Uow

theorem trace_metaStmt {f : Time → Metadata → Except Err α × Metadata}
    (hf : ∀ t m, (f t m).2 = m ∨ MetaOp.Step W t m (f t m).2) : Moves (Trace W C) (metaStmt f) := by
  refine moves_stmt (fun _ _ => Trace.of_waits) _ fun s => ⟨?_, TimedPath.refl _ _⟩
  rcases hf s.now s.db.metadata with h | h
  · unfold Follows
    rw [h]
    exact TimedPath.refl _ _
  · exact TimedPath.single h

/-- A statement whose write is always the same one. -/
theorem trace_metaOp {f : Time → Metadata → Except Err α × Metadata} (op : MetaOp) (hop : W op)
    (he : ∀ m, op.Enabled m) (hf : ∀ t m, (f t m).2 = op.apply t m) :
    Moves (Trace W C) (metaStmt f) :=
  trace_metaStmt fun t m => Or.inr ⟨op, hop, he m, hf t m⟩

theorem trace_metaQuery (f : Metadata → α) : Moves (Trace W C) (metaQuery f) :=
  moves_query (fun _ _ => Trace.of_waits) _ _

theorem trace_note {e : Event} (h : W (.note e)) : Moves (Trace W C) (note e) := fun _ =>
  ⟨TimedPath.single ⟨_, h, trivial, rfl⟩, TimedPath.refl _ _⟩

theorem trace_noteIf {b : Bool} {e : Event} (h : W (.note e)) : Moves (Trace W C) (noteIf b e) := by
  unfold noteIf
  split
  · exact trace_note h
  · exact moves_pure _

theorem trace_coinOp {f : Time → Inventory → Except Err α × Inventory} (op : CoinOp) (hop : C op)
    (hf : ∀ t i r, ((f t i).2, r) = op.apply t (i, r)) : Moves (Trace W C) (utxoStmt f) :=
  moves_stmt (fun _ _ => Trace.of_waits) _ fun _ =>
    ⟨TimedPath.refl _ _, TimedPath.single ⟨op, hop, hf _ _ _⟩⟩

theorem trace_utxoQuery {f : Time → Inventory → Except Err α × Inventory}
    (hf : ∀ t i, (f t i).2 = i) :
    Moves (Trace W C) (utxoStmt f) := by
  refine moves_stmt (fun _ _ => Trace.of_waits) _ fun s => ⟨TimedPath.refl _ _, ?_⟩
  unfold Follows Db.stock
  rw [hf]
  exact TimedPath.refl _ _

theorem rollback_stock (mode : Mode) (d d' : Db) :
    (rollback mode d d').stock = d.stock ∨ (rollback mode d d').stock = d'.stock := by
  cases mode
  · exact Or.inl rfl
  · exact Or.inr rfl

theorem rollback_metadata (mode : Mode) (d d' : Db) :
    (rollback mode d d').metadata = d.metadata := by
  cases mode <;> rfl

theorem trace_doUnit_at {mode : Mode} {x : Work α} {s : Session Db} (hx : Trace W C s (x s).2) :
    Trace W C s (doUnit mode x s).2 :=
  ⟨follows_atomically hx.writes fun d d' => Or.inl (rollback_metadata _ d d'),
   follows_atomically hx.coins (rollback_stock mode)⟩

theorem trace_doUnit {mode : Mode} {x : Work α} (hx : Moves (Trace W C) x) :
    Moves (Trace W C) (doUnit mode x) := fun s => trace_doUnit_at (hx s)

/-- A statement on the metadata leaves the coins alone. -/
theorem coins_metaStmt (f : Time → Metadata → Except Err α × Metadata) :
    Moves (Follows Db.stock (CoinOp.Step C)) (metaStmt f) :=
  moves_stmt (fun _ _ => Follows.of_waits) _ fun _ => TimedPath.refl _ _

theorem metadata_eq_of_trace {s s' : Session Db} (h : Trace (fun _ => False) C s s') :
    s'.db.metadata = s.db.metadata :=
  TimedPath.keeps (I := fun m => m = s.db.metadata) h.writes (fun ⟨_, ho, _⟩ _ => ho.elim) rfl

/-- In Mode A a unit that fails leaves nothing, so it needs a trace only where it succeeds. -/
theorem trace_doUnit_a {x : Work α} {s : Session Db} (hle : s.now ≤ (x s).2.now)
    (hok : ∀ a s', x s = (.ok a, s') → Trace W C s s') : Trace W C s (doUnit .a x s).2 :=
  ⟨follows_atomically_of_ok hle (fun a s' h => (hok a s' h).writes) fun _ _ => rfl,
   follows_atomically_of_ok hle (fun a s' h => (hok a s' h).coins) fun _ _ => rfl⟩

/-- The metadata of a unit that fails are what they were, so they need a trace only where it
succeeds. -/
theorem trace_doUnit_of_ok {mode : Mode} {x : Work α} {s : Session Db}
    (hx : Follows Db.stock (CoinOp.Step C) s (x s).2)
    (hok : ∀ a s', x s = (.ok a, s') → Follows Db.metadata (MetaOp.Step W) s s') :
    Trace W C s (doUnit mode x s).2 :=
  ⟨follows_atomically_of_ok hx.le hok (rollback_metadata mode),
   follows_atomically hx (rollback_stock mode)⟩

end Storage

end ArcadeToolbox
