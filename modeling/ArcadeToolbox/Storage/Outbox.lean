import ArcadeToolbox.Storage.Process

/-!
# Utxo operations and the outbox

The operations that give back or take away the coins of a dead or aborted transaction. In Mode A
they run inside the unit of work that decides; in Mode B that unit enqueues them, a second unit
runs them inline, and the drain runs what is left. No operation looks at the status of the
transaction again when it runs.
-/

namespace ArcadeToolbox

open Txn

/-- Whether the known transaction is completed. -/
def Metadata.isCompleted (m : Metadata) (txid : TxID) : Bool :=
  m.knownTxs.any fun k => k.txid = txid && k.status = .completed

namespace Storage

/-- Run `x` and record the rows it took out of the inventory. -/
def auditRemovals {α : Type} (x : Work α) : Work α := fun s =>
  let s' := (x s).2
  let gone := s.db.utxo.rows.rows.filter fun r => (s'.db.utxo.get r.outpoint).isNone
  ((x s).1, { s' with db := { s'.db with
    removals := s'.db.removals
      ++ gone.map fun r => ⟨r.outpoint, s'.db.metadata.isCompleted r.outpoint.txid⟩ } })

/-! ## The operations -/

def doUnspend (txid : TxID) (ops : List Outpoint) : Work Unit := do
  unless ops = [] do
    let _ ← UtxoStore.unspend txid ops
    -- best effort: an outpoint that is gone is no error, and neither is a failure
    let _ ← Uow.attempt (UtxoStore.unfreeze ops)

def doReleaseOutpoints (reservation : Token) (ops : List Outpoint) : Work Unit := do
  unless reservation = "" ∨ ops = [] do UtxoStore.releaseOutpoints reservation ops

def doRemovePhantom (ops : List Outpoint) : Work Unit := do
  unless ops = [] do UtxoStore.remove ops true

/-- Mark as suspect every child that spent a coin of a dead parent, unless it is proven, already
queued or already terminal. The read locks nothing and the mark has no guard, so the status that
decides may be an earlier one than that of the row which is marked. -/
def cascadeChild (env : Env) (parent child : TxID) : Work Unit := do
  let found ← KnownTxRepo.findByTxID child
  match (env.earlier child).or found with
  | none => pure ()
  | some k =>
    unless k.status ∈ [.completed, .suspectFailed, .stuck] ∨ k.status.isTerminalFailure do
      let t ← now
      tolerate [.notFound] (KnownTxRepo.markSuspect child t [] (.other "cascade")
        ("cascade: parent " ++ parent ++ " is terminally dead"))

/-- The children fail with the parent. -/
def cascadeChildren (env : Env) (parent : TxID) (children : List TxID) : Work Unit :=
  children.forM (cascadeChild env parent)

def doRemoveMinted (env : Env) (mintTxID : TxID) (ops : List Outpoint) : Work Unit := do
  unless ops = [] do
    let report ← UtxoStore.removeByMintTx mintTxID ops
    cascadeChildren env mintTxID report.alreadySpentBy

def doAbortRelease (userID : UserID) (reservation : Token) : Work Unit := do
  let _ ← UtxoStore.unpin userID reservation
  let _ ← UtxoStore.releaseReservation userID reservation

def doAbortRemoveChange (mintTxID : TxID) (ops : List Outpoint) : Work Unit := do
  unless ops = [] do
    let _ ← UtxoStore.removeByMintTx mintTxID ops

/-- What an entry stands for. -/
def executeOutboxOp (env : Env) : OutboxPayload → Work Unit
  | .unspend txid ops => doUnspend txid ops
  | .release reservation ops => doReleaseOutpoints reservation ops
  | .removePhantom ops => auditRemovals (doRemovePhantom ops)
  | .removeMinted mintTxID ops => auditRemovals (doRemoveMinted env mintTxID ops)
  | .abortRelease userID reservation => doAbortRelease userID reservation
  | .abortRemoveChange mintTxID ops => auditRemovals (doAbortRemoveChange mintTxID ops)

/-! ## Running them -/

/-- An enqueued operation: its key and what it does. -/
structure QueuedOp where
  owner : OutboxOwner
  chunk : ℕ
  payload : OutboxPayload
  deriving DecidableEq, Repr

def QueuedOp.key (q : QueuedOp) : OutboxKey := ⟨q.owner, q.payload.op, q.chunk⟩

def enqueueAll (ops : List QueuedOp) : Work Unit :=
  ops.forM fun q => OutboxRepo.enqueue q.owner q.chunk q.payload

/-- One operation of the second, inline unit: an operation that fails is left to the drain. -/
def runInlineOp (env : Env) (q : QueuedOp) : Work Unit := do
  match ← Uow.attempt (executeOutboxOp env q.payload) with
  | .ok _ => OutboxRepo.markDone q.key
  | .error _ =>
    let _ ← Uow.attempt (OutboxRepo.recordError q.key)

/-- What the caller carries out on the spot. -/
def runInline (env : Env) (mode : Mode) (ops : List QueuedOp) : Work Unit :=
  doUnit mode (ops.forM (runInlineOp env))

/-- The drain runs an operation like the inline unit, but a bookkeeping failure ends the unit. -/
def drainOp (env : Env) (e : OutboxEntry) : Work Unit := do
  match ← Uow.attempt (executeOutboxOp env e.payload) with
  | .ok _ => OutboxRepo.markDone e.key
  | .error _ => OutboxRepo.recordError e.key

/-- What the outbox still has is carried out. -/
def drainOutbox (env : Env) (mode : Mode) (limit : ℕ) : Work Unit :=
  doUnit mode do
    let pending ← OutboxRepo.fetchPending limit
    pending.forM (drainOp env)
    let _ ← OutboxRepo.countParked

end Storage

end ArcadeToolbox
