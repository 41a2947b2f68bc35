import ArcadeToolbox.Utxostore.Types

/-!
# The Aerospike inventory: records

The store keeps one record for each coin and changes it by single-record operations of the server.
Between its read of a record and its write a method holds no lock, so what it read may be out of
date when the write arrives; the filter of the operation is all that speaks for the record at that
moment.

Two bins are derived. The claim key is there while the coin can be claimed, the inventory key until
it is spent.
-/

namespace ArcadeToolbox

open Txn

/-- The number a tier is stored as. -/
def Tier.int : Tier → ℕ
  | .sending => 1
  | .unproven => 2
  | .mined => 3

namespace Aerostore

/-! ## Keys -/

/-- The number of claim buckets a basket is spread over. -/
def bucketCount : ℕ := 64

/-- The best-fit bucket of a value, `floor(log2(sats))`. -/
def bucketOf (sats : ℕ) : ℕ := if sats = 0 then 0 else Nat.log2 sats

/-- The indexed key of what can be claimed. -/
def claimKeyFor (userID : UserID) (basket : String) (tier : Tier) (bucket : ℕ) : String :=
  userID.repr ++ "|" ++ basket ++ "|" ++ tier.int.repr ++ "|" ++ bucket.repr

/-- The indexed key of a basket's inventory. -/
def invKeyFor (userID : UserID) (basket : String) : String := userID.repr ++ "|" ++ basket

example : claimKeyFor 7 "default" .mined (bucketOf 1000) = "7|default|3|9" := by decide

/-! ## Records -/

/-- The bins. A bin that may be absent is an option; `frozen` and `pinned` are there or not. -/
structure Record where
  outpoint : Outpoint
  userID : UserID
  basket : String
  tier : Tier
  sats : ℕ
  inpSize : ℕ
  createdAt : Time
  resBy : Option Token
  resAt : Option Time
  spentBy : Option TxID
  frozen : Bool
  pinned : Bool
  claimKey : Option String
  invKey : Option String
  deriving DecidableEq, Repr

instance : Keyed Record Outpoint := ⟨fun r => r.outpoint⟩

@[simp] theorem Record.key_eq (r : Record) : key r = r.outpoint := rfl

/-- The coin a record stands for. -/
def recordToUTXO (r : Record) : Utxo where
  outpoint := r.outpoint
  userID := r.userID
  basket := r.basket
  satoshis := r.sats
  inputSize := r.inpSize
  tier := r.tier
  reservedBy := r.resBy.getD ""
  reservedAt := if r.resBy.getD "" ≠ "" then r.resAt.getD 0 else 0
  spentBy := r.spentBy
  frozen := r.frozen
  pinned := r.pinned
  createdAt := r.createdAt

/-- What a mint writes. -/
def mintedRecord (now : Time) (m : Mint) : Record where
  outpoint := m.outpoint
  userID := m.userID
  basket := m.basket
  tier := m.tier
  sats := m.satoshis
  inpSize := m.inputSize
  createdAt := now
  resBy := none
  resAt := none
  spentBy := none
  frozen := false
  pinned := false
  claimKey := some (claimKeyFor m.userID m.basket m.tier (bucketOf m.satoshis))
  invKey := some (invKeyFor m.userID m.basket)

/-! ## Operations on one record -/

/-- The operations that the methods send for a record. A coin `u` is the snapshot the method had
read. -/
inductive RecordOp where
  | reserve (claimKey : String) (reservation : Token) (now : Time)
  | reserveOutpoint (userID : UserID) (reservation : Token) (now : Time)
  | release (u : Utxo) (reservation : Token) (overridePin : Bool)
  | setPinned (reservation : Token) (pinned : Bool)
  | spend (sp : SpendOp) (force : Bool)
  | unspend (spendingTxID : TxID) (u : Utxo)
  | freeze
  | unfreeze (u : Utxo)
  | promote (u : Utxo) (target : Tier)
  deriving DecidableEq, Repr

namespace RecordOp

/-- The filter: the record is changed only if it passes. -/
def guard : RecordOp → Record → Bool
  | .reserve claimKey _ _, r => r.claimKey = some claimKey
  | .reserveOutpoint userID _ _, r => r.claimKey.isSome && r.userID = userID
  | .release _ reservation overridePin, r =>
    r.resBy = some reservation && r.spentBy.isNone && (overridePin || !r.pinned)
  | .setPinned reservation pinned, r =>
    r.resBy = some reservation && r.spentBy.isNone && r.pinned ≠ pinned
  | .spend sp force, r =>
    if force then r.spentBy.isNone || r.spentBy = some sp.spendingTxID
    else r.resBy = some sp.reservation && r.spentBy.isNone && !r.frozen
  | .unspend spendingTxID _, r => r.spentBy = some spendingTxID
  | .freeze, _ => true
  | .unfreeze _, _ => true
  | .promote _ _, _ => true

/-- The claim key is written back, with the tier the record has now, unless the record is in a state
in which the coin must not be claimed. -/
def restoreClaimKey (skipWhen : Bool) (u : Utxo) (r : Record) : Option String :=
  if skipWhen then r.claimKey else some (claimKeyFor u.userID u.basket r.tier (bucketOf u.satoshis))

def effect : RecordOp → Record → Record
  | .reserve _ reservation now, r =>
    { r with resBy := some reservation, resAt := some now, claimKey := none }
  | .reserveOutpoint _ reservation now, r =>
    { r with resBy := some reservation, resAt := some now, claimKey := none }
  | .release u _ overridePin, r =>
    { r with resBy := none, resAt := none, pinned := r.pinned && !overridePin
             claimKey := restoreClaimKey r.frozen u r }
  | .setPinned _ pinned, r => { r with pinned := pinned }
  | .spend sp force, r =>
    { r with spentBy := some sp.spendingTxID, invKey := none, pinned := false
             claimKey := if force then none else r.claimKey }
  | .unspend _ u, r =>
    { r with spentBy := none, resBy := none, resAt := none, pinned := false
             invKey := some (invKeyFor u.userID u.basket), claimKey :=
               restoreClaimKey r.frozen u r }
  | .freeze, r => { r with frozen := true, claimKey := none }
  | .unfreeze u, r =>
    { r with frozen := false, claimKey := restoreClaimKey (r.resBy.isSome || r.spentBy.isSome) u r }
  | .promote u target, r =>
    { r with tier := target
             claimKey := r.claimKey.map fun _ =>
                 claimKeyFor u.userID u.basket target (bucketOf u.satoshis) }

theorem effect_outpoint (w : RecordOp) (r : Record) : (w.effect r).outpoint = r.outpoint := by
  cases w <;> rfl

/-- No operation changes whose coin it is or what it is worth. -/
theorem effect_identity (w : RecordOp) (r : Record) : (w.effect r).userID = r.userID
    ∧ (w.effect r).basket = r.basket ∧ (w.effect r).sats = r.sats := by
  cases w <;> exact ⟨rfl, rfl, rfl⟩

end RecordOp

/-- What a delete asks of the record; the forced ones ask nothing. -/
inductive DeleteGuard where
  | none
  | removable
  | phantom
  | spentBy (txid : TxID)
  deriving DecidableEq, Repr

def DeleteGuard.holds : DeleteGuard → Record → Bool
  | .none, _ => true
  | .removable, r => r.resBy.isNone && r.spentBy.isNone && !r.frozen
  | .phantom, r => r.resBy.isNone && r.spentBy.isNone
  | .spentBy txid, r => r.spentBy = some txid

/-! ## The server -/

/-- The values a claim asks for. -/
inductive Bound where
  | atLeast (sats : ℕ)
  | below (sats : ℕ)
  | exactly (sats : ℕ)
  deriving DecidableEq, Repr

namespace Bound

def pred : Bound → ℕ → Bool
  | .atLeast n, sats => n ≤ sats
  | .below n, sats => sats < n
  | .exactly n, sats => sats = n

/-- The server holds the values as signed integers of 64 bits. -/
def asInt64 (n : ℕ) : ℤ := if n % 2 ^ 64 < 2 ^ 63 then (n % 2 ^ 64 : ℕ)
    else (n % 2 ^ 64 : ℕ) - 2 ^ 64

/-- The same as an expression on the server. -/
def valueFilter : Bound → ℕ → Bool
  | .atLeast n, sats => asInt64 n ≤ asInt64 sats
  | .below n, sats => asInt64 sats < asInt64 n
  | .exactly n, sats => asInt64 sats = asInt64 n

/-- Which of two values the claim prefers, if it does. -/
def prefer : Bound → Option (ℕ → ℕ → Bool)
  | .atLeast _ => some fun a b => a < b
  | .below _ => some fun a b => a > b
  | .exactly _ => none

end Bound

/-- Searches by the index on `resBy`, filtered to the unspent coins of the user that are pinned or
not; by a scan for the spender; and by the index on `claimKey`, with an optional filter on the
value. -/
inductive Query where
  | reservedBy (userID : UserID) (reservation : Token) (pinned : Bool)
  | spentBy (txid : TxID)
  | probe (claimKey : String) (filter : Option Bound)
  deriving DecidableEq, Repr

def Query.selects : Query → Record → Bool
  | .reservedBy userID reservation pinned, r =>
    r.resBy = some reservation && r.userID = userID && r.spentBy.isNone && r.pinned = pinned
  | .spentBy txid, r => r.spentBy = some txid
  | .probe claimKey filter, r =>
    r.claimKey = some claimKey && filter.all fun b => b.valueFilter r.sats

/-- What a client asks of the server. -/
inductive Request where
  | get (op : Outpoint)
  | create (m : Mint) (now : Time)
  | operate (op : Outpoint) (w : RecordOp)
  | delete (op : Outpoint) (guard : DeleteGuard)
  | query (q : Query)
  deriving DecidableEq, Repr

inductive OperateResult where
  | ok
  | filteredOut
  | keyNotFound
  deriving DecidableEq, Repr

inductive DeleteResult where
  | removed
  | guardLost
  | absent
  deriving DecidableEq, Repr

/-- A `create` tells whether the record was created. -/
def Request.Answer : Request → Type
  | .get _ => Option Record
  | .create _ _ => Bool
  | .operate _ _ => OperateResult
  | .delete _ _ => DeleteResult
  | .query _ => List Record

/-- The records, one for each outpoint. -/
abbrev Server := Table Record

namespace Server

/-- A guarded write, which is not carried out when its filter says no. -/
def operate (s : Server) (op : Outpoint) (w : RecordOp) : OperateResult × Server :=
  match s.get? op with
  | none => (.keyNotFound, s)
  | some r =>
    if w.guard r then (.ok, s.update (fun r => r.outpoint = op) w.effect w.effect_outpoint)
    else (.filteredOut, s)

/-- A guarded delete. -/
def delete (s : Server) (op : Outpoint) (guard : DeleteGuard) : DeleteResult × Server :=
  match s.get? op with
  | none => (.absent, s)
  | some r =>
    if guard.holds r then (.removed, Table.delete s fun r => r.outpoint = op) else (.guardLost, s)

/-- One request, which the server carries out alone. -/
def exec : (q : Request) → Server → q.Answer × Server
  | .get op, s => (s.get? op, s)
  | .create m now, s =>
    match s.get? m.outpoint with
    | some _ => (false, s)
    | none => (true, s.insert (mintedRecord now m))
  | .operate op w, s => s.operate op w
  | .delete op guard, s => s.delete op guard
  | .query q, s => (s.select q.selects, s)

def step (s : Server) (q : Request) : Server := (exec q s).2

/-- The requests of all clients, in the order in which the server carries them out. -/
def run (s : Server) (qs : List Request) : Server := qs.foldl step s

end Server

end Aerostore

end ArcadeToolbox
