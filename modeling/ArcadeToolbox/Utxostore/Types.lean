import ArcadeToolbox.Lib.Table
import Mathlib.Algebra.GroupWithZero.Nat
import Mathlib.Algebra.Ring.Int.Defs

/-!
# The coin inventory: types

A coin is a row of the utxo store: an outpoint with its owner and value, and the state of its
life. It is claimable while it is not reserved, not spent and not frozen. A reservation is a
token; the empty token means that nobody holds the coin.

Times are the store's timestamps, with `0` for the zero time.
-/

namespace ArcadeToolbox

open Txn

abbrev TxID := String
abbrev UserID := ℤ
abbrev Time := ℤ
abbrev Token := String

/-- An output of a transaction. -/
structure Outpoint where
  txid : TxID
  vout : ℕ
  deriving DecidableEq, Repr

instance : ToString Outpoint := ⟨fun op => s!"{op.txid}:{op.vout}"⟩

/-- How settled the minting transaction is. These are the defined tiers, so that the validators have
no case left for an invalid one. -/
inductive Tier where
  | sending
  | unproven
  | mined
  deriving DecidableEq, Repr

/-- `DefaultP2PKHInputSize`. -/
def defaultP2PKHInputSize : ℕ := 107

/-- Whose coins, out of which basket and tier. -/
structure Scope where
  userID : UserID
  basket : String
  tier : Tier
  deriving DecidableEq, Repr

/-- A coin of the inventory. -/
structure Utxo where
  outpoint : Outpoint
  userID : UserID
  basket : String
  satoshis : ℕ
  inputSize : ℕ
  tier : Tier
  reservedBy : Token
  reservedAt : Time
  spentBy : Option TxID
  frozen : Bool
  pinned : Bool
  createdAt : Time
  deriving DecidableEq, Repr

/-- A stored coin with its insertion sequence number. -/
structure Row extends Utxo where
  seq : ℕ
  deriving DecidableEq, Repr

instance : Keyed Row Outpoint := ⟨fun r => r.outpoint⟩

@[simp] theorem Row.key_eq (r : Row) : key r = r.outpoint := rfl

/-- A coin to be. -/
structure Mint where
  outpoint : Outpoint
  userID : UserID
  basket : String
  satoshis : ℕ
  inputSize : ℕ
  tier : Tier
  deriving DecidableEq, Repr

/-- A coin, and who spends it. -/
structure SpendOp where
  outpoint : Outpoint
  reservation : Token
  spendingTxID : TxID
  deriving DecidableEq, Repr

/-- One reservation: its holder, its oldest timestamp and the outpoints it holds. -/
structure ReservationRef where
  reservation : Token
  userID : UserID
  reservedAt : Time
  outpoints : List Outpoint
  deriving DecidableEq, Repr

/-- What `RemoveByMintTx` did with each outpoint. -/
structure RemoveByMintReport where
  removed : List Outpoint
  alreadyReserved : List ReservationRef
  alreadySpentBy : List TxID
  deriving DecidableEq, Repr

/-- The refusals of the store. `invalid` is a malformed call, `contention` the answer of a store
that could not settle a row under concurrency. -/
inductive UtxoErr where
  | invalid (text : String)
  | notFound (op : Outpoint)
  | alreadyExists (op : Outpoint)
  | spent (op : Outpoint) (winner : TxID)
  | reserved (op : Outpoint) (heldBy : Token)
  | frozen (op : Outpoint)
  | contention
  | unavailable
  deriving DecidableEq, Repr

def UtxoErr.isNotFound : UtxoErr → Bool
  | .notFound _ => true
  | _ => false

def UtxoErr.isSpent : UtxoErr → Bool
  | .spent _ _ => true
  | _ => false

def UtxoErr.isAlreadyExists : UtxoErr → Bool
  | .alreadyExists _ => true
  | _ => false

/-! ## Validation -/

def validateReservation (reservation : Token) : Option UtxoErr :=
  if reservation = "" then some (.invalid "utxostore: reservation must be non-empty") else none

def validateScope (sc : Scope) : Option UtxoErr :=
  if sc.userID ≤ 0 then some (.invalid "utxostore: scope user id must be positive")
  else if sc.basket = "" then some (.invalid "utxostore: scope basket must be non-empty")
  else none

def validateClaim (sc : Scope) (reservation : Token) : Option UtxoErr :=
  (validateReservation reservation).or (validateScope sc)

def validateReserveOutpoints (reservation : Token) (ops : List Outpoint) : Option UtxoErr :=
  (validateReservation reservation).or
    (if ops = [] then some (.invalid "utxostore: ops must be non-empty") else none)

def validateMint (m : Mint) : Option UtxoErr :=
  if m.userID ≤ 0 then
    some (.invalid s!"utxostore: mint {m.outpoint}: user id must be positive")
  else if m.basket = "" then
    some (.invalid s!"utxostore: mint {m.outpoint}: basket must be non-empty")
  else none

def validateSpend (sp : SpendOp) : Option UtxoErr :=
  if sp.reservation = "" then
    some (.invalid s!"utxostore: spend {sp.outpoint}: reservation must be non-empty")
  else none

/-- The first outpoint of another transaction fails the whole call. -/
def validateMintOutpoints (mintTxID : TxID) (ops : List Outpoint) : Option UtxoErr :=
  (ops.find? fun op => op.txid ≠ mintTxID).map fun op =>
    .invalid s!"utxostore: outpoint {op} is not an output of mint tx {mintTxID}"

theorem validateMintOutpoints_eq_none {mintTxID : TxID} {ops : List Outpoint} :
    validateMintOutpoints mintTxID ops = none ↔ ∀ op ∈ ops, op.txid = mintTxID := by
  simp [validateMintOutpoints]

end ArcadeToolbox
