import ArcadeToolbox.Funder.Funder
import ArcadeToolbox.Metastore.KnownTx
import ArcadeToolbox.Metastore.Repos

/-!
# The provider: its parts and the environment

The provider works on the two stores and asks the outside: the oracle (broadcast a transaction,
get its record), the header source (does a merkle path verify), the script and BEEF verifiers. The
outside is not modelled; an operation gets its answers from an `Env`, which a run may choose anew
for every atomic step.
-/

namespace ArcadeToolbox

open Txn

/-- What the texts of a rejection name: the outpoints already spent and their spenders. -/
structure SpendConflictInfo where
  conflict : Bool
  spent : List Outpoint
  spenders : List TxID
  deriving DecidableEq, Repr

/-- What is reported of a transaction. -/
structure TxRecord where
  txid : TxID
  status : ArcadeStatus
  statusCode : ℕ
  extraInfo : String
  competingTxs : List TxID
  rawTx : Option RawTx
  deriving DecidableEq, Repr

/-- Which tiers may be spent. -/
inductive SpendPolicy where
  | minedOnly
  | preferMined
  | any
  deriving DecidableEq, Repr

/-- The fuel pool strategy. -/
structure Throughput where
  poolBasket : String
  reserveBasket : String
  /-- the resolved denomination, or `none` if it cannot be derived -/
  denomination : Option ℕ
  spendPolicy : SpendPolicy
  recycleChangeToPool : Bool
  deriving DecidableEq, Repr

/-- How transactions are funded and what change they make. -/
structure FundingConfig where
  fees : FeeCalc
  /-- the value and script of the commission output -/
  commission : Option (ℕ × Script)
  numberOfDesiredUTXOs : ℤ
  minimumDesiredUTXOValue : ℕ
  maxChangeOutputsPerTx : ℕ
  requireChangeOutput : Bool
  throughput : Option Throughput
  /-- a store that can be probed for hidden coins -/
  prober : Bool
  /-- how many rounds of the funder the model runs -/
  rounds : ℕ

/-- The configuration of a deployment. `parseSpendConflictExtra` reads the texts of the oracle. -/
structure Provider where
  mode : Mode
  ledger : Ledger
  immediateBroadcast : Bool
  changeBasket : String
  hasHeaders : Bool
  minBroadcastFeeRate : ℤ
  funding : FundingConfig
  parseSpendConflictExtra : String → SpendConflictInfo

/-- The answer to a broadcast. -/
inductive BroadcastResult where
  | failed
  | rejected (status : ArcadeStatus) (extraInfo : String)
  | accepted
  deriving DecidableEq, Repr

/-- The answer to a request for a record. -/
inductive GetTxResult where
  | failed
  | notFound
  | found (rec : TxRecord)
  deriving DecidableEq, Repr

/-- The answers of the outside to one atomic step. -/
structure Env where
  /-- the clock and the failures, statement by statement -/
  beats : List Beat
  /-- the claims that meet contention -/
  busy : List Bool
  /-- whether the inputs hydrate, the scripts verify and the bytes encode -/
  scriptsOk : Bool
  /-- the values of the outputs that the hydrated inputs spend -/
  sourceSats : Outpoint → Option ℕ
  broadcast : BroadcastResult
  getTx : TxID → GetTxResult
  /-- the proof of a record whose merkle path verifies against the header source -/
  verifyMined : TxRecord → Option Proof
  /-- the merkle root of the header at a height -/
  headerRoot : ℕ → Option String
  /-- whether a BEEF verifies, and the proof of its subject transaction if it has one -/
  beefOk : Bool
  beefProof : Option Proof
  /-- a fresh reference -/
  reference : Token
  /-- the values and scripts the BEEF of a caller has for its inputs -/
  inputBEEF : Outpoint → Option (ℕ × Option Script)
  /-- whether the ancestry of the allocated coins can be put together -/
  ancestryOk : Bool
  /-- the order the outputs are shuffled into -/
  order : List ℕ
  /-- the row of a child as a cascade read it, where another unit has written it since -/
  earlier : TxID → Option KnownTx

/-- Nothing fails, nothing answers. -/
def Env.quiet : Env :=
  { beats := [], busy := [], scriptsOk := true, sourceSats := fun _ => none, broadcast := .failed,
    getTx := fun _ => .failed, verifyMined := fun _ => none, headerRoot := fun _ => none,
    beefOk := true, beefProof := none, reference := "", inputBEEF := fun _ => none,
    ancestryOk := true, order := [], earlier := fun _ => none }

/-- Timestamps count microseconds. -/
def second : ℤ := 1000000

/-- How long a transaction that was never broadcast sits before it is sent again. -/
def resendGrace : ℤ := 20 * second

namespace Storage

variable {α : Type}

/-- Fail unless the condition holds. -/
def require (b : Bool) (e : Err) : Work Unit := if b then pure () else throw e

/-- Fail with the error of the store, if there is one. -/
def failOn (o : Option UtxoErr) : Work Unit :=
  match o with
  | some e => throw (.utxo e)
  | none => pure ()

def orThrow (o : Option α) (e : Err) : Work α :=
  match o with
  | some a => pure a
  | none => throw e

/-- Pass over an error of the given kinds. -/
def tolerate (es : List Err) (x : Work Unit) : Work Unit := do
  match ← Uow.attempt x with
  | .ok _ => pure ()
  | .error e => if e ∈ es then pure () else throw e

def liftUtxo (r : Except UtxoErr α × Inventory) : Except Err α × Inventory :=
  (match r.1 with
    | .ok a => .ok a
    | .error e => .error (.utxo e), r.2)

/-! ## The utxo store -/

namespace UtxoStore

def mint (ms : List Mint) : Work (List (Option UtxoErr)) :=
  utxoStmt fun now s => (.ok (s.mint now ms).1, (s.mint now ms).2)

def spend (ops : List SpendOp) (force : Bool) : Work (List (Option UtxoErr)) :=
  utxoStmt fun _ s => (.ok (s.spend force ops).1, (s.spend force ops).2)

def pin (userID : UserID) (reservation : Token) : Work ℕ :=
  utxoStmt fun _ s => liftUtxo (s.pin userID reservation)

def unpin (userID : UserID) (reservation : Token) : Work ℕ :=
  utxoStmt fun _ s => liftUtxo (s.unpin userID reservation)

def releaseReservation (userID : UserID) (reservation : Token) : Work ℕ :=
  utxoStmt fun _ s => liftUtxo (s.releaseReservation userID reservation)

def releaseOutpoints (reservation : Token) (ops : List Outpoint) : Work Unit :=
  utxoStmt fun _ s => liftUtxo (s.releaseOutpoints reservation ops)

def unspend (txid : TxID) (ops : List Outpoint) : Work ℕ :=
  utxoStmt fun _ s => (.ok (s.unspend txid ops).1, (s.unspend txid ops).2)

def removeSpentBy (txid : TxID) : Work ℕ :=
  utxoStmt fun _ s => (.ok (s.removeSpentBy txid).1, (s.removeSpentBy txid).2)

def removeByMintTx (mintTxID : TxID) (ops : List Outpoint) : Work RemoveByMintReport :=
  utxoStmt fun _ s => liftUtxo (s.removeByMintTx mintTxID ops)

def promote (ops : List Outpoint) (tier : Tier) : Work ℕ :=
  utxoStmt fun _ s => (.ok (s.promote ops tier).1, (s.promote ops tier).2)

/-- The error of a batch, if an item failed. -/
def joinBatch (r : List UtxoErr × Inventory) : Except Err Unit × Inventory :=
  (if r.1 = [] then .ok () else .error (.batch r.1), r.2)

def remove (ops : List Outpoint) (force : Bool) : Work Unit :=
  utxoStmt fun _ s => joinBatch (s.remove ops force)

def freeze (ops : List Outpoint) : Work Unit := utxoStmt fun _ s => joinBatch (s.freeze ops)

def unfreeze (ops : List Outpoint) : Work Unit := utxoStmt fun _ s => joinBatch (s.unfreeze ops)

def reserveOutpoints (userID : UserID) (reservation : Token) (ops : List Outpoint) : Work Unit :=
  utxoStmt fun now s => joinBatch (s.reserveOutpoints now userID reservation ops)

/-! ### Calls of the funder -/

/-- A call that answers instead of failing. -/
def answer (x : Time → Inventory → Except UtxoErr α × Inventory) (s : Session Db) :
    Except UtxoErr α × Session Db :=
  match utxoStmt (fun now i => (.ok (x now i).1, (x now i).2)) s with
  | (.ok a, s') => (a, s')
  | (.error _, s') => (.error .unavailable, s')

/-- An optimistic call: the next answer of the environment says whether it meets contention. -/
def optimistic (x : Time → Inventory → Except UtxoErr α × Inventory) (s : Session Db) :
    Except UtxoErr α × Session Db :=
  match s.busy with
  | true :: busy => (.error .contention, { s with busy := busy })
  | false :: busy => answer x { s with busy := busy }
  | [] => answer x s

/-- Whether a claimable coin is there; contention shows as a coin that the claims did not get. -/
def claimableExists (sc : Scope) (minSats : ℕ) (s : Session Db) :
    Except UtxoErr Bool × Session Db :=
  let look := fun (_ : Time) (i : Inventory) => (Except.ok (i.rows.any fun r =>
    Inventory.claimable r sc && decide (minSats ≤ r.satoshis)), i)
  match s.busy with
  | true :: busy => (.ok true, { s with busy := busy })
  | false :: busy => answer look { s with busy := busy }
  | [] => answer look s

/-- A call of the funder, as statements. -/
def call (prober : Bool) : (c : StoreCall) → Session Db → c.Answer × Session Db
  | .claimSmallestSufficient sc reservation minSats =>
    optimistic fun now s => s.claimSmallestSufficient now sc reservation minSats
  | .claimLargestInsufficient sc reservation capSats limit =>
    optimistic fun now s => s.claimLargestInsufficient now sc reservation capSats limit
  | .claimExact sc reservation denomination count =>
    optimistic fun now s => s.claimExact now sc reservation denomination count
  | .releaseReservation userID reservation =>
    answer fun _ s => s.releaseReservation userID reservation
  | .releaseOutpoints reservation ops => optimistic fun _ s => s.releaseOutpoints reservation ops
  | .claimableExists sc minSats => fun s =>
    if prober then (some (claimableExists sc minSats s).1, (claimableExists sc minSats s).2)
    else (none, s)

/-- Run one call of a program. -/
def runCall (prober : Bool) (c : StoreCall) : Work c.Answer := fun s =>
  (.ok (call prober c s).1, (call prober c s).2)

/-- Run a program of store calls. -/
def runProg (prober : Bool) (x : Prog StoreCall StoreCall.Answer α) : Work α := fun s =>
  (.ok (x.run (call prober) s).1, (x.run (call prober) s).2)

end UtxoStore

end Storage

end ArcadeToolbox
