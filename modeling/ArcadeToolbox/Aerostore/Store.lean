import ArcadeToolbox.Aerostore.ClaimCache
import ArcadeToolbox.Lib.Simulation
import ArcadeToolbox.Utxostore.Invariants

/-!
# The Aerospike inventory: methods

Each method is a program of single-record requests. Where it reads a record, decides and then
writes, the write is guarded, and after a lost guard it reads again. A claim takes candidates of a
bucket, from the claim cache or a probe of the index, and reserves one after the other: it is the
guard on the claim key that decides. What a probe returns of the matching records, and in which
order, is up to the index.
-/

namespace ArcadeToolbox.Aerostore

open Txn

/-! ## Requests -/

/-- A request to the server, a request for candidates, or a note to the claim cache. -/
inductive Call where
  | server (q : Request)
  | claimCands (claimKey : String) (bound : Bound) (want : ℕ)
  | markClaimable (claimKey : String)
  deriving DecidableEq, Repr

def Call.Answer : Call → Type
  | .server q => q.Answer
  | .claimCands _ _ _ => List Record
  | .markClaimable _ => Unit

/-- A method, by the calls it makes. -/
abbrev Method := Prog Call Call.Answer

namespace Store

open Prog (ask forEach)

def getRecord (op : Outpoint) : Method (Option Record) := ask (Call.server (.get op))

def create (now : Time) (m : Mint) : Method Bool := ask (Call.server (.create m now))

def operate (op : Outpoint) (w : RecordOp) : Method OperateResult :=
  ask (Call.server (.operate op w))

def deleteRecordGuarded (op : Outpoint) (guard : DeleteGuard) : Method DeleteResult :=
  ask (Call.server (.delete op guard))

def query (q : Query) : Method (List Record) := ask (Call.server (.query q))

def claimCands (claimKey : String) (bound : Bound) (want : ℕ) : Method (List Record) :=
  ask (Call.claimCands claimKey bound want)

def noteClaimable (userID : UserID) (basket : String) (tier : Tier) (sats : ℕ) : Method Unit :=
  ask (Call.markClaimable (claimKeyFor userID basket tier (bucketOf sats)))

def allTiers : List Tier := [.sending, .unproven, .mined]

/-- For those who do not know which tier the coin has become claimable in. -/
def noteClaimableAllTiers (u : Utxo) : Method Unit := do
  let _ ← forEach (fun t => noteClaimable u.userID u.basket t u.satoshis) allTiers
  pure ()

/-- How often a row is read and written before it counts as contended. -/
def casAttempts : ℕ := 2

/-- For how many of the items the program says yes. -/
def countEach {γ : Type} (f : γ → Method Bool) (l : List γ) : Method ℕ := do
  let bs ← forEach f l
  pure (bs.count true)

/-! ## Minting and removing -/

/-- The coin is new, unless a record is there. -/
def mintOne (now : Time) (m : Mint) : Method (Option UtxoErr) :=
  match validateMint m with
  | some e => pure (some e)
  | none => do
    if ← create now m then
      noteClaimable m.userID m.basket m.tier m.satoshis
      pure none
    else
      match ← getRecord m.outpoint with
      | none => pure (some .unavailable)
      | some rec =>
        let u := recordToUTXO rec
        if u.userID = m.userID ∧ u.basket = m.basket ∧ u.satoshis = m.satoshis
            ∧ u.inputSize = m.inputSize then
          pure none
        else pure (some (.alreadyExists m.outpoint))

def mint (now : Time) (ms : List Mint) : Method (List (Option UtxoErr)) := forEach (mintOne now) ms

/-- Why an unforced removal refuses the coin. -/
def removeRefusal (op : Outpoint) (u : Utxo) : Option UtxoErr :=
  match u.spentBy with
  | some w => some (.spent op w)
  | none =>
    if u.reservedBy ≠ "" then some (.reserved op u.reservedBy)
    else if u.frozen then some (.frozen op)
    else none

/-- Remove a coin that nobody touches meanwhile, or try again. -/
def removeGuarded (op : Outpoint) : ℕ → Method (Option UtxoErr)
  | 0 => pure (some .contention)
  | n + 1 => do
    match ← getRecord op with
    | none => pure none
    | some rec =>
      match removeRefusal op (recordToUTXO rec) with
      | some e => pure (some e)
      | none =>
        match ← deleteRecordGuarded op .removable with
        | .guardLost => removeGuarded op n
        | .removed | .absent => pure none

def removeOne (force : Bool) (op : Outpoint) : Method (Option UtxoErr) :=
  if force then do
    let _ ← deleteRecordGuarded op .none
    pure none
  else removeGuarded op casAttempts

def remove (ops : List Outpoint) (force : Bool) : Method (List UtxoErr) := do
  let es ← forEach (removeOne force) ops
  pure es.reduceOption

/-! ## Freezing and retiering -/

def freezeOne (op : Outpoint) : Method (Option UtxoErr) := do
  match ← operate op .freeze with
  | .ok => pure none
  | .keyNotFound => pure (some (.notFound op))
  | .filteredOut => pure (some .unavailable)

def freeze (ops : List Outpoint) : Method (List UtxoErr) := do
  let es ← forEach freezeOne ops
  pure es.reduceOption

def unfreezeOne (op : Outpoint) : Method (Option UtxoErr) := do
  match ← getRecord op with
  | none => pure (some (.notFound op))
  | some rec =>
    match ← operate op (.unfreeze (recordToUTXO rec)) with
    | .ok =>
      noteClaimableAllTiers (recordToUTXO rec)
      pure none
    | .keyNotFound => pure (some (.notFound op))
    | .filteredOut => pure (some .unavailable)

def unfreeze (ops : List Outpoint) : Method (List UtxoErr) := do
  let es ← forEach unfreezeOne ops
  pure es.reduceOption

/-- The operation has no guard, so it is not filtered out. -/
def promoteOne (target : Tier) (op : Outpoint) : Method Bool := do
  match ← getRecord op with
  | none => pure false
  | some rec =>
    let u := recordToUTXO rec
    if u.tier = target then pure false
    else
      match ← operate op (.promote u target) with
      | .ok =>
        noteClaimable u.userID u.basket target u.satoshis
        pure true
      | .filteredOut | .keyNotFound => pure false

def promote (ops : List Outpoint) (target : Tier) : Method ℕ := countEach (promoteOne target) ops

/-! ## Removing what a dead transaction minted -/

/-- What became of an outpoint of the transaction. -/
inductive Settled where
  | removed
  | survivor (u : Utxo)
  | gone
  deriving DecidableEq, Repr

/-- Take the coin out, unless it is spent or held, or try again. -/
def removeMintTxOp (op : Outpoint) : ℕ → Method (Except UtxoErr Settled)
  | 0 => pure (.error .contention)
  | n + 1 => do
    match ← getRecord op with
    | none => pure (.ok .gone)
    | some rec =>
      let u := recordToUTXO rec
      if u.spentBy ≠ none ∨ u.reservedBy ≠ "" then pure (.ok (.survivor u))
      else
        match ← deleteRecordGuarded op .phantom with
        | .removed => pure (.ok .removed)
        | .absent => pure (.ok .gone)
        | .guardLost => removeMintTxOp op n

/-- A transaction that spent a coin is listed once. -/
def addSpender (report : RemoveByMintReport) (w : TxID) : RemoveByMintReport :=
  if w ∈ report.alreadySpentBy then report
  else { report with alreadySpentBy := report.alreadySpentBy ++ [w] }

/-- The held coins are grouped by their token, in the order in which the tokens come up. -/
def addReserved (op : Outpoint) (u : Utxo) (refs : List ReservationRef) : List ReservationRef :=
  if refs.any fun ref => ref.reservation = u.reservedBy then
    refs.map fun ref =>
      if ref.reservation = u.reservedBy then
        { ref with reservedAt := if u.reservedAt < ref.reservedAt then u.reservedAt
                     else ref.reservedAt
                   outpoints := ref.outpoints ++ [op] }
      else ref
  else refs ++ [⟨u.reservedBy, u.userID, u.reservedAt, [op]⟩]

def settleMintTx : List Outpoint → RemoveByMintReport → Method (Except UtxoErr RemoveByMintReport)
  | [], report => pure (.ok report)
  | op :: ops, report => do
    match ← removeMintTxOp op casAttempts with
    | .error e => pure (.error e)
    | .ok .removed => settleMintTx ops { report with removed := report.removed ++ [op] }
    | .ok .gone => settleMintTx ops report
    | .ok (.survivor u) =>
      match u.spentBy with
      | some w => settleMintTx ops (addSpender report w)
      | none =>
        if u.reservedBy ≠ "" then
          settleMintTx ops { report with alreadyReserved := addReserved op u
                                           report.alreadyReserved }
        else pure (.error (.invalid "internal invariant: survivor is neither spent nor reserved"))

/-- Take out what a failed transaction minted. -/
def removeByMintTx (mintTxID : TxID) (ops : List Outpoint) :
    Method (Except UtxoErr RemoveByMintReport) :=
  match validateMintOutpoints mintTxID ops with
  | some e => pure (.error e)
  | none => settleMintTx ops ⟨[], [], []⟩

/-! ## Releasing and pinning -/

/-- The janitor keeps pins and skips pinned rows; the holder of the token overrides them. -/
def releaseRow (reservation : Token) (overridePin : Bool) (u : Utxo) : Method Bool := do
  match ← operate u.outpoint (.release u reservation overridePin) with
  | .ok =>
    noteClaimableAllTiers u
    pure true
  | .filteredOut | .keyNotFound => pure false

/-- Free all that a reservation holds. -/
def releaseReservation (userID : UserID) (reservation : Token) : Method (Except UtxoErr ℕ) :=
  match validateReservation reservation with
  | some e => pure (.error e)
  | none => do
    let rows ← query (.reservedBy userID reservation false)
    let n ← countEach (fun rec => releaseRow reservation false (recordToUTXO rec)) rows
    pure (.ok n)

def releaseOutpoint (reservation : Token) (op : Outpoint) : Method Unit := do
  match ← getRecord op with
  | none => pure ()
  | some rec =>
    let u := recordToUTXO rec
    if u.reservedBy ≠ reservation ∨ u.spentBy ≠ none then pure ()
    else
      let _ ← releaseRow reservation true u
      pure ()

def releaseOutpoints (reservation : Token) (ops : List Outpoint) : Method (Except UtxoErr Unit) :=
  match validateReservation reservation with
  | some e => pure (.error e)
  | none => do
    let _ ← forEach (releaseOutpoint reservation) ops
    pure (.ok ())

/-- Pin or unpin one coin. -/
def setPinnedRow (reservation : Token) (pinned : Bool) (op : Outpoint) : Method Bool := do
  match ← operate op (.setPinned reservation pinned) with
  | .ok => pure true
  | .filteredOut | .keyNotFound => pure false

def setPinned (userID : UserID) (reservation : Token) (pinned : Bool) : Method (Except UtxoErr ℕ) :=
  match validateReservation reservation with
  | some e => pure (.error e)
  | none => do
    let rows ← query (.reservedBy userID reservation (!pinned))
    let n ← countEach (fun rec => setPinnedRow reservation pinned (recordToUTXO rec).outpoint) rows
    pure (.ok n)

def pin (userID : UserID) (reservation : Token) : Method (Except UtxoErr ℕ) :=
  setPinned userID reservation true

def unpin (userID : UserID) (reservation : Token) : Method (Except UtxoErr ℕ) :=
  setPinned userID reservation false

/-! ## Reserving named coins -/

/-- What became of one coin that was to be reserved. -/
inductive ReserveResult where
  | won (u : Utxo)
  | satisfied
  | refused (e : UtxoErr)
  | fatal (e : UtxoErr)
  deriving DecidableEq, Repr

inductive Classified where
  | free (u : Utxo)
  | satisfied
  | refused (e : UtxoErr)
  deriving DecidableEq, Repr

def classifyRow (userID : UserID) (reservation : Token) (op : Outpoint) (row : Utxo) : Classified :=
  if row.userID ≠ userID then .refused (.notFound op)
  else match row.spentBy with
    | some w => .refused (.spent op w)
    | none =>
      if row.reservedBy ≠ "" ∧ row.reservedBy ≠ reservation then
          .refused (.reserved op row.reservedBy)
      else if row.frozen then .refused (.frozen op)
      else if row.reservedBy = reservation then .satisfied
      else .free row

def classifyForReserve (userID : UserID) (reservation : Token) (op : Outpoint) :
    Method Classified := do
  match ← getRecord op with
  | none => pure (.refused (.notFound op))
  | some rec => pure (classifyRow userID reservation op (recordToUTXO rec))

def reserveOutpointOne (now : Time) (userID : UserID) (reservation : Token) (op : Outpoint) :
    Method ReserveResult := do
  match ← classifyForReserve userID reservation op with
  | .refused e => pure (.refused e)
  | .satisfied => pure .satisfied
  | .free u =>
    match ← operate u.outpoint (.reserveOutpoint userID reservation now) with
    | .ok => pure (.won { u with reservedBy := reservation, reservedAt := now })
    | .filteredOut | .keyNotFound =>
      match ← classifyForReserve userID reservation op with
      | .refused e => pure (.refused e)
      | .satisfied => pure .satisfied
      | .free _ => pure (.fatal .contention)

def undoReserveOutpoints (reservation : Token) (won : List Utxo) : Method Unit := do
  let _ ← forEach (releaseRow reservation false) won
  pure ()

/-- There is no transaction over several records: what was won is handed back if something is
refused. -/
def reserveEach (now : Time) (userID : UserID) (reservation : Token) :
    List Outpoint → List UtxoErr → List Utxo → Method (List UtxoErr)
  | [], itemErrs, won => do
    if itemErrs ≠ [] then undoReserveOutpoints reservation won
    pure itemErrs
  | op :: ops, itemErrs, won => do
    match ← reserveOutpointOne now userID reservation op with
    | .fatal e =>
      undoReserveOutpoints reservation won
      pure [e]
    | .refused e => reserveEach now userID reservation ops (itemErrs ++ [e]) won
    | .satisfied => reserveEach now userID reservation ops itemErrs won
    | .won u => reserveEach now userID reservation ops itemErrs (won ++ [u])

/-- All of the coins are reserved, or none. -/
def reserveOutpoints (now : Time) (userID : UserID) (reservation : Token) (ops : List Outpoint) :
    Method (List UtxoErr) :=
  match validateReserveOutpoints reservation ops with
  | some e => pure [e]
  | none => reserveEach now userID reservation ops.eraseDups [] []

/-! ## Spending -/

/-- What stands against the spend of the coin, with nothing if it was spent by the same transaction.
Without an answer the coin looks spendable again, and the spend is tried again. -/
def spendRefusal (sp : SpendOp) (force : Bool) (u : Utxo) : Option (Option UtxoErr) :=
  match u.spentBy with
  | some w => some (if w = sp.spendingTxID then none else some (.spent sp.outpoint w))
  | none =>
    if !force && u.frozen then some (some (.frozen sp.outpoint))
    else if !force && u.reservedBy ≠ sp.reservation then
        some (some (.reserved sp.outpoint u.reservedBy))
    else none

/-- Why the guarded spend said no. -/
def classifySpendFailure (sp : SpendOp) (force : Bool) : Method (Option (Option UtxoErr)) := do
  match ← getRecord sp.outpoint with
  | none => pure (some (some (.notFound sp.outpoint)))
  | some rec => pure (spendRefusal sp force (recordToUTXO rec))

def spendFallbackError (sp : SpendOp) (force : Bool) : Method (Option UtxoErr) := do
  match ← getRecord sp.outpoint with
  | none => pure (some (.notFound sp.outpoint))
  | some rec =>
    if force then pure (some .contention)
    else pure (some (.reserved sp.outpoint (recordToUTXO rec).reservedBy))

/-- Spend a coin that nobody touches meanwhile, or try again. -/
def spendGuarded (sp : SpendOp) (force : Bool) : ℕ → Method (Option UtxoErr)
  | 0 => spendFallbackError sp force
  | n + 1 => do
    match ← operate sp.outpoint (.spend sp force) with
    | .ok => pure none
    | .filteredOut | .keyNotFound =>
      match ← classifySpendFailure sp force with
      | some classified => pure classified
      | none => spendGuarded sp force n

def spendOne (force : Bool) (sp : SpendOp) : Method (Option UtxoErr) :=
  match validateSpend sp with
  | some e => pure (some e)
  | none => spendGuarded sp force casAttempts

def spend (force : Bool) (sps : List SpendOp) : Method (List (Option UtxoErr)) :=
  forEach (spendOne force) sps

def unspendOne (spendingTxID : TxID) (op : Outpoint) : Method Bool := do
  match ← getRecord op with
  | none => pure false
  | some rec =>
    let u := recordToUTXO rec
    if u.spentBy ≠ some spendingTxID then pure false
    else
      match ← operate op (.unspend spendingTxID u) with
      | .ok =>
        noteClaimableAllTiers u
        pure true
      | .filteredOut | .keyNotFound => pure false

def unspend (spendingTxID : TxID) (ops : List Outpoint) : Method ℕ :=
  countEach (unspendOne spendingTxID) ops

def removeSpentBy (spendingTxID : TxID) : Method ℕ := do
  let rows ← query (.spentBy spendingTxID)
  countEach (fun rec => do
    let res ← deleteRecordGuarded (recordToUTXO rec).outpoint (.spentBy spendingTxID)
    pure (res = .removed)) rows

/-! ## Claims -/

/-- How many lost races a claim bears. -/
def casBudget : ℕ := 8

/-- The candidate is reserved if its record still has the claim key. The coin that is returned is
the candidate, as it was when it was probed. -/
def reserve (claimKey : String) (reservation : Token) (now : Time) (c : Record) :
    Method (Option Utxo) := do
  match ← operate c.outpoint (.reserve claimKey reservation now) with
  | .ok => pure (some { recordToUTXO c with reservedBy := reservation, reservedAt := now })
  | .filteredOut | .keyNotFound => pure none

/-- Where the search for one coin is. -/
inductive Search where
  | won (u : Utxo)
  | contention
  | lost (losses : ℕ)
  deriving DecidableEq, Repr

def reserveFirst (claimKey : String) (reservation : Token) (now : Time) :
    List Record → ℕ → Method Search
  | [], losses => pure (.lost losses)
  | c :: cs, losses => do
    match ← reserve claimKey reservation now c with
    | some u => pure (.won u)
    | none =>
      if casBudget ≤ losses + 1 then pure .contention
      else reserveFirst claimKey reservation now cs (losses + 1)

/-- Candidates of one bucket until one is won or there are none. Every round loses a race, so the
budget bounds them. -/
def searchBucket (claimKey : String) (bound : Bound) (reservation : Token) (now : Time) : ℕ →
    ℕ → Method Search
  | 0, _ => pure .contention
  | n + 1, losses => do
    let cands ← claimCands claimKey bound 1
    if cands = [] then pure (.lost losses)
    else
      match ← reserveFirst claimKey reservation now cands losses with
      | .lost losses => searchBucket claimKey bound reservation now n losses
      | result => pure result

/-- Up the buckets, until one has a coin that is enough. -/
def walkUp (sc : Scope) (bound : Bound) (reservation : Token) (now : Time) :
    List ℕ → ℕ → Method (Except UtxoErr (Option Utxo))
  | [], losses => pure (if 0 < losses then .error .contention else .ok none)
  | b :: bs, losses => do
    match ← searchBucket (claimKeyFor sc.userID sc.basket sc.tier b) bound reservation now
        casBudget losses with
    | .won u => pure (.ok (some u))
    | .contention => pure (.error .contention)
    | .lost losses => walkUp sc bound reservation now bs losses

def claimSmallestSufficient (now : Time) (sc : Scope) (reservation : Token) (minSats : ℕ) :
    Method (Except UtxoErr (Option Utxo)) :=
  match validateClaim sc reservation with
  | some e => pure (.error e)
  | none =>
    walkUp sc (.atLeast minSats) reservation now
        ((List.range bucketCount).drop (bucketOf minSats)) 0

/-- The candidates in turn, until enough coins are claimed: the coins so far and the races lost so
far. Without an answer the claim gives up, which it may only while it has nothing. -/
def reserveCands (claimKey : String) (reservation : Token) (now : Time) (limit : ℕ)
    (budget : Option ℕ) :
    List Record → List Utxo → ℕ → Method (Option (List Utxo × ℕ))
  | [], claimed, losses => pure (some (claimed, losses))
  | c :: cs, claimed, losses =>
    if limit ≤ claimed.length then pure (some (claimed, losses))
    else do
      match ← reserve claimKey reservation now c with
      | some u => reserveCands claimKey reservation now limit budget cs (claimed ++ [u]) losses
      | none =>
        if (budget.any (· ≤ losses + 1)) && claimed = [] then pure none
        else reserveCands claimKey reservation now limit budget cs claimed (losses + 1)

/-- Candidates of one bucket until enough coins are claimed, there are none, or a whole batch is
lost. Every other round claims a coin, so the limit bounds them. -/
def drainBucket (claimKey : String) (bound : Bound) (reservation : Token) (now : Time) (limit : ℕ)
    (budget : Option ℕ) : ℕ → List Utxo → ℕ → Method (Option (List Utxo × ℕ))
  | 0, claimed, losses => pure (some (claimed, losses))
  | n + 1, claimed, losses =>
    if limit ≤ claimed.length then pure (some (claimed, losses))
    else do
      let cands ← claimCands claimKey bound (limit - claimed.length)
      if cands = [] then pure (some (claimed, losses))
      else
        match ← reserveCands claimKey reservation now limit budget cands claimed losses with
        | none => pure none
        | some (claimed', losses') =>
          if claimed'.length = claimed.length then pure (some (claimed', losses'))
          else drainBucket claimKey bound reservation now limit budget n claimed' losses'

/-- Nothing although there were candidates is contention. -/
def claimResult : Option (List Utxo × ℕ) → Except UtxoErr (List Utxo)
  | none => .error .contention
  | some (claimed, losses) => if claimed = [] ∧ 0 < losses then .error .contention else .ok claimed

/-- Down the buckets, until there are enough coins. -/
def walkDown (sc : Scope) (bound : Bound) (reservation : Token) (now : Time) (limit : ℕ) :
    List ℕ → List Utxo → ℕ → Method (Except UtxoErr (List Utxo))
  | [], claimed, losses => pure (claimResult (some (claimed, losses)))
  | b :: bs, claimed, losses =>
    if limit ≤ claimed.length then pure (claimResult (some (claimed, losses)))
    else do
      match ← drainBucket (claimKeyFor sc.userID sc.basket sc.tier b) bound reservation now limit
          (some casBudget) limit claimed losses with
      | none => pure (.error .contention)
      | some (claimed, losses) => walkDown sc bound reservation now limit bs claimed losses

def claimLargestInsufficient (now : Time) (sc : Scope) (reservation : Token) (capSats : ℕ)
    (limit : ℤ) :
    Method (Except UtxoErr (List Utxo)) :=
  match validateClaim sc reservation with
  | some e => pure (.error e)
  | none =>
    if limit ≤ 0 ∨ capSats = 0 then pure (.ok [])
    else walkDown sc (.below capSats) reservation now limit.toNat
      (List.range (bucketOf (capSats - 1) + 1)).reverse [] 0

def claimExact (now : Time) (sc : Scope) (reservation : Token) (denomination : ℕ) (count : ℤ) :
    Method (Except UtxoErr (List Utxo)) :=
  match validateClaim sc reservation with
  | some e => pure (.error e)
  | none =>
    if count ≤ 0 then pure (.ok [])
    else do
      let result ← drainBucket (claimKeyFor sc.userID sc.basket sc.tier (bucketOf denomination))
        (.exactly denomination) reservation now count.toNat none count.toNat [] 0
      pure (claimResult result)

end Store

/-! ## The store in operation -/

/-- Without a cache configuration there is no cache; a refill asks for so many records. -/
structure Config where
  cache : Option CacheConfig
  refill : ℕ

/-- The server, and the cache with the calls of it that were made. -/
structure Backend where
  server : Server
  cache : CacheState
  calls : ℕ
  probes : ℕ

namespace Backend

def initial (now : Time) : Backend := ⟨∅, .initial now, 0, 0⟩

/-- The least number of records that a filtered probe asks for. -/
def claimSample : ℕ := 16

def sampleSize (want : ℕ) : ℕ := if want < claimSample then claimSample else want

variable (index : ℕ → List Record → List Record)

/-- The records under the claim key that the index comes up with. -/
def probe (b : Backend) (claimKey : String) (filter : Option Bound) (maxRecords : ℕ) :
    List Record :=
  (index b.probes (b.server.select (Query.probe claimKey filter).selects)).take maxRecords

/-- The next step of the call `i` of `take`, for which nobody else has to wait. -/
def advance (cfg : CacheConfig) (refill : ℕ) (bound : Bound) (i : ℕ) (b : Backend) : Backend :=
  match b.cache.takes i with
  | none => b
  | some t =>
    match t.phase with
    | .probing _ _ _ _ =>
      { b with cache := b.cache.step cfg t.key (.runTake i (some (b.probe index t.key none refill)))
               probes := b.probes + 1 }
    | .filteredProbe _ =>
      { b with cache := b.cache.step cfg t.key
                (.runTake i (some (b.probe index t.key (some bound) (sampleSize t.want))))
               probes := b.probes + 1 }
    | _ => { b with cache := b.cache.step cfg t.key (.runTake i (some [])) }

/-- What the call returned. -/
def taken (b : Backend) (i : ℕ) : List Record :=
  match (b.cache.takes i).map TakeCall.phase with
  | some (.returned (some out) _) => out
  | _ => []

/-- A call of `take` is made, which gets the number `calls`. -/
def begin (cfg : CacheConfig) (now : Time) (claimKey : String) (bound : Bound) (want : ℕ)
    (b : Backend) : Backend :=
  { b with cache := ({ b.cache with now := now }).step cfg claimKey
            (.take b.calls claimKey (some bound.valueFilter) bound.pred bound.prefer want)
           calls := b.calls + 1 }

/-- A call that runs alone has at most seven steps: see `take_returns`. -/
def take (cfg : CacheConfig) (refill : ℕ) (now : Time) (claimKey : String) (bound : Bound)
    (want : ℕ) (b : Backend) :
    List Record × Backend :=
  let b' := (advance index cfg refill bound b.calls)^[7] (b.begin cfg now claimKey bound want)
  (b'.taken b.calls, b')

def claimCands (cfg : Config) (now : Time) (claimKey : String) (bound : Bound) (want : ℕ)
    (b : Backend) :
    List Record × Backend :=
  match cfg.cache with
  | some c => b.take index c cfg.refill now claimKey bound want
  | none =>
    (preferredMatches (b.probe index claimKey (some bound) (sampleSize want)) bound.pred
        bound.prefer want,
     { b with probes := b.probes + 1 })

def markClaimable (cfg : Config) (claimKey : String) (b : Backend) : Backend :=
  match cfg.cache with
  | none => b
  | some c =>
    { b with cache := [.mark b.calls claimKey, .runMark b.calls, .runMark b.calls].foldl
                (CacheState.step c claimKey) b.cache
             calls := b.calls + 1 }

theorem server_markClaimable (cfg : Config) (claimKey : String) (b : Backend) :
    (b.markClaimable cfg claimKey).server = b.server := by
  unfold markClaimable
  cases cfg.cache <;> rfl

/-- One call, which is carried out alone. -/
def exec (cfg : Config) (now : Time) : (c : Call) → Backend → c.Answer × Backend
  | .server q, b => ((Server.exec q b.server).1, { b with server := (Server.exec q b.server).2 })
  | .claimCands claimKey bound want, b => b.claimCands index cfg now claimKey bound want
  | .markClaimable claimKey, b => ((), b.markClaimable cfg claimKey)

end Backend

end ArcadeToolbox.Aerostore
