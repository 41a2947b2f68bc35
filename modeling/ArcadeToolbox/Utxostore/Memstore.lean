import ArcadeToolbox.Utxostore.Types
import Mathlib.Data.List.Sort

/-!
# The coin inventory: the reference store

Every method is one critical section, so each is a function of the inventory. Calls with a list
of outpoints go through the list; where the outcome for one outpoint does not depend on the
others, the rows named by the list are changed at once.
-/

namespace ArcadeToolbox

open Txn

/-- The coins, and the next sequence number. -/
structure Inventory where
  rows : Table Row
  nextSeq : ℕ

namespace Inventory

def empty : Inventory := ⟨∅, 0⟩

def get (s : Inventory) (op : Outpoint) : Option Row := s.rows.get? op

/-- Change the rows a condition selects. -/
def modify (s : Inventory) (p : Row → Bool) (f : Row → Row)
    (hf : ∀ r, (f r).outpoint = r.outpoint) : Inventory :=
  { s with rows := s.rows.update p f hf }

def drop (s : Inventory) (p : Row → Bool) : Inventory := { s with rows := s.rows.delete p }

/-! ## Minting and removing -/

/-- A replay of the same coin is a success that changes nothing; the tier and the state of the
life of a coin may have moved on and are not compared. -/
def mintOne (now : Time) (m : Mint) (s : Inventory) : Option UtxoErr × Inventory :=
  match validateMint m with
  | some e => (some e, s)
  | none =>
    match s.get m.outpoint with
    | some u =>
      if u.userID = m.userID ∧ u.basket = m.basket ∧ u.satoshis = m.satoshis
          ∧ u.inputSize = m.inputSize then (none, s)
      else (some (.alreadyExists m.outpoint), s)
    | none =>
      (none, { nextSeq := s.nextSeq + 1,
               rows := s.rows.insert
                { outpoint := m.outpoint, userID := m.userID, basket := m.basket,
                  satoshis := m.satoshis, inputSize := m.inputSize, tier := m.tier,
                  reservedBy := "", reservedAt := 0, spentBy := none, frozen := false,
                  pinned := false, createdAt := now, seq := s.nextSeq + 1 } })

/-- The item errors, in order, and the inventory. -/
def mint (now : Time) : List Mint → Inventory → List (Option UtxoErr) × Inventory
  | [], s => ([], s)
  | m :: ms, s =>
    let (e, s₁) := mintOne now m s
    let (es, s₂) := mint now ms s₁
    (e :: es, s₂)

/-- Why an unforced removal refuses the row. -/
def removeRefusal (op : Outpoint) (r : Row) : Option UtxoErr :=
  match r.spentBy with
  | some w => some (.spent op w)
  | none =>
    if r.reservedBy ≠ "" then some (.reserved op r.reservedBy)
    else if r.frozen then some (.frozen op)
    else none

def remove (ops : List Outpoint) (force : Bool) (s : Inventory) : List UtxoErr × Inventory :=
  (if force then [] else ops.filterMap fun op => (s.get op).bind (removeRefusal op),
   s.drop fun r => r.outpoint ∈ ops && (force || (removeRefusal r.outpoint r).isNone))

/-! ## Claims -/

/-- Free, spendable and in the scope. -/
def claimable (r : Row) (sc : Scope) : Bool :=
  r.userID = sc.userID && r.basket = sc.basket && r.tier = sc.tier
    && r.reservedBy = "" && r.spentBy = none && !r.frozen

/-- Hold the rows whose outpoints are listed. -/
def reserve (now : Time) (reservation : Token) (ops : List Outpoint) (s : Inventory) : Inventory :=
  s.modify (fun r => r.outpoint ∈ ops)
    (fun r => { r with reservedBy := reservation, reservedAt := now }) fun _ => rfl

def reserved (now : Time) (reservation : Token) (r : Row) : Utxo :=
  { r.toUtxo with reservedBy := reservation, reservedAt := now }

/-- The smaller coin first, then the older. -/
def smaller (a b : Row) : Bool :=
  a.satoshis < b.satoshis || (a.satoshis = b.satoshis && a.seq < b.seq)

/-- The scan for the smallest row: the first one, replaced by each later one that is smaller. -/
def smallest : List Row → Option Row
  | [] => none
  | r :: rs => some (rs.foldl (fun best r => if smaller r best then r else best) r)

def claimSmallestSufficient (now : Time) (sc : Scope) (reservation : Token) (minSats : ℕ)
    (s : Inventory) : Except UtxoErr (Option Utxo) × Inventory :=
  match validateClaim sc reservation with
  | some e => (.error e, s)
  | none =>
    match smallest (s.rows.select fun r => claimable r sc && !(r.satoshis < minSats)) with
    | none => (.ok none, s)
    | some best =>
      (.ok (some (reserved now reservation best)), s.reserve now reservation [best.outpoint])

/-- Reserve the first `limit` of some sorted candidates. -/
def claimFirst (now : Time) (reservation : Token) (limit : ℤ) (candidates : List Row)
    (s : Inventory) : List Utxo × Inventory :=
  let picked := candidates.take limit.toNat
  (picked.map (reserved now reservation), s.reserve now reservation (picked.map (·.outpoint)))

def claimLargestInsufficient (now : Time) (sc : Scope) (reservation : Token) (capSats : ℕ)
    (limit : ℤ) (s : Inventory) : Except UtxoErr (List Utxo) × Inventory :=
  match validateClaim sc reservation with
  | some e => (.error e, s)
  | none =>
    if limit ≤ 0 then (.ok [], s)
    else
      -- largest first, and of equal coins the newest first
      let candidates := (s.rows.select fun r => claimable r sc && r.satoshis
          < capSats).insertionSort
        fun a b => a.satoshis > b.satoshis ∨ (a.satoshis = b.satoshis ∧ a.seq ≥ b.seq)
      let (us, s') := s.claimFirst now reservation limit candidates
      (.ok us, s')

def claimExact (now : Time) (sc : Scope) (reservation : Token) (denomination : ℕ) (count : ℤ)
    (s : Inventory) : Except UtxoErr (List Utxo) × Inventory :=
  match validateClaim sc reservation with
  | some e => (.error e, s)
  | none =>
    if count ≤ 0 then (.ok [], s)
    else
      let candidates := (s.rows.select fun r => claimable r sc && r.satoshis
          = denomination).insertionSort
        fun a b => a.seq ≤ b.seq
      let (us, s') := s.claimFirst now reservation count candidates
      (.ok us, s')

/-- What `ReserveOutpoints` finds against one outpoint. -/
def reserveRefusal (userID : UserID) (reservation : Token) (s : Inventory) (op : Outpoint) :
    Option UtxoErr :=
  match s.get op with
  | none => some (.notFound op)
  | some r =>
    if r.userID ≠ userID then some (.notFound op)
    else match r.spentBy with
      | some w => some (.spent op w)
      | none =>
        if r.reservedBy ≠ "" ∧ r.reservedBy ≠ reservation then some (.reserved op r.reservedBy)
        else if r.frozen then some (.frozen op)
        else none

/-- All or nothing; a row already held by the reservation is not stamped again. -/
def reserveOutpoints (now : Time) (userID : UserID) (reservation : Token) (ops : List Outpoint)
    (s : Inventory) : List UtxoErr × Inventory :=
  match validateReserveOutpoints reservation ops with
  | some e => ([e], s)
  | none =>
    match ops.eraseDups.filterMap (s.reserveRefusal userID reservation) with
    | e :: es => (e :: es, s)
    | [] =>
      ([], s.modify (fun r => r.outpoint ∈ ops && r.reservedBy ≠ reservation)
        (fun r => { r with reservedBy := reservation, reservedAt := now }) fun _ => rfl)

/-! ## Releasing and pinning -/

/-- The coin is held by the reservation. -/
def heldBy (r : Row) (userID : UserID) (reservation : Token) : Bool :=
  r.userID = userID && r.reservedBy = reservation && r.spentBy = none

def releaseReservation (userID : UserID) (reservation : Token) (s : Inventory) :
    Except UtxoErr ℕ × Inventory :=
  match validateReservation reservation with
  | some e => (.error e, s)
  | none =>
    let p := fun r : Row => heldBy r userID reservation && !r.pinned
    (.ok (s.rows.select p).length,
     s.modify p (fun r => { r with reservedBy := "", reservedAt := 0 }) fun _ => rfl)

def setPinned (userID : UserID) (reservation : Token) (pinned : Bool) (s : Inventory) :
    Except UtxoErr ℕ × Inventory :=
  match validateReservation reservation with
  | some e => (.error e, s)
  | none =>
    let p := fun r : Row => heldBy r userID reservation && r.pinned ≠ pinned
    (.ok (s.rows.select p).length, s.modify p (fun r => { r with pinned := pinned }) fun _ => rfl)

def pin (userID : UserID) (reservation : Token) : Inventory → Except UtxoErr ℕ × Inventory :=
  setPinned userID reservation true

def unpin (userID : UserID) (reservation : Token) : Inventory → Except UtxoErr ℕ × Inventory :=
  setPinned userID reservation false

/-- Free those of the coins that the reservation holds. -/
def releaseOutpoints (reservation : Token) (ops : List Outpoint) (s : Inventory) :
    Except UtxoErr Unit × Inventory :=
  match validateReservation reservation with
  | some e => (.error e, s)
  | none =>
    (.ok (), s.modify (fun r => r.outpoint ∈ ops && r.reservedBy = reservation && r.spentBy = none)
      (fun r => { r with reservedBy := "", reservedAt := 0, pinned := false }) fun _ => rfl)

/-! ## Spending -/

/-- With `force` the freeze and the reservation are not checked: the network has already accepted
the spend. A coin spent by another transaction is refused in both modes. -/
def spendOne (sp : SpendOp) (force : Bool) (s : Inventory) : Option UtxoErr × Inventory :=
  match validateSpend sp with
  | some e => (some e, s)
  | none =>
    match s.get sp.outpoint with
    | none => (some (.notFound sp.outpoint), s)
    | some r =>
      match r.spentBy with
      | some w => (if w = sp.spendingTxID then none else some (.spent sp.outpoint w), s)
      | none =>
        if !force && r.frozen then (some (.frozen sp.outpoint), s)
        else if !force && r.reservedBy ≠ sp.reservation then
          (some (.reserved sp.outpoint r.reservedBy), s)
        else
          (none, s.modify (fun r => r.outpoint = sp.outpoint)
            (fun r => { r with spentBy := some sp.spendingTxID, pinned := false }) fun _ => rfl)

/-- The spends, one after the other. -/
def spend (force : Bool) : List SpendOp → Inventory → List (Option UtxoErr) × Inventory
  | [], s => ([], s)
  | sp :: sps, s =>
    let (e, s₁) := spendOne sp force s
    let (es, s₂) := spend force sps s₁
    (e :: es, s₂)

def unspend (spendingTxID : TxID) (ops : List Outpoint) (s : Inventory) : ℕ × Inventory :=
  let p := fun r : Row => r.outpoint ∈ ops && r.spentBy = some spendingTxID
  ((s.rows.select p).length,
   s.modify p (fun r => { r with spentBy := none, reservedBy := "", reservedAt := 0,
                                 pinned := false })
    fun _ => rfl)

def removeSpentBy (spendingTxID : TxID) (s : Inventory) : ℕ × Inventory :=
  let p := fun r : Row => decide (r.spentBy = some spendingTxID)
  ((s.rows.select p).length, s.drop p)

def promote (ops : List Outpoint) (target : Tier) (s : Inventory) : ℕ × Inventory :=
  let p := fun r : Row => r.outpoint ∈ ops && r.tier ≠ target
  ((s.rows.select p).length, s.modify p (fun r => { r with tier := target }) fun _ => rfl)

/-! ## Removing what a dead transaction minted -/

/-- A row nobody reserved or spent; it goes even when it is frozen. -/
def removable (r : Row) : Bool := r.spentBy = none && r.reservedBy = ""

/-- The reservation references of some held rows: one for each token in order of appearance, with
its oldest timestamp. -/
def reservationRefs (held : List Row) : List ReservationRef :=
  (held.map (·.reservedBy)).eraseDups.filterMap fun token =>
    match held.filter (fun r => r.reservedBy = token) with
    | [] => none
    | r :: rs => some
        { reservation := token, userID := r.userID,
          reservedAt := rs.foldl (fun t r => min t r.reservedAt) r.reservedAt,
          outpoints := (r :: rs).map (·.outpoint) }

/-- What a failed transaction minted goes, unless spent or held. -/
def removeByMintTx (mintTxID : TxID) (ops : List Outpoint) (s : Inventory) :
    Except UtxoErr RemoveByMintReport × Inventory :=
  match validateMintOutpoints mintTxID ops with
  | some e => (.error e, s)
  | none =>
    let found := ops.filterMap s.get
    (.ok { removed := ((found.filter removable).map (·.outpoint)).eraseDups
           alreadyReserved := reservationRefs
            (found.filter fun r => r.spentBy = none && r.reservedBy ≠ "")
           alreadySpentBy := (found.filterMap (·.spentBy)).eraseDups },
     s.drop fun r => r.outpoint ∈ ops && removable r)

/-! ## Freezing -/

def setFrozen (ops : List Outpoint) (frozen : Bool) (s : Inventory) : List UtxoErr × Inventory :=
  ((ops.filter fun op => (s.get op).isNone).map .notFound,
   s.modify (fun r => r.outpoint ∈ ops) (fun r => { r with frozen := frozen }) fun _ => rfl)

def freeze (ops : List Outpoint) : Inventory → List UtxoErr × Inventory := setFrozen ops true

def unfreeze (ops : List Outpoint) : Inventory → List UtxoErr × Inventory := setFrozen ops false

/-! ## Stale reservations -/

/-- The rows of one `(user, token)` group, as a reference dated by its oldest row, with the
smallest sequence number of the group. -/
def staleGroup (r : Row) (rs : List Row) : ReservationRef × ℕ :=
  ({ reservation := r.reservedBy, userID := r.userID,
     reservedAt := rs.foldl (fun t r => min t r.reservedAt) r.reservedAt,
     outpoints := (r :: rs).map (·.outpoint) },
   rs.foldl (fun n r => min n r.seq) r.seq)

/-- The reservations that are old. -/
def findStale (olderThan : Time) (limit : ℤ) (includePinned : Bool) (s : Inventory) :
    List ReservationRef :=
  if limit ≤ 0 then []
  else
    let live := s.rows.select fun r =>
      r.reservedBy ≠ "" && r.spentBy = none && (includePinned || !r.pinned)
    let groups := (live.map fun r => (r.userID, r.reservedBy)).eraseDups.filterMap fun k =>
      match live.filter fun r => (r.userID, r.reservedBy) = k with
      | [] => none
      | r :: rs => some (staleGroup r rs)
    let stale := (groups.filter fun g => g.1.reservedAt < olderThan).insertionSort
      fun a b => a.1.reservedAt < b.1.reservedAt ∨ (a.1.reservedAt = b.1.reservedAt ∧ a.2 ≤ b.2)
    (stale.take limit.toNat).map (·.1)

end Inventory

end ArcadeToolbox
