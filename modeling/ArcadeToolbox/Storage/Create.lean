import ArcadeToolbox.Storage.Provider

/-!
# CreateAction

An action is created by reserving the caller's own inputs, funding the rest, and storing the
unsigned transaction with its output plan. Everything is held under one token, the reference of
the action. In Mode A the three run in one unit of work; in Mode B the store is called directly
and the reservation is released when a later part fails.
-/

namespace ArcadeToolbox

open Txn

/-- An input that the caller wants. -/
structure CreateActionInput where
  outpoint : Outpoint
  unlockingScriptLength : Option ℕ
  deriving DecidableEq, Repr

/-- An output that the caller wants. -/
structure CreateActionOutput where
  satoshis : ℕ
  lockingScript : Script
  basket : Option String
  deriving DecidableEq, Repr

/-- A fan-out of coins of one value. -/
structure ShapedChange where
  count : ℕ
  satoshis : ℕ
  basket : String
  sourceBasket : String
  deriving DecidableEq, Repr

/-- What is to be made. -/
structure CreateActionArgs where
  inputs : List CreateActionInput
  outputs : List CreateActionOutput
  fuelShape : Option ShapedChange
  randomizeOutputs : Bool
  deriving DecidableEq, Repr

/-- A wanted input, with what is known of its coin. -/
structure ResolvedInput where
  input : CreateActionInput
  satoshis : ℕ
  lockingScript : Option Script
  /-- the outpoint is an output of this user -/
  known : Bool
  deriving DecidableEq, Repr

/-- An output to be stored. -/
structure OutputPlan where
  satoshis : ℕ
  lockingScript : Option Script
  basket : Option String
  change : Bool
  providedBy : ProvidedBy
  deriving DecidableEq, Repr

/-- An input of the answer. -/
structure CreateInput where
  outpoint : Outpoint
  sourceSatoshis : ℕ
  providedBy : ProvidedBy
  deriving DecidableEq, Repr

/-- The answer. -/
structure CreateActionResult where
  reference : Token
  inputs : List CreateInput
  outputs : List OutputPlan
  allocated : List Utxo
  deriving DecidableEq, Repr

def walletOwnedOutpoints (provided : List ResolvedInput) : List Outpoint :=
  (provided.filter (·.known)).map (·.input.outpoint)

/-- The total in equal parts; the last takes the remainder. -/
def distributeChange (total : ℤ) (count : ℕ) : List ℕ :=
  if count = 0 ∨ total ≤ 0 then []
  else List.replicate (count - 1) (total.toNat / count)
      ++ [total.toNat / count + total.toNat % count]

def spendTiers : SpendPolicy → List Tier
  | .minedOnly => [.mined]
  | .any => [.mined, .unproven, .sending]
  | .preferMined => [.mined, .unproven]

/-- The list in a given order, if that is one. -/
def reorder {α : Type} (order : List ℕ) (l : List α) : List α :=
  if order.isPerm (List.range l.length) then order.filterMap (l[·]?) else l

namespace Storage

variable (p : Provider)

def fanOutSourceBasket (shape : ShapedChange) : String :=
  if shape.sourceBasket ≠ "" then shape.sourceBasket
  else match p.funding.throughput with
    | some t => if shape.basket = t.poolBasket then t.reserveBasket else p.changeBasket
    | none => p.changeBasket

/-- The basket that funds an action, and the denomination of its coins (`0` for any). -/
def fundingSource (shape : Option ShapedChange) : Except Err (String × ℕ) :=
  match shape, p.funding.throughput with
  | some s, _ => .ok (fanOutSourceBasket p s, 0)
  | none, none => .ok (p.changeBasket, 0)
  | none, some t =>
    match t.denomination with
    | some d => .ok (t.poolBasket, d)
    | none => .error (.refused "storage: resolve fuel denomination")

def changeDestinationBasket (shape : Option ShapedChange) : String :=
  match shape, p.funding.throughput with
  | some s, _ => fanOutSourceBasket p s
  | none, some t => if t.recycleChangeToPool then t.poolBasket else p.changeBasket
  | none, none => p.changeBasket

/-- The value and script of a provided input: a local output of the user, or the caller's BEEF. -/
def resolveProvidedInput (env : Env) (userID : UserID) (i : CreateActionInput) :
    Work ResolvedInput := do
  match ← OutputsRepo.findOutputByOutpoint userID i.outpoint with
  | some row => return ⟨i, row.satoshis, row.lockingScript, true⟩
  | none =>
    match env.inputBEEF i.outpoint with
    | some (satoshis, script) => return ⟨i, satoshis, script, false⟩
    | none => throw (.refused "storage: input not found locally or in provided BEEF")

def changeBasketCount (userID : UserID) : Work ℕ :=
  if p.funding.throughput.isSome then return 0
  else OutputsRepo.countInBasket userID p.changeBasket

/-! ## Funding arguments -/

def outputScriptLens (args : CreateActionArgs) : List ℕ :=
  args.outputs.map (·.lockingScript.length / 2)
    ++ (if p.funding.commission.isSome then [p2pkhLockingScriptLength] else [])
    ++ (args.fuelShape.elim [] fun s => List.replicate s.count p2pkhLockingScriptLength)

def fundingTarget (args : CreateActionArgs) (provided : List ResolvedInput) : ℤ :=
  ((args.outputs.map (·.satoshis)).sum : ℤ) + (p.funding.commission.elim 0 (·.1) : ℕ)
    + (args.fuelShape.elim 0 fun s => s.count * s.satoshis : ℕ)
    - (provided.map (·.satoshis)).sum

/-- What the funder is asked for. -/
def fundArgs (userID : UserID) (reference : Token) (args : CreateActionArgs)
    (provided : List ResolvedInput) (existingCount : ℕ) : Except Err FundArgs := do
  let target ← match satoshiFrom (fundingTarget p args provided) with
    | .ok t => .ok t
    | .error e => .error (.fund e)
  let (basket, denomination) ← fundingSource p args.fuelShape
  return {
    userID := userID, basket := basket, reservation := reference, targetSat := target
    currentTxSize := transactionSizeFromScriptLengths
      (args.inputs.map fun i => i.unlockingScriptLength.getD p2pkhUnlockingScriptLength)
      (outputScriptLens p args)
    outputCount := (outputScriptLens p args).length
    tiers := spendTiers (p.funding.throughput.elim .preferMined (·.spendPolicy))
    numberOfDesiredUTXOs := p.funding.numberOfDesiredUTXOs
    minimumDesiredUTXOValue := p.funding.minimumDesiredUTXOValue
    maxChangeOutputsPerTx := if p.funding.maxChangeOutputsPerTx = 0 then 1
      else p.funding.maxChangeOutputsPerTx
    requireChange := p.funding.requireChangeOutput
    existingBasketCount := existingCount, denomination := denomination }

/-! ## The parts of a call -/

def reserveProvidedInputs (userID : UserID) (reference : Token) (ops : List Outpoint) :
    Work Unit := do
  unless ops = [] do UtxoStore.reserveOutpoints userID reference ops

/-- The funder's program for some arguments. -/
def fundProg (args : FundArgs) : Prog StoreCall StoreCall.Answer (Except FundErr FundResult) :=
  (Funder.fund p.funding.fees p.funding.rounds args).run

/-- The wanted outputs, the commission and the change. -/
def buildOutputPlans (args : CreateActionArgs) (fundRes : FundResult) : List OutputPlan :=
  (args.outputs.map fun o =>
    { satoshis := o.satoshis,
      lockingScript := if o.lockingScript = "" then none else some o.lockingScript,
      basket := o.basket, change := false, providedBy := .you })
  ++ (p.funding.commission.toList.map fun c =>
    { satoshis := c.1, lockingScript := some c.2, basket := none, change := false,
      providedBy := .storage })
  ++ (args.fuelShape.elim [] fun s => List.replicate s.count
    { satoshis := s.satoshis, lockingScript := none, basket := some s.basket, change := true,
      providedBy := .storage })
  ++ ((distributeChange fundRes.changeAmount fundRes.changeOutputsCount).map fun v =>
    { satoshis := v, lockingScript := none,
      basket := some (changeDestinationBasket p args.fuelShape), change := true,
      providedBy := .storage })

def totalAllocated : List Utxo → ℤ → Except FundErr ℤ
  | [], total => .ok total
  | u :: us, total => do
    let v ← satoshiFrom u.satoshis
    totalAllocated us (← satoshiFrom (total + v))

def resultInputs (provided : List ResolvedInput) (allocated : List Utxo) : List CreateInput :=
  provided.map (fun ri => ⟨ri.input.outpoint, ri.satoshis,
      if ri.known then .youAndStorage else .you⟩)
    ++ allocated.map fun u => ⟨u.outpoint, u.satoshis, .storage⟩

/-- The outputs are stored in order. -/
def persistOutputs (userID : UserID) (transactionID : TransactionID) (plans : List OutputPlan) :
    Work Unit :=
  (plans.zipIdx).forM fun x => do
    let _ ← OutputsRepo.insert
      { userID := userID, transactionID := transactionID, vout := x.2, satoshis := x.1.satoshis,
        lockingScript := x.1.lockingScript, basket := x.1.basket, change := x.1.change,
        providedBy := x.1.providedBy }

def liftFund {α : Type} (r : Except FundErr α) : Work α :=
  match r with
  | .ok a => pure a
  | .error e => throw (.fund e)

/-- Store the unsigned transaction and its outputs. -/
def persistCreateAction (env : Env) (userID : UserID) (reference : Token) (args : CreateActionArgs)
    (provided : List ResolvedInput) (fundRes : FundResult) : Work CreateActionResult := do
  let plans := buildOutputPlans p args fundRes
  let plans := if args.randomizeOutputs then reorder env.order plans else plans
  let total ← liftFund (totalAllocated fundRes.allocatedUTXOs 0)
  require env.ancestryOk (.refused "storage: input beef")
  let id ← TransactionsRepo.insert
    { userID := userID, status := .unsigned, reference := reference, isOutgoing := true,
      satoshis := fundRes.changeAmount - total }
  persistOutputs userID id plans
  let _ ← OutputsRepo.findOutputsByOutpoints userID (fundRes.allocatedUTXOs.map (·.outpoint))
  return { reference := reference, inputs := resultInputs provided fundRes.allocatedUTXOs,
           outputs := plans, allocated := fundRes.allocatedUTXOs }

/-- Best effort. -/
def releaseReservationDetached (userID : UserID) (reference : Token) : Work Unit := do
  let _ ← Uow.attempt (UtxoStore.releaseReservation userID reference)

/-- Mode A: one unit of work. -/
def createDirect (env : Env) (userID : UserID) (reference : Token) (args : CreateActionArgs)
    (provided : List ResolvedInput) (fa : FundArgs) : Work CreateActionResult :=
  doUnit .a do
    reserveProvidedInputs userID reference (walletOwnedOutpoints provided)
    let fundRes ← liftFund (← UtxoStore.runProg p.funding.prober (fundProg p fa))
    persistCreateAction p env userID reference args provided fundRes

/-- Run `x`, and release the reservation if it fails. -/
def orRelease {α : Type} (userID : UserID) (reference : Token) (x : Work α) : Work α := do
  match ← Uow.attempt x with
  | .ok a => return a
  | .error e =>
    releaseReservationDetached userID reference
    throw e

/-- Mode B, with nothing in between. -/
def createSplit (env : Env) (userID : UserID) (reference : Token) (args : CreateActionArgs)
    (provided : List ResolvedInput) (fa : FundArgs) : Work CreateActionResult := do
  orRelease userID reference
    (reserveProvidedInputs userID reference (walletOwnedOutpoints provided))
  let fundRes ← liftFund (← UtxoStore.runProg p.funding.prober (fundProg p fa))
  orRelease userID reference
    (doUnit .b (persistCreateAction p env userID reference args provided fundRes))

/-- A whole call, with nothing in between. -/
def createAction (env : Env) (userID : UserID) (args : CreateActionArgs) :
    Work CreateActionResult := do
  let provided ← args.inputs.mapM (resolveProvidedInput env userID)
  let count ← changeBasketCount p userID
  match fundArgs p userID env.reference args provided count with
  | .error e => throw e
  | .ok fa =>
    match p.mode with
    | .a => createDirect p env userID env.reference args provided fa
    | .b => createSplit p env userID env.reference args provided fa

/-! ## What the caller is told -/

/-- What `errors.Is` finds in an error of a call. -/
inductive CreateSentinel where
  | utxoContention
  | inputUnavailable
  deriving DecidableEq, Repr

/-- An error as it is reported: the words put before the cause, and the coin they name. -/
structure CreateError where
  text : String
  sentinel : Option CreateSentinel
  outpoint : Option Outpoint
  cause : Err
  deriving DecidableEq, Repr

/-- The coin a refused batch is reported for, by the most final reason: spent, reserved, frozen, not
found. -/
def refusedOutpoint (errs : List UtxoErr) : Option Outpoint :=
  (errs.findSome? fun
    | .spent op _ => some op
    | _ => none)
  <|> (errs.findSome? fun
    | .reserved op _ => some op
    | _ => none)
  <|> (errs.findSome? fun
    | .frozen op => some op
    | _ => none)
  <|> errs.findSome? fun
    | .notFound op => some op
    | _ => none

def mapProvidedInputError (errs : List UtxoErr) : CreateError :=
  if .contention ∈ errs then
    ⟨"storage: reserve provided inputs: ", some .utxoContention, none, .batch errs⟩
  else
    match refusedOutpoint errs with
    | none => ⟨"storage: reserve provided inputs: ", none, none, .batch errs⟩
    | some op =>
      ⟨"storage: provided input is unavailable: ", some .inputUnavailable, some op, .batch errs⟩

/-- A refusal of the provided inputs passes; any other error of Mode A counts as one of the
funder. -/
def mapFundError (e : CreateError) : CreateError :=
  if e.sentinel.isSome then e else { e with text := "storage: fund: " ++ e.text }

/-- The report of an error. A batch is refused only where the provided inputs are reserved; the
words before the other errors are left out. -/
def reportError : Mode → Err → CreateError
  | .a, .batch errs => mapFundError (mapProvidedInputError errs)
  | .b, .batch errs => mapProvidedInputError errs
  | _, e => ⟨"", none, none, e⟩

def createActionReply (env : Env) (userID : UserID) (args : CreateActionArgs) (s : Session Db) :
    Except CreateError CreateActionResult × Session Db :=
  ((createAction p env userID args s).1.mapError (reportError p.mode),
      (createAction p env userID args s).2)

end Storage

end ArcadeToolbox
