import ArcadeToolbox.Storage.Funding
import ArcadeToolbox.Storage.Rules

/-!
# What a created action holds

`CreateAction` reserves the caller's own inputs under the reference before the funder runs. But the
funder answers contention by releasing the whole token, the caller's inputs with it, and goes on
without them. So the inputs are held at the end of a successful call exactly if it met no
contention.
-/

namespace ArcadeToolbox

open Txn Inventory

/-- The inputs a caller provides that are outputs of the user. -/
def ownedInputs (m : Metadata) (userID : UserID) (args : CreateActionArgs) : List Outpoint :=
  (args.inputs.map (·.outpoint)).filter fun op => (m.outputOf userID op).isSome

namespace Storage

variable {p : Provider} {env : Env} {userID : UserID} {args : CreateActionArgs} {s s' : Session Db}

theorem waits_metaQuery {α : Type} (f : Metadata → α) : Uow.Moves Uow.Waits (metaQuery f) :=
  Uow.moves_query (fun _ _ h => h) _ _

theorem waits_resolveProvidedInput (i : CreateActionInput) :
    Uow.Moves Uow.Waits (resolveProvidedInput env userID i) := by
  refine Uow.moves_bind (waits_metaQuery _) fun o => ?_
  rcases o with _ | row
  · dsimp only
    split
    · exact Uow.moves_pure _
    · exact Uow.moves_throw _
  · exact Uow.moves_pure _

theorem resolveProvidedInput_ok {i : CreateActionInput} {ri : ResolvedInput}
    (h : resolveProvidedInput env userID i s = (.ok ri, s')) :
    ri.input = i ∧ ri.known = (s.db.metadata.outputOf userID i.outpoint).isSome := by
  obtain ⟨o, s1, hq, h⟩ := Uow.bind_ok h
  rw [← (metaQuery_ok hq).2]
  rcases o with _ | row
  · rcases hin : env.inputBEEF i.outpoint with _ | ⟨sats, script⟩ <;> simp only [hin] at h
    · cases h
    · cases h
      exact ⟨rfl, rfl⟩
  · cases h
    exact ⟨rfl, rfl⟩

/-- The inputs are resolved one by one, against the same tables. -/
theorem mapM_resolveProvidedInput_ok : ∀ {inputs : List CreateActionInput} {s s' : Session Db}
    {provided : List ResolvedInput},
    inputs.mapM (resolveProvidedInput env userID) s = (.ok provided, s') →
      List.Forall₂ (fun i ri => ri.input = i
        ∧ ri.known = (s.db.metadata.outputOf userID i.outpoint).isSome) inputs provided
  | [], s, s', provided, h => by
    cases h
    exact .nil
  | i :: inputs, s, s', provided, h => by
    rw [List.mapM_cons] at h
    obtain ⟨ri, s1, hri, h⟩ := Uow.bind_ok h
    obtain ⟨rest, s2, hrest, h⟩ := Uow.bind_ok h
    cases h
    have hdb : s1.db = s.db := ((waits_resolveProvidedInput i).run hri).db
    have ih := mapM_resolveProvidedInput_ok hrest
    rw [hdb] at ih
    exact .cons (resolveProvidedInput_ok hri) ih

variable {provided : List ResolvedInput}

theorem map_input_resolved {inputs : List CreateActionInput}
    {Q : CreateActionInput → ResolvedInput → Prop}
    (h : List.Forall₂ (fun i ri => ri.input = i ∧ Q i ri) inputs provided) :
    provided.map (·.input) = inputs := by
  induction h with
  | nil => rfl
  | cons hi _ ih => rw [List.map_cons, hi.1, ih]

theorem walletOwnedOutpoints_resolved {inputs : List CreateActionInput} {known : Outpoint → Bool}
    (h : List.Forall₂ (fun i ri => ri.input = i ∧ ri.known = known i.outpoint) inputs provided) :
    walletOwnedOutpoints provided = (inputs.map (·.outpoint)).filter known := by
  unfold walletOwnedOutpoints
  induction h with
  | nil => rfl
  | cons hi _ ih =>
    rw [List.map_cons, List.filter_cons, List.filter_cons, ← ih, hi.2]
    split <;> simp [hi.1]

/-- The inventory and the contention to come are what they were. -/
structure SameCoins (s s' : Session Db) : Prop where
  utxo : s'.db.utxo = s.db.utxo
  busy : s'.busy = s.busy

instance : IsPreorder (Session Db) SameCoins where
  refl _ := ⟨rfl, rfl⟩
  trans _ _ _ h h' := ⟨h'.utxo.trans h.utxo, h'.busy.trans h.busy⟩

theorem sameCoins_metaStmt {α : Type} (f : Time → Metadata → Except Err α × Metadata) :
    Uow.Moves SameCoins (metaStmt f) :=
  Uow.moves_stmt (fun _ _ h => ⟨by rw [h.db], h.busy⟩) _ fun _ => ⟨rfl, rfl⟩

theorem sameCoins_metaQuery {α : Type} (f : Metadata → α) : Uow.Moves SameCoins (metaQuery f) :=
  (waits_metaQuery f).mono fun _ _ h => ⟨by rw [h.db], h.busy⟩

theorem sameCoins_persistCreateAction (reference : Token) (provided : List ResolvedInput)
    (fundRes : FundResult) :
    Uow.Moves SameCoins (persistCreateAction p env userID reference args provided fundRes) := by
  unfold persistCreateAction
  refine Uow.moves_bind (moves_liftFund _) fun total => Uow.moves_bind (moves_require _ _) fun _ =>
    Uow.moves_bind (sameCoins_metaStmt _) fun id => Uow.moves_bind ?_ fun _ =>
    Uow.moves_bind (sameCoins_metaQuery _) fun _ => Uow.moves_pure _
  exact Uow.moves_forM _ fun x _ => Uow.moves_bind (sameCoins_metaStmt _) fun _ => Uow.moves_pure _

variable {reference : Token} {r : CreateActionResult}

theorem persistCreateAction_ok {fundRes : FundResult}
    (h : persistCreateAction p env userID reference args provided fundRes s = (.ok r, s')) :
    r.reference = reference ∧ r.allocated = fundRes.allocatedUTXOs := by
  unfold persistCreateAction at h
  obtain ⟨total, s1, -, h⟩ := Uow.bind_ok h
  obtain ⟨-, s2, -, h⟩ := Uow.bind_ok h
  obtain ⟨id, s3, -, h⟩ := Uow.bind_ok h
  obtain ⟨-, s4, -, h⟩ := Uow.bind_ok h
  obtain ⟨-, s5, -, h⟩ := Uow.bind_ok h
  cases h
  exact ⟨rfl, rfl⟩

/-- The three parts of a successful call after the reads. -/
structure Created (p : Provider) (env : Env) (userID : UserID) (args : CreateActionArgs)
    (s : Session Db) (r : CreateActionResult) (s' : Session Db) where
  provided : List ResolvedInput
  fa : FundArgs
  fundRes : FundResult
  read : Session Db
  reserved : Session Db
  funded : Session Db
  owned : walletOwnedOutpoints provided = ownedInputs s.db.metadata userID args
  waits : Uow.Waits s read
  reserve : reserveProvidedInputs userID env.reference (walletOwnedOutpoints provided) read
    = (.ok (), reserved)
  fund : (fundProg p fa).run (UtxoStore.call p.funding.prober) reserved = (.ok fundRes, funded)
  user : fa.userID = userID
  token : fa.reservation = env.reference
  persist : persistCreateAction p env userID env.reference args provided
      fundRes funded = (.ok r, s')

theorem liftFund_ok {α : Type} {r : Except FundErr α} {a : α} (h : liftFund r s = (.ok a, s')) :
    r = .ok a ∧ s' = s := by
  rcases r with e | b
  · cases h
  · cases h
    exact ⟨rfl, rfl⟩

theorem orRelease_ok {α : Type} {x : Work α} {a : α}
    (h : orRelease userID reference x s = (.ok a, s')) : x s = (.ok a, s') := by
  obtain ⟨r, s1, hr, h⟩ := Uow.bind_ok h
  cases hr
  rcases hx : x s with ⟨e | b, s2⟩ <;> rw [hx] at h
  · obtain ⟨-, s3, -, h⟩ := Uow.bind_ok h
    cases h
  · exact h

theorem fundArgs_ok {count : ℕ} {fa : FundArgs}
    (h : fundArgs p userID reference args provided count = .ok fa) :
    fa.userID = userID ∧ fa.reservation = reference := by
  unfold fundArgs at h
  rcases ht : satoshiFrom (fundingTarget p args provided) with e | t <;> rw [ht] at h
  · cases h
  · obtain ⟨t, -, h⟩ := Except.bind_eq_ok h
    obtain ⟨src, -, h⟩ := Except.bind_eq_ok h
    cases h
    exact ⟨rfl, rfl⟩

/-- What a call does before it funds: the reads, the arguments of the funder and the reservation. -/
def beforeFunding (p : Provider) (env : Env) (userID : UserID) (args : CreateActionArgs) :
    Work (List ResolvedInput × FundArgs) := do
  let provided ← args.inputs.mapM (resolveProvidedInput env userID)
  let count ← changeBasketCount p userID
  match fundArgs p userID env.reference args provided count with
  | .error e => throw e
  | .ok fa =>
    reserveProvidedInputs userID env.reference (walletOwnedOutpoints provided)
    return (provided, fa)

theorem beforeFunding_ok {fa : FundArgs}
    (h : beforeFunding p env userID args s = (.ok (provided, fa), s')) :
    List.Forall₂ (fun i ri => ri.input = i
        ∧ ri.known = (s.db.metadata.outputOf userID i.outpoint).isSome) args.inputs provided
      ∧ (∃ count, fundArgs p userID env.reference args provided count = .ok fa)
      ∧ ∃ s1, Uow.Waits s s1
        ∧ reserveProvidedInputs userID env.reference (walletOwnedOutpoints provided) s1
          = (.ok (), s') := by
  unfold beforeFunding at h
  obtain ⟨provided', s1, hprov, h⟩ := Uow.bind_ok h
  obtain ⟨count, s2, hcount, h⟩ := Uow.bind_ok h
  rcases hfa : fundArgs p userID env.reference args provided' count with e | fa' <;> rw [hfa] at h
  · cases h
  obtain ⟨_, s3, hres, h⟩ := Uow.bind_ok h
  cases h
  have hwaits : Uow.Waits s s2 := by
    refine trans_of Uow.Waits ((Uow.moves_mapM _ fun i _ =>
        waits_resolveProvidedInput i).run hprov) ?_
    unfold changeBasketCount at hcount
    split at hcount
    · exact (Uow.moves_pure _).run hcount
    · exact (waits_metaQuery _).run hcount
  exact ⟨mapM_resolveProvidedInput_ok hprov, ⟨count, hfa⟩, s2, hwaits, hres⟩

/-- Both modes run the same three parts. -/
theorem createAction_parts (h : createAction p env userID args s = (.ok r, s')) :
    ∃ provided fa s1 fundRes s2, beforeFunding p env userID args s = (.ok (provided, fa), s1)
      ∧ (fundProg p fa).run (UtxoStore.call p.funding.prober) s1 = (.ok fundRes, s2)
      ∧ persistCreateAction p env userID env.reference args provided fundRes s2 = (.ok r, s') := by
  unfold createAction at h
  obtain ⟨provided, s1, hprov, h⟩ := Uow.bind_ok h
  obtain ⟨count, s2, hcount, h⟩ := Uow.bind_ok h
  rcases hfa : fundArgs p userID env.reference args provided count with e | fa <;> rw [hfa] at h
  · cases h
  have hbefore : ∀ {s3}, reserveProvidedInputs userID env.reference
      (walletOwnedOutpoints provided) s2
      = (.ok (), s3) → beforeFunding p env userID args s = (.ok (provided, fa), s3) :=
        fun hres => by
    unfold beforeFunding
    refine Uow.bind_of_ok hprov (Uow.bind_of_ok hcount ?_)
    rw [hfa]
    exact Uow.bind_of_ok hres rfl
  rcases hmode : p.mode with _ | _ <;> simp only [hmode] at h
  · obtain ⟨_, s3, h1, h⟩ := Uow.bind_ok (doUnit_ok h)
    obtain ⟨prog, s4, h2, h⟩ := Uow.bind_ok h
    obtain ⟨fundRes, s5, h3, h⟩ := Uow.bind_ok h
    obtain ⟨rfl, rfl⟩ := liftFund_ok h3
    obtain ⟨hp, rfl⟩ := Prod.mk.inj h2
    exact ⟨provided, fa, s3, fundRes, _, hbefore h1, Prod.ext (Except.ok.inj hp) rfl, h⟩
  · obtain ⟨_, s3, h1, h⟩ := Uow.bind_ok h
    obtain ⟨prog, s4, h2, h⟩ := Uow.bind_ok h
    obtain ⟨fundRes, s5, h3, h⟩ := Uow.bind_ok h
    obtain ⟨rfl, rfl⟩ := liftFund_ok h3
    obtain ⟨hp, rfl⟩ := Prod.mk.inj h2
    exact ⟨provided, fa, s3, fundRes, _, hbefore (orRelease_ok h1), Prod.ext (Except.ok.inj hp) rfl,
      doUnit_ok (orRelease_ok h)⟩

theorem createAction_ok (h : createAction p env userID args s = (.ok r, s')) :
    Nonempty (Created p env userID args s r s') := by
  obtain ⟨provided, fa, s1, fundRes, s2, hbefore, hfund, hpersist⟩ := createAction_parts h
  obtain ⟨hprov, ⟨count, hfa⟩, s0, hwaits, hres⟩ := beforeFunding_ok hbefore
  obtain ⟨huser, htoken⟩ := fundArgs_ok hfa
  exact ⟨⟨provided, fa, fundRes, s0, s1, s2, walletOwnedOutpoints_resolved hprov,
      hwaits, hres, hfund,
    huser, htoken, hpersist⟩⟩

theorem reserveProvidedInputs_ok {ops : List Outpoint} (hcalm : Calm s)
    (hfresh : ∀ c ∈ s.db.utxo.rows, c.reservedBy ≠ reference)
    (hloose : ∀ c ∈ s.db.utxo.rows, c.reservedBy = "" → c.pinned = false)
    (h : reserveProvidedInputs userID reference ops s = (.ok (), s')) :
    Grip userID reference s'.db.utxo ∧ held reference s'.db.utxo = {op | op ∈ ops}
      ∧ s'.busy = s.busy ∧ Calm s' := by
  unfold reserveProvidedInputs at h
  split at h
  · rename_i hnil
    cases h
    refine ⟨⟨fun r hr hb => absurd hb (hfresh r hr), hloose⟩, ?_, rfl, hcalm⟩
    ext op
    simp only [hnil, List.not_mem_nil, Set.mem_ofPred_eq, iff_false]
    rintro ⟨r, hr, -, hb⟩
    exact hfresh r hr hb
  · obtain ⟨s1, hw, hok, rfl⟩ := utxoStmt_ok h
    have hok : ((s1.db.utxo).reserveOutpoints s1.now userID reference ops).1 = [] := by
      by_contra hne
      simp only [UtxoStore.joinBatch, hne, if_false] at hok
      cases hok
    have hrows : s1.db.utxo = s.db.utxo := by rw [hw.db]
    obtain ⟨hheld, hgrip⟩ := reserveOutpoints_held (hrows ▸ hfresh) (hrows ▸ hloose) hok
    exact ⟨hgrip, hheld, hw.busy, fun b hb => hcalm b (hw.beats b hb)⟩

/-- What a successful call leaves: the provided coins and the allocated ones are held, or it met
contention and holds the allocated ones only. -/
theorem createAction_held (hcalm : Calm s)
    (hfresh : ∀ c ∈ s.db.utxo.rows, c.reservedBy ≠ env.reference)
    (hloose : ∀ c ∈ s.db.utxo.rows, c.reservedBy = "" → c.pinned = false)
    (h : createAction p env userID args s = (.ok r, s')) :
    (held r.reference s'.db.utxo = {op | op ∈ ownedInputs s.db.metadata userID args}
          ∪ {op | op ∈ r.allocated.map (·.outpoint)}
        ∧ (∀ op ∈ r.allocated.map (·.outpoint), op ∉ ownedInputs s.db.metadata userID args)
        ∧ (true ∈ s'.busy ↔ true ∈ s.busy))
      ∨ (held r.reference s'.db.utxo = {op | op ∈ r.allocated.map (·.outpoint)}
        ∧ true ∈ s.busy) := by
  obtain ⟨c⟩ := createAction_ok h
  have hdb := c.waits.db
  obtain ⟨hgrip, hheld, hbusy, hcalm'⟩ := reserveProvidedInputs_ok
    (fun b hb => hcalm b (c.waits.beats b hb)) (hdb ▸ hfresh) (hdb ▸ hloose) c.reserve
  have hgrip : Grip c.fa.userID c.fa.reservation c.reserved.db.utxo := by
    rw [c.user, c.token]
    exact hgrip
  have hfund := fund_held hgrip hcalm' c.fund
  have hsame := (sameCoins_persistCreateAction _ _ _).run c.persist
  obtain ⟨href, halloc⟩ := persistCreateAction_ok c.persist
  rw [hbusy, c.waits.busy, c.token, hheld, c.owned] at hfund
  rw [href, halloc, hsame.utxo, hsame.busy]
  exact hfund

/-- A call that met its contention holds no coin of the caller that it did not allocate. -/
theorem createAction_contended (hcalm : Calm s)
    (hfresh : ∀ c ∈ s.db.utxo.rows, c.reservedBy ≠ env.reference)
    (hloose : ∀ c ∈ s.db.utxo.rows, c.reservedBy = "" → c.pinned = false)
    (h : createAction p env userID args s = (.ok r, s')) (hmet : s'.busy = [])
    (hbusy : true ∈ s.busy)
    {op : Outpoint} (hop : ∃ c ∈ s'.db.utxo.rows, c.outpoint = op ∧ c.reservedBy = r.reference) :
    op ∈ r.allocated.map (·.outpoint) := by
  have hop : op ∈ held r.reference s'.db.utxo := hop
  rcases createAction_held hcalm hfresh hloose h with ⟨-, -, hb⟩ | ⟨hheld, -⟩
  · have := hb.mpr hbusy
    rw [hmet] at this
    cases this
  · rw [hheld] at hop
    exact hop

/-- For a call that met every contention of the schedule before it succeeded: the coins the caller
provided are held under the reference of the action, and none of them was allocated, exactly if
there were none or there was no contention. -/
theorem createAction_holds_provided_iff {r : CreateActionResult} (hcalm : Calm s)
    (hfresh : ∀ c ∈ s.db.utxo.rows, c.reservedBy ≠ env.reference)
    (hloose : ∀ c ∈ s.db.utxo.rows, c.reservedBy = "" → c.pinned = false)
    (h : createAction p env userID args s = (.ok r, s')) (hmet : s'.busy = []) :
    (∀ op ∈ ownedInputs s.db.metadata userID args,
        (∃ c ∈ s'.db.utxo.rows, c.outpoint = op ∧ c.reservedBy = r.reference)
          ∧ op ∉ r.allocated.map (·.outpoint))
      ↔ ownedInputs s.db.metadata userID args = [] ∨ true ∉ s.busy := by
  constructor
  · intro hprop
    by_cases hnil : ownedInputs s.db.metadata userID args = []
    · exact Or.inl hnil
    · obtain ⟨op, hop⟩ := List.exists_mem_of_ne_nil _ hnil
      obtain ⟨hin, hout⟩ := hprop op hop
      exact Or.inr fun hbusy => hout (createAction_contended hcalm hfresh hloose h hmet hbusy hin)
  · rintro (hnil | hquiet) op hop
    · rw [hnil] at hop
      cases hop
    · rcases createAction_held hcalm hfresh hloose h with ⟨hheld, hapart, -⟩ | ⟨-, hbusy⟩
      · have hin : op ∈ held r.reference s'.db.utxo := by
          rw [hheld]
          exact Or.inl hop
        exact ⟨hin, fun h => hapart op h hop⟩
      · exact absurd hbusy hquiet

/-- A deployment with plain funding. -/
def plainProvider (mode : Mode) : Provider :=
  { mode := mode, ledger := fun _ => ⟨[], [], 0⟩, immediateBroadcast := false,
    changeBasket := "change",
    hasHeaders := true, minBroadcastFeeRate := 0,
    funding :=
      { fees := .satPerKB 1, commission := none, numberOfDesiredUTXOs := 1,
        minimumDesiredUTXOValue := 1000,
        maxChangeOutputsPerTx := 1, requireChangeOutput := false, throughput :=
          none, prober := false,
        rounds := 4 },
    parseSpendConflictExtra := fun _ => ⟨false, [], []⟩ }

/-- A mined coin of the change basket. -/
def plainCoin (vout satoshis seq : ℕ) : Row :=
  { outpoint := ⟨"parent", vout⟩, userID := 1, basket := "change", satoshis := satoshis,
    inputSize := defaultP2PKHInputSize, tier := .mined, reservedBy := "", reservedAt := 0,
    spentBy := none, frozen := false, pinned := false, createdAt := 0, seq := seq }

/-- One user with two coins, the first of them recorded as an output of theirs. -/
def plainDb : Db :=
  { metadata :=
      { transactions := ⟨[⟨1, 1, .completed, "parent-ref", false, 0, some "parent", 0⟩], by decide⟩,
        knownTxs := ∅,
        outputs := ⟨[⟨1, 1, 1, 0, 600, none, some "change", none, true, .storage⟩], by decide⟩,
        outbox := ∅, nextTransactionID := 2, nextOutputID := 2, audit := [] },
    utxo := ⟨⟨[plainCoin 0 600 1, plainCoin 1 50000 2], by decide⟩, 2⟩,
    removals := [] }

/-- The action provides the first coin and pays more than it is worth. -/
def plainArgs : CreateActionArgs :=
  { inputs := [⟨⟨"parent", 0⟩, none⟩], outputs := [⟨1000, "script", none⟩], fuelShape := none,
    randomizeOutputs := false }

def plainEnv : Env := { Env.quiet with reference := "ref" }

/-- The first claim of the funder meets contention. -/
def busySession : Session Db := ⟨plainDb, 0, [], [true]⟩

theorem busySession_creates (mode : Mode) :
    ∃ r s', createAction (plainProvider mode) plainEnv 1 plainArgs busySession = (.ok r, s')
      ∧ decide (s'.busy = []) = true := by
  refine Uow.exists_of_check ?_
  cases mode <;> decide +kernel

theorem busySession_free :
    ∀ c ∈ busySession.db.utxo.rows, c.reservedBy = "" ∧ c.pinned = false := by
  intro c hc
  rcases List.mem_cons.mp hc with rfl | hc
  · exact ⟨rfl, rfl⟩
  · rw [List.mem_singleton.mp hc]
    exact ⟨rfl, rfl⟩

/-- The call succeeds, and the coin it was given is not held, or allocated as if it were fresh. -/
def LosesInput (mode : Mode) : Prop :=
  ∃ r s', createAction (plainProvider mode) plainEnv 1 plainArgs busySession = (.ok r, s')
    ∧ s'.busy = [] ∧ ⟨"parent", 0⟩ ∈ ownedInputs busySession.db.metadata 1 plainArgs
    ∧ ¬((∃ c ∈ s'.db.utxo.rows, c.outpoint = ⟨"parent", 0⟩ ∧ c.reservedBy = r.reference)
      ∧ ⟨"parent", 0⟩ ∉ r.allocated.map (·.outpoint))

theorem createAction_loses_provided : LosesInput .a ∧ LosesInput .b := by
  have hlost : ∀ mode, LosesInput mode := by
    intro mode
    obtain ⟨r, s', h, hq⟩ := busySession_creates mode
    have hmet := of_decide_eq_true hq
    refine ⟨r, s', h, hmet, by decide +kernel, fun hprop => hprop.2 ?_⟩
    exact createAction_contended (fun b hb => by cases hb)
      (fun c hc => by rw [(busySession_free c hc).1]; decide) (fun c hc _ =>
          (busySession_free c hc).2)
      h hmet List.mem_cons_self hprop.1
  exact ⟨hlost .a, hlost .b⟩

theorem createAction_holds_provided_iff_busy :
    ∃ r s', createAction (plainProvider .b) plainEnv 1 plainArgs busySession = (.ok r, s')
      ∧ ((∀ op ∈ ownedInputs busySession.db.metadata 1 plainArgs,
          (∃ c ∈ s'.db.utxo.rows, c.outpoint = op ∧ c.reservedBy = r.reference)
            ∧ op ∉ r.allocated.map (·.outpoint))
        ↔ ownedInputs busySession.db.metadata 1 plainArgs = [] ∨ true ∉ busySession.busy) := by
  obtain ⟨r, s', h, hq⟩ := busySession_creates .b
  exact ⟨r, s', h, createAction_holds_provided_iff (fun b hb => by cases hb)
    (fun c hc => by rw [(busySession_free c hc).1]; decide) (fun c hc _ =>
        (busySession_free c hc).2)
    h (of_decide_eq_true hq)⟩

end Storage

end ArcadeToolbox
