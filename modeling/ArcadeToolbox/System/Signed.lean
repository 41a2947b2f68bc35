import ArcadeToolbox.System.Cycles

/-!
# The coins of a signed transaction

When a signed transaction is stored, its change is minted from the output rows that were planned
when the action was created. The signed bytes are compared with the plan only at the outputs of the
caller, and there only by their scripts. So what is minted is in the signed transaction exactly if
the signer has kept to the plan.
-/

namespace ArcadeToolbox

open Txn Uow Storage

/-- The output of a transaction at an index has a value. -/
def Tx.pays (tx : Tx) (vout satoshis : ℕ) : Bool := tx.outputs[vout]?.any fun out =>
    out.satoshis = satoshis

/-- A change row of a user's transaction that is minted. -/
def OutputRow.mintable (u : UserID) (id : TransactionID) (o : OutputRow) : Bool :=
  o.transactionID = id && o.userID = u && o.change && o.basket.isSome

theorem mem_changeMints {u : UserID} {txid : TxID} {rows : List OutputRow} {m : Mint} :
    m ∈ changeMints u txid rows ↔ ∃ o ∈ rows, ∃ b, o.basket = some b
      ∧ { outpoint := ⟨txid, o.vout⟩, userID := u, basket := b, satoshis := o.satoshis,
          inputSize := defaultP2PKHInputSize, tier := .sending } = m := by
  simp only [changeMints, List.mem_filterMap, Option.map_eq_some_iff]

theorem upsertKnown_outputs {m : Metadata} {now : Time} (kt : NewKnownTx)
    (skip : List ProvenTxReqStatus) : (m.upsertKnown kt skip now).2.outputs = m.outputs := by
  rcases Metadata.upsertKnown_cases kt skip now m with ⟨-, h⟩ | ⟨-, -, -, ⟨-, h⟩ | ⟨-, h⟩⟩ <;>
    exact congrArg (fun x => x.2.outputs) h

namespace Storage

variable {p : Provider} {u : UserID} {args : ProcessActionArgs} {reference : Token} {txid : RawTx}
  {row : TxRow} {s s' : Session Db}

theorem mintChange_ok {id : TransactionID} (h : mintChange u id txid s = (.ok (), s')) :
    ∃ t, ∃ rows : List OutputRow,
      (∀ o, o ∈ rows ↔ o ∈ s.db.metadata.outputs ∧ o.transactionID = id ∧ o.userID = u
        ∧ o.change = true)
      ∧ (∀ e ∈ (s.db.utxo.mint t (changeMints u txid rows)).1, e = none)
      ∧ s'.db.utxo = (s.db.utxo.mint t (changeMints u txid rows)).2 := by
  obtain ⟨rows, s1, h1, h⟩ := bind_ok h
  obtain ⟨hw, rfl⟩ := metaQuery_ok h1
  have hrows : ∀ o, o ∈ s.db.metadata.outputs.select (fun o =>
      o.transactionID = id && (some u = none || some u = some o.userID) && (!true || o.change))
      ↔ o ∈ s.db.metadata.outputs ∧ o.transactionID = id ∧ o.userID = u ∧ o.change = true := by
    intro o
    rw [Table.mem_select]
    simp only [reduceCtorEq, decide_false, Bool.false_or, Bool.not_true, Bool.and_eq_true,
      decide_eq_true_eq, Option.some.injEq, @eq_comm _ u, and_assoc]
  split at h
  · rename_i hnil
    cases h
    refine ⟨s.now, _, hrows, ?_, ?_⟩
    · rw [hnil]
      intro e he
      cases he
    · rw [hnil, hw.db]
      rfl
  · obtain ⟨errs, s2, h2, h⟩ := bind_ok h
    obtain ⟨s3, hw3, ha, rfl⟩ := utxoStmt_ok h2
    obtain ⟨hno, rfl⟩ := failOn_ok h
    cases ha
    refine ⟨s3.now, _, hrows, fun e he => ?_, ?_⟩
    · rw [hw3.db, hw.db] at hno
      rcases e with _ | e
      · rfl
      · have := List.findSome?_eq_none_iff.mp hno _ he
        cases this
    · rw [hw3.db, hw.db]

theorem isSome_get_pin {inv : Inventory} {n : ℕ} (h : (inv.pin u reference).1 = .ok n)
    (op : Outpoint) :
    ((inv.pin u reference).2.get op).isSome = (inv.get op).isSome := by
  unfold Inventory.pin Inventory.setPinned at h ⊢
  split at h
  · cases h
  · rw [Inventory.get_modify, Option.isSome_map]

/-- What a commit that succeeded has minted. -/
theorem processCommit_ok (h : processCommit p u args reference txid row s = (.ok (), s')) :
    ∃ t, ∃ rows : List OutputRow, ∃ inv : Inventory,
      (∀ o, o ∈ rows ↔ o ∈ s.db.metadata.outputs ∧ o.transactionID = row.transactionID
        ∧ o.userID = u
        ∧ o.change = true)
      ∧ (∀ op, (inv.get op).isSome = (s.db.utxo.get op).isSome)
      ∧ (∀ e ∈ (inv.mint t (changeMints u txid rows)).1, e = none)
      ∧ s'.db.utxo = (inv.mint t (changeMints u txid rows)).2 := by
  obtain ⟨_, s1, h1, h⟩ := bind_ok (doUnit_ok h)
  obtain ⟨_, s2, h2, h3⟩ := bind_ok h
  obtain ⟨s0, hw, ha, rfl⟩ := utxoStmt_ok h1
  obtain ⟨-, hutxo, -, hmeta⟩ := storeSigned_ok h2
  have hout : s2.db.metadata.outputs = s.db.metadata.outputs := by
    rw [hmeta]
    simp only [MetaOp.apply, Metadata.record, Metadata.log, upsertKnown_outputs, hw.db]
    rfl
  obtain ⟨t, rows, hrows, herrs, hs'⟩ := mintChange_ok h3
  rw [hout] at hrows
  rw [hutxo] at herrs hs'
  refine ⟨t, rows, _, hrows, fun op => ?_, herrs, hs'⟩
  rcases hpin : (s0.db.utxo.pin u reference).1 with e | n
  · simp [liftUtxo, hpin] at ha
  · rw [← hw.db]
    exact isSome_get_pin hpin op

/-- When a signed transaction is stored, every coin that is new in the inventory names an output of
the transaction and has its value, exactly if the signed transaction has each change output that was
planned and is not minted yet, with the planned value. -/
theorem minted_change_agrees_iff (p : Provider) (u : UserID) (args : ProcessActionArgs)
    (reference : Token) (txid : RawTx) (row : TxRow) (s s' : Session Db)
    (h : processCommit p u args reference txid row s = (.ok (), s')) :
    (∀ r ∈ s'.db.utxo.rows, s.db.utxo.get r.outpoint = none →
      r.outpoint.txid = txid ∧ (p.ledger txid).pays r.outpoint.vout r.satoshis = true)
    ↔ ∀ o ∈ s.db.metadata.outputs, o.mintable u row.transactionID = true →
      s.db.utxo.get ⟨txid, o.vout⟩ = none → (p.ledger txid).pays o.vout o.satoshis = true := by
  obtain ⟨t, rows, inv, hrows, hsame, herrs, hutxo⟩ := processCommit_ok h
  rw [hutxo]
  constructor
  · intro hagree o ho hm hnone
    simp only [OutputRow.mintable, Bool.and_eq_true, decide_eq_true_eq] at hm
    obtain ⟨⟨⟨hid, hu⟩, hc⟩, hb⟩ := hm
    obtain ⟨b, hb⟩ := Option.isSome_iff_exists.mp hb
    obtain ⟨r, hr, hsat⟩ := Inventory.satoshis_mint herrs _
      (mem_changeMints.mpr ⟨o, (hrows o).mpr ⟨ho, hid, hu, hc⟩, b, hb, rfl⟩)
    obtain ⟨hmem, hop⟩ := Inventory.get_eq_some.mp hr
    have := (hagree r hmem (by rw [hop]; exact hnone)).2
    rwa [hop, hsat] at this
  · intro hplan r hr hnone
    -- a coin that was not there comes from one of the items
    have hget : (inv.mint t (changeMints u txid rows)).2.get r.outpoint = some r :=
      Inventory.get_eq_some.mpr ⟨hr, rfl⟩
    have hex : ∃ m ∈ changeMints u txid rows, m.outpoint = r.outpoint := by
      by_contra hno
      rw [Inventory.get_mint_of_ne fun m hm hop => hno ⟨m, hm, hop⟩] at hget
      have := hsame r.outpoint
      rw [hget, hnone] at this
      cases this
    obtain ⟨m, hm, hop⟩ := hex
    obtain ⟨r', hr', hsat⟩ := Inventory.satoshis_mint herrs m hm
    rw [hop, hget] at hr'
    cases hr'
    obtain ⟨o, ho, b, hb, rfl⟩ := mem_changeMints.mp hm
    obtain ⟨ho, hid, hu, hc⟩ := (hrows o).mp ho
    have hop : (⟨txid, o.vout⟩ : Outpoint) = r.outpoint := hop
    rw [← hop] at hnone ⊢
    rw [hsat]
    exact ⟨rfl, hplan o ho (by simp [OutputRow.mintable, hid, hu, hc, hb]) hnone⟩

/-- The bytes that are signed have the output of the caller alone. -/
def shortProvider (mode : Mode) : Provider :=
  { plainProvider mode with
    ledger := fun t => if t = "short" then ⟨[⟨"parent", 0⟩], [⟨1000, some "script"⟩], 150⟩
        else paidLedger t }

/-- The action is created as planned, and the short bytes are signed for it, up to the commit. -/
def shortSteps : List Step :=
  paidSteps ++ createSteps
    ++ [.spawn (.processAction 1 ⟨true, false, true, some "ref", some "short", some "short", []⟩)]
    ++ signSteps 2

theorem minted_change_not_signed :
    (∃ k ∈ ((wallet (shortProvider .a)).runs System.initial
      shortSteps).shared.db.metadata.knownTxs.rows,
      k.txid = "short" ∧ k.rawTx = some "short")
    ∧ ((wallet (shortProvider .a)).runs System.initial shortSteps.dropLast).shared.db.utxo.get
      ⟨"short", 1⟩
      = none
    ∧ (∃ r ∈ ((wallet (shortProvider .a)).runs System.initial shortSteps).shared.db.utxo.rows.rows,
      r.outpoint = ⟨"short", 1⟩ ∧ r.satoshis = 3999 ∧ r.claimable = true)
    ∧ ((shortProvider .a).ledger "short").outputs.length = 1 := by
  decide +kernel

/-- The action as it is found when the planned bytes are stored. -/
def plannedRow : TxRow := ⟨2, 1, .unsigned, "ref", true, -1001, none, 0⟩

def plannedSession : Session Db :=
  let s := ((wallet (paidProvider .a)).runs System.initial (paidSteps ++ createSteps)).shared
  ⟨s.db, s.now, [], []⟩

theorem minted_change_agrees_planned :
    ∃ s', processCommit (paidProvider .a) 1 ⟨true, false, true, some "ref", some "child",
      some "child", []⟩
        "ref" "child" plannedRow plannedSession = (.ok (), s')
      ∧ ∀ r ∈ s'.db.utxo.rows, plannedSession.db.utxo.get r.outpoint = none →
        r.outpoint.txid = "child"
        ∧ ((paidProvider .a).ledger "child").pays r.outpoint.vout r.satoshis = true := by
  obtain ⟨_, s', h, -⟩ := exists_of_check (q := fun _ _ => true)
    (r := processCommit (paidProvider .a) 1
      ⟨true, false, true, some "ref", some "child", some "child", []⟩ "ref" "child" plannedRow
          plannedSession)
    (by decide +kernel)
  have hplan : ∀ o ∈ plannedSession.db.metadata.outputs.rows,
      o.mintable 1 plannedRow.transactionID = true → plannedSession.db.utxo.get ⟨"child",
          o.vout⟩ = none →
      ((paidProvider .a).ledger "child").pays o.vout o.satoshis = true := by
    decide +kernel
  exact ⟨s', h, (minted_change_agrees_iff _ _ _ _ _ _ _ _ h).mpr hplan⟩

end Storage

end ArcadeToolbox
