import ArcadeToolbox.Storage.CreateHolds
import ArcadeToolbox.Utxostore.Rows

/-!
# Committing an accepted broadcast

The spend of the inputs is recorded first, as a fact: a coin that is spent already by the same
transaction counts as recorded, one that is not in the inventory is skipped, and anything else stops
the commit before a status moves. In Mode B the recorded spends stay when the unit fails, and a
second try ends where one uninterrupted run ends.
-/

namespace ArcadeToolbox

open Txn Uow

namespace Inventory

variable {s : Inventory} {op : Outpoint} {t : TxID} {e : Option UtxoErr} {sp : SpendOp}

/-- The store has an answer `e` for the spend of `op` by `t`, and giving it again changes
nothing. -/
def Resolved (t : TxID) (s : Inventory) (op : Outpoint) (e : Option UtxoErr) : Prop :=
  match s.get op with
  | none => e = some (.notFound op)
  | some r => ∃ w, r.spentBy = some w ∧ e = if w = t then none else some (.spent op w)

theorem resolved_none : s.get op = none → (Resolved t s op e ↔ e = some (.notFound op)) := by
  intro h
  simp [Resolved, h]

theorem resolved_some {r : Row} (h : s.get op = some r) :
    Resolved t s op e ↔ ∃ w, r.spentBy = some w ∧ e = if w = t then none else some
      (.spent op w) := by
  simp [Resolved, h]

/-- The row of an outpoint after a spend of one coin. -/
theorem get_spent (s : Inventory) (op op' : Outpoint) (t : TxID) :
    (s.modify (fun r => r.outpoint = op) (fun r => { r with spentBy := some t, pinned := false })
      fun _ => rfl).get op'
    = (s.get op').map fun r => if r.outpoint = op then { r with spentBy := some t, pinned := false }
        else r := by
  unfold get modify
  rw [Table.get?_update]
  simp only [decide_eq_true_eq]

theorem spendOne_of_resolved (hr : sp.reservation ≠ "")
    (h : Resolved sp.spendingTxID s sp.outpoint e) : spendOne sp true s = (e, s) := by
  have hv : validateSpend sp = none := if_neg hr
  rcases hg : s.get sp.outpoint with _ | r
  · rw [(resolved_none hg).mp h]
    simp [spendOne, hv, hg]
  · obtain ⟨w, hw, rfl⟩ := (resolved_some hg).mp h
    simp [spendOne, hv, hg, hw]

theorem resolved_spendOne (s : Inventory) (hr : sp.reservation ≠ "") :
    Resolved sp.spendingTxID (spendOne sp true s).2 sp.outpoint (spendOne sp true s).1 := by
  have hv : validateSpend sp = none := if_neg hr
  rcases hg : s.get sp.outpoint with _ | r
  · have he : spendOne sp true s = (some (.notFound sp.outpoint), s) := by simp [spendOne, hv, hg]
    rw [he]
    exact (resolved_none hg).mpr rfl
  · have hkey : r.outpoint = sp.outpoint := (Table.get?_eq_some.mp hg).2
    rcases hs : r.spentBy with _ | w
    · have he : spendOne sp true s = (none, s.modify (fun r => r.outpoint = sp.outpoint)
          (fun r => { r with spentBy := some sp.spendingTxID, pinned := false }) fun _ => rfl) := by
        simp [spendOne, hv, hg, hs]
      rw [he]
      refine (resolved_some (r := { r with spentBy := some sp.spendingTxID,
                                           pinned := false }) ?_).mpr
        ⟨sp.spendingTxID, rfl, (if_pos rfl).symm⟩
      rw [get_spent, hg, Option.map_some, if_pos hkey]
    · have he : spendOne sp true s
          = (if w = sp.spendingTxID then none else some (.spent sp.outpoint w), s) := by
        simp [spendOne, hv, hg, hs]
      rw [he]
      exact (resolved_some hg).mpr ⟨w, hs, rfl⟩

theorem get_spend_of_ne :
    ∀ (sps : List SpendOp) {s : Inventory}, (∀ sp ∈ sps, sp.outpoint ≠ op) →
      (spend true sps s).2.get op = s.get op
  | [], _, _ => rfl
  | sp :: sps, s, h => by
    obtain ⟨hsp, hsps⟩ := List.forall_mem_cons.mp h
    refine (get_spend_of_ne sps hsps).trans ?_
    change (spendOne sp true s).2.get op = s.get op
    rcases spendOne_cases sp true s with he | ⟨-, he⟩ <;> rw [he]
    rw [get_spent]
    rcases hg : s.get op with _ | r
    · rfl
    · have hop : r.outpoint = op := (Table.get?_eq_some.mp hg).2
      rw [Option.map_some, if_neg fun h => hsp (h.symm.trans hop)]

/-- A resolved coin is absent or spent, and no spend changes that. -/
theorem Resolved.spendOne (h : Resolved t s op e) (sp : SpendOp) :
    Resolved t (spendOne sp true s).2 op e := by
  rcases spendOne_cases sp true s with he | ⟨⟨r, hg, hs⟩, he⟩ <;> rw [he]
  · exact h
  rcases hg' : s.get op with _ | r'
  · rw [(resolved_none hg').mp h]
    refine (resolved_none ?_).mpr rfl
    rw [get_spent, hg', Option.map_none]
  · obtain ⟨w, hw, rfl⟩ := (resolved_some hg').mp h
    have hne : r'.outpoint ≠ sp.outpoint := by
      intro hkey
      have hop : op = sp.outpoint := (Table.get?_eq_some.mp hg').2.symm.trans hkey
      rw [hop, hg] at hg'
      cases hg'
      rw [hs] at hw
      cases hw
    refine (resolved_some (r := r') ?_).mpr ⟨w, hw, rfl⟩
    rw [get_spent, hg', Option.map_some, if_neg hne]

theorem Resolved.spend (h : Resolved t s op e) :
    ∀ sps : List SpendOp, Resolved t (spend true sps s).2 op e := by
  intro sps
  induction sps generalizing s with
  | nil => exact h
  | cons sp sps ih => exact ih (h.spendOne sp)

variable {sps : List SpendOp}

theorem resolved_spend (hr : ∀ sp ∈ sps, sp.reservation ≠ "" ∧ sp.spendingTxID = t) :
    List.Forall₂ (fun sp e => Resolved t (spend true sps s).2 sp.outpoint e) sps
      (spend true sps s).1 := by
  induction sps generalizing s with
  | nil => exact .nil
  | cons sp sps ih =>
    obtain ⟨⟨hsp, rfl⟩, hsps⟩ := List.forall_mem_cons.mp hr
    exact .cons ((resolved_spendOne s hsp).spend sps) (ih hsps)

theorem spend_of_resolved {es : List (Option UtxoErr)}
    (hr : ∀ sp ∈ sps, sp.reservation ≠ "" ∧ sp.spendingTxID = t)
    (h : List.Forall₂ (fun sp e => Resolved t s sp.outpoint e) sps es) :
    spend true sps s = (es, s) := by
  induction h with
  | nil => rfl
  | cons h _ ih =>
    obtain ⟨⟨hsp, rfl⟩, hsps⟩ := List.forall_mem_cons.mp hr
    simp only [Inventory.spend, spendOne_of_resolved hsp h, ih hsps]

theorem resolved_of_mem {es : List (Option UtxoErr)}
    (h : List.Forall₂ (fun sp e => Resolved t s sp.outpoint e) sps es) (hsp : sp ∈ sps) :
    ∃ e ∈ es, Resolved t s sp.outpoint e := by
  induction h with
  | nil => cases hsp
  | cons h _ ih =>
    rcases List.mem_cons.mp hsp with rfl | hsp
    · exact ⟨_, List.mem_cons_self, h⟩
    · obtain ⟨e, he, hr⟩ := ih hsp
      exact ⟨e, List.mem_cons_of_mem _ he, hr⟩

theorem spend_spend (hr : ∀ sp ∈ sps, sp.reservation ≠ "" ∧ sp.spendingTxID = t)
    (s : Inventory) : spend true sps (spend true sps s).2 = spend true sps s :=
  spend_of_resolved hr (resolved_spend hr)

end Inventory

namespace Storage

variable (p : Provider)

/-- The two steps of `applyAcceptedBroadcast`, one after the other. -/
def acceptBroadcast (txid : TxID) (rawTx : RawTx) : Work Unit := do
  applyAcceptedBroadcast p txid rawTx (← acceptedRow txid)

/-- What is recorded as spent. -/
def acceptedSpends (txid : TxID) (rawTx : RawTx) (reference : Token) : List SpendOp :=
  (p.ledger rawTx).inputs.map fun o => ⟨o, reference, txid⟩

variable {p} {txid : TxID} {rawTx : RawTx} {row : TxRow} {reference : Token} {s s' : Session Db}

theorem acceptedSpends_own (h : reference ≠ "") :
    ∀ sp ∈ acceptedSpends p txid rawTx reference, sp.reservation ≠ "" ∧ sp.spendingTxID = txid := by
  intro sp hsp
  obtain ⟨o, -, rfl⟩ := List.mem_map.mp hsp
  exact ⟨h, rfl⟩

/-- Nothing but the metadata moves. -/
def SameStock (s s' : Session Db) : Prop := s'.db.utxo = s.db.utxo ∧ s'.db.removals = s.db.removals

instance : IsPreorder (Session Db) SameStock where
  refl _ := ⟨rfl, rfl⟩
  trans _ _ _ h h' := ⟨h'.1.trans h.1, h'.2.trans h.2⟩

theorem sameStock_waits {s s' : Session Db} (h : Waits s s') : SameStock s s' := by
  unfold SameStock
  rw [h.db]
  exact ⟨rfl, rfl⟩

theorem sameStock_metaStmt {α : Type} (f : Time → Metadata → Except Err α × Metadata) :
    Moves SameStock (metaStmt f) :=
  moves_stmt (fun _ _ => sameStock_waits) _ fun _ => ⟨rfl, rfl⟩

theorem sameStock_metaQuery {α : Type} (f : Metadata → α) : Moves SameStock (metaQuery f) :=
  moves_query (fun _ _ => sameStock_waits) _ _

theorem sameStock_markInputsSpent (u : UserID) (id : TransactionID) :
    Moves SameStock (markInputsSpent p u id rawTx) := by
  unfold markInputsSpent
  split
  · exact moves_pure _
  · refine moves_bind (sameStock_metaQuery _) fun rows => ?_
    dsimp only
    split
    · exact moves_pure _
    · exact sameStock_metaStmt _

/-- The inputs are recorded as spent, the rest of the inventory is as it was. -/
theorem spendReservedInputs_ok {a : Unit}
    (h : spendReservedInputs p txid rawTx reference s = (.ok a, s')) :
    s'.db = { s.db with
      utxo := (s.db.utxo.spend true (acceptedSpends p txid rawTx reference)).2 }
    ∧ ∀ op ∈ (p.ledger rawTx).inputs, ∀ r ∈ s'.db.utxo.rows, r.outpoint = op →
        r.spentBy = some txid := by
  obtain ⟨href, h⟩ := bind_require_ok h
  have href : reference ≠ "" := of_decide_eq_true href
  split at h
  · rename_i hin
    cases h
    simp [acceptedSpends, hin, Inventory.spend]
  · obtain ⟨errs, s1, h1, h⟩ := bind_ok h
    obtain ⟨hnone, rfl⟩ := failOn_ok h
    obtain ⟨s2, hw, ha, rfl⟩ := utxoStmt_ok h1
    obtain rfl := Except.ok.inj ha
    rw [← hw.db]
    refine ⟨rfl, fun op hop r hr hrop => ?_⟩
    have hown := @acceptedSpends_own p txid rawTx reference href
    obtain ⟨e, he, hres⟩ := Inventory.resolved_of_mem (Inventory.resolved_spend hown)
      (List.mem_map.mpr ⟨op, hop, rfl⟩)
    have hget : (s2.db.utxo.spend true (acceptedSpends p txid rawTx reference)).2.get op = some r :=
      Table.get?_eq_some.mpr ⟨hr, hrop⟩
    obtain ⟨w, hwr, hew⟩ := (Inventory.resolved_some hget).mp hres
    split at hew
    · rename_i hwt
      rw [hwr, hwt]
    · -- a coin that another transaction spent is an answer the commit does not pass over
      have := List.find?_eq_none.mp hnone _ (List.mem_filterMap.mpr ⟨e, he, hew⟩)
      simp [UtxoErr.isNotFound] at this

theorem acceptedRow_waits : Moves Waits (acceptedRow txid) :=
  moves_bind (moves_query (fun _ _ h => h) _ _) fun _ => moves_orThrow _ _

theorem acceptBroadcast_ok {a : Unit} (h : acceptBroadcast p txid rawTx s = (.ok a, s')) :
    ∀ op ∈ (p.ledger rawTx).inputs, ∀ r ∈ s'.db.utxo.rows, r.outpoint = op →
      r.spentBy = some txid := by
  obtain ⟨row, s1, -, h⟩ := bind_ok h
  obtain ⟨_, s2, hspend, h⟩ := bind_ok (doUnit_ok h)
  have hrest : SameStock s2 s' := by
    refine Moves.run (moves_bind (moves_tolerate _ (sameStock_metaStmt _)) fun _ => ?_) h
    exact moves_bind (moves_tolerate _ (sameStock_metaStmt _)) fun _ =>
        sameStock_markInputsSpent _ _
  intro op hop r hr
  rw [hrest.1] at hr
  exact (spendReservedInputs_ok hspend).2 op hop r hr

theorem acceptBroadcast_error {e : Err} (h : acceptBroadcast p txid rawTx s = (.error e, s')) :
    s'.db.metadata = s.db.metadata := by
  unfold acceptBroadcast at h
  rw [bind_apply] at h
  rcases hx : acceptedRow txid s with ⟨e' | row, s1⟩ <;> rw [hx] at h
  · cases h
    rw [(acceptedRow_waits.run hx).db]
  · rw [metadata_of_doUnit_error h, (acceptedRow_waits.run hx).db]

theorem spendReservedInputs_left {r : Except Err Unit}
    (h : spendReservedInputs p txid rawTx reference s = (r, s')) :
    s'.db = s.db ∨ (reference ≠ ""
      ∧ s'.db = { s.db with
          utxo := (s.db.utxo.spend true (acceptedSpends p txid rawTx reference)).2 }) := by
  unfold spendReservedInputs require at h
  split at h
  · rename_i href
    rw [bind_apply] at h
    simp only [pure_apply] at h
    split at h
    · cases h
      exact Or.inl rfl
    · rw [bind_apply] at h
      rcases hx : UtxoStore.spend ((p.ledger rawTx).inputs.map fun o => ⟨o, reference, txid⟩) true s
        with ⟨e | errs, s1⟩ <;> rw [hx] at h
      · cases h
        unfold UtxoStore.spend utxoStmt at hx
        rcases stmt_run hx with ⟨-, hw⟩ | ⟨s2, hw, ha, -⟩
        · exact Or.inl hw.db
        · cases ha
      · obtain ⟨s2, hw, ha, rfl⟩ := utxoStmt_ok hx
        have hend := (moves_failOn (R := Waits) _).run h
        rw [hend.db, ← hw.db]
        exact Or.inr ⟨of_decide_eq_true href, rfl⟩
  · cases h
    exact Or.inl rfl

/-- The row the accepted broadcast is charged to. -/
def acceptedRowOf (txid : TxID) (m : Metadata) : Option TxRow :=
  let rows := (m.transactions.select fun r => r.txid = some txid).reverse
  (rows.find? (·.isOutgoing)).or rows.head?

theorem acceptedRow_ok (h : acceptedRow txid s = (.ok row, s')) :
    acceptedRowOf txid s.db.metadata = some row := by
  obtain ⟨rows, s1, h1, h⟩ := bind_ok h
  obtain ⟨-, rfl⟩ := metaQuery_ok h1
  exact (orThrow_ok h).1

theorem acceptedRow_calm (d : Db) (now : Time) (h : acceptedRowOf txid d.metadata = some row) :
    acceptedRow txid ⟨d, now, [], []⟩ = (.ok row, ⟨d, now, [], []⟩) := by
  change orThrow (acceptedRowOf txid d.metadata) _ _ = _
  rw [h]
  rfl

/-- The part of the commit after the spends. -/
theorem sameStock_acceptStatuses (u : UserID) (id : TransactionID) : Moves SameStock (do
    tolerate [.skipped] (TransactionsRepo.updateStatusByTxID txid .unproven
      [.sending, .nosend, .unproven, .unprocessed])
    tolerate [.skipped, .notFound] (KnownTxRepo.updateStatus txid .unconfirmed
      ProvenTxReqStatus.beyondBroadcastStage)
    markInputsSpent p u id rawTx : Work Unit) :=
  moves_bind (moves_tolerate _ (sameStock_metaStmt _)) fun _ =>
    moves_bind (moves_tolerate _ (sameStock_metaStmt _)) fun _ => sameStock_markInputsSpent u id

theorem doUnit_b_error_db {α : Type} {x : Work α} {e : Err} (h : doUnit .b x s = (.error e, s')) :
    ∃ s1, x s = (.error e, s1) ∧ s'.db = { s.db with utxo := s1.db.utxo,
                                                     removals := s1.db.removals } := by
  unfold doUnit atomically at h
  rcases hx : x s with ⟨e' | b, s1⟩ <;> rw [hx] at h <;> cases h
  exact ⟨s1, rfl, rfl⟩

/-- In Mode B a commit that fails leaves everything as it was, or the spends recorded. -/
theorem acceptBroadcast_left (hp : p.mode = .b) {e : Err}
    (h : acceptBroadcast p txid rawTx s = (.error e, s')) :
    s'.db = s.db ∨ ∃ row, acceptedRowOf txid s.db.metadata = some row ∧ row.reference ≠ ""
      ∧ s'.db = { s.db with
          utxo := (s.db.utxo.spend true (acceptedSpends p txid rawTx row.reference)).2 } := by
  unfold acceptBroadcast at h
  rw [bind_apply] at h
  rcases hx : acceptedRow txid s with ⟨e' | row, s1⟩ <;> rw [hx] at h
  · cases h
    exact Or.inl (acceptedRow_waits.run hx).db
  · have hdb := (acceptedRow_waits.run hx).db
    unfold applyAcceptedBroadcast at h
    rw [hp] at h
    obtain ⟨s2, hbody, hend⟩ := doUnit_b_error_db h
    rw [bind_apply] at hbody
    rcases hsp : spendReservedInputs p txid rawTx row.reference s1 with ⟨r, s3⟩
    have hstock : SameStock s3 s2 := by
      rw [hsp] at hbody
      rcases r with e' | _
      · cases hbody
        exact refl_of SameStock _
      · exact (sameStock_acceptStatuses row.userID row.transactionID).run hbody
    rw [hend, hstock.1, hstock.2]
    rcases spendReservedInputs_left hsp with hs | ⟨href, hs⟩ <;> rw [hs, hdb]
    · exact Or.inl rfl
    · exact Or.inr ⟨row, acceptedRow_ok hx, href, rfl⟩

theorem spendReservedInputs_calm (href : reference ≠ "") (d : Db) (now : Time) :
    spendReservedInputs p txid rawTx reference ⟨d, now, [], []⟩
      = failOn (((d.utxo.spend true (acceptedSpends p txid rawTx reference)).1.filterMap id).find?
          fun e => !e.isNotFound)
        ⟨{ d with utxo := (d.utxo.spend true (acceptedSpends p txid rawTx reference)).2 },
          now, [], []⟩ := by
  unfold spendReservedInputs require
  rw [if_pos (by simpa using href)]
  by_cases hin : (p.ledger rawTx).inputs = []
  · simp [acceptedSpends, hin, Inventory.spend, failOn]
  · rw [if_neg hin]
    rfl

theorem acceptBroadcast_again (hp : p.mode = .b) (d : Db) (now : Time)
    (hrow : acceptedRowOf txid d.metadata = some row) (href : row.reference ≠ "") :
    acceptBroadcast p txid rawTx ⟨{ d with
        utxo := (d.utxo.spend true (acceptedSpends p txid rawTx row.reference)).2 }, now, [], []⟩
      = acceptBroadcast p txid rawTx ⟨d, now, [], []⟩ := by
  have hspend : spendReservedInputs p txid rawTx row.reference ⟨{ d with
        utxo := (d.utxo.spend true (acceptedSpends p txid rawTx row.reference)).2 }, now, [], []⟩
      = spendReservedInputs p txid rawTx row.reference ⟨d, now, [], []⟩ := by
    rw [spendReservedInputs_calm href, spendReservedInputs_calm href,
      Inventory.spend_spend (@acceptedSpends_own p txid rawTx row.reference href)]
  unfold acceptBroadcast
  rw [bind_apply, bind_apply, acceptedRow_calm d now hrow,
    acceptedRow_calm { d with
      utxo := (d.utxo.spend true (acceptedSpends p txid rawTx row.reference)).2 } now hrow]
  dsimp only
  unfold applyAcceptedBroadcast doUnit atomically
  rw [hp, bind_apply, bind_apply, hspend]
  -- the rollback takes only the metadata from before, and that is the same
  rcases spendReservedInputs p txid rawTx row.reference ⟨d, now, [], []⟩ with ⟨e | _, s1⟩
  · rfl
  · dsimp only
    split <;> rfl

/-- One coin, and the transaction that spends it on its way to the network. -/
def sendingDb : Db :=
  { metadata := { Metadata.empty with
      transactions := Table.insert ∅ ⟨1, 1, .sending, "ref", true, 0, some "child", 0⟩
      knownTxs := Table.insert ∅ ⟨"child", .sending, none, false, some "child", none,
          [], none, none,
        none, 0, 0, 0⟩ }
    utxo := ⟨Table.insert ∅ ⟨⟨⟨"parent", 0⟩, 1, "change", 5000, 107, .mined, "ref", 0,
        none, false, true,
      0⟩, 1⟩, 1⟩
    removals := [] }

def sendingProvider : Provider :=
  { plainProvider .b with ledger := fun _ => ⟨[⟨"parent", 0⟩], [⟨4999, none⟩], 200⟩ }

end Storage

end ArcadeToolbox
