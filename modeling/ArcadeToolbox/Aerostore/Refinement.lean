import ArcadeToolbox.Aerostore.Candidates
import ArcadeToolbox.Aerostore.Coherence
import ArcadeToolbox.Utxostore.OneByOne

/-!
# The Aerospike inventory refines the reference store

Read as coins, the records are the rows of the reference store. A method that nobody interferes with
wins every guard the first time, and what it does to the records is what the reference store's
method does to the rows. So no method reports contention, and the answers are the same.
-/

namespace ArcadeToolbox.Aerostore

open Txn Prog

/-- The record and the row are of one coin in one state, and the derived bins of the record are as
they should be. The worth of an outpoint is the value that it is minted with. -/
structure Same (worth : Outpoint → ℕ) (r : Record) (row : Row) : Prop where
  utxo : recordToUTXO r = row.toUtxo
  coherent : r.Coherent
  token : r.resBy ≠ some ""
  worth : r.sats = worth r.outpoint

namespace Same

variable {worth : Outpoint → ℕ} {r : Record} {row : Row}

theorem outpoint (h : Same worth r row) : r.outpoint = row.outpoint := congrArg Utxo.outpoint h.utxo

theorem userID (h : Same worth r row) : r.userID = row.userID := congrArg Utxo.userID h.utxo

theorem reservedBy (h : Same worth r row) : r.resBy.getD "" = row.reservedBy :=
  congrArg Utxo.reservedBy h.utxo

theorem spentBy (h : Same worth r row) : r.spentBy = row.spentBy := congrArg Utxo.spentBy h.utxo

theorem frozen (h : Same worth r row) : r.frozen = row.frozen := congrArg Utxo.frozen h.utxo

theorem pinned (h : Same worth r row) : r.pinned = row.pinned := congrArg Utxo.pinned h.utxo

theorem resBy_eq_none (h : Same worth r row) : r.resBy = none ↔ row.reservedBy = "" := by
  rw [← h.reservedBy]
  rcases hr : r.resBy with _ | token
  · simp
  · have := h.token
    rw [hr] at this
    simpa using this

theorem resBy_eq_some (h : Same worth r row) {token : Token} (ht : token ≠ "") :
    r.resBy = some token ↔ row.reservedBy = token := by
  rw [← h.reservedBy]
  rcases hr : r.resBy with _ | token'
  · simpa using ht.symm
  · simp

/-- The record after an operation that does to it what is done to the row. -/
theorem effect (h : Same worth r row) {w : RecordOp} (hg : w.guard r = true)
    (hw : ∀ u ∈ w.snapshot, SameCoin u r) (ht : (w.effect r).resBy ≠ some "") {row' : Row}
    (hu : recordToUTXO (w.effect r) = row'.toUtxo) : Same worth (w.effect r) row' :=
  ⟨hu, h.coherent.effect w hg hw, ht, by
      rw [(w.effect_identity r).2.2, w.effect_outpoint]; exact h.worth⟩

end Same

/-- Where the row meets the condition the guard of the operation holds, and the operation does to
the record what `f` does to the row. -/
def Mirrors (worth : Outpoint → ℕ) (r : Record) (w : RecordOp) (q : Row → Bool)
    (f : Row → Row) : Prop :=
  ∀ row, Same worth r row → w.guard r = q row ∧ (w.guard r = true → Same worth (w.effect r) (f row))

section Mirrors

variable {worth : Outpoint → ℕ} {r : Record}

theorem mirrors_unspend (t : TxID) :
    Mirrors worth r (.unspend t (recordToUTXO r))
      (fun row => row.spentBy = some t) Inventory.unspent := by
  intro row h
  refine ⟨by simp only [RecordOp.guard, h.spentBy], fun hg => h.effect hg (fun u hu => ?_)
    (by simp [RecordOp.effect]) ?_⟩
  · cases hu
    exact sameCoin_recordToUTXO r
  · change { recordToUTXO r with spentBy := none, reservedBy := "", reservedAt := 0,
                                 pinned := false } = _
    rw [h.utxo]
    rfl

theorem mirrors_promote {target : Tier} (ht : r.tier ≠ target) :
    Mirrors worth r (.promote (recordToUTXO r) target)
    (fun row => row.tier ≠ target) fun row => { row with tier := target } := by
  intro row h
  refine ⟨?_, fun hg => h.effect hg (fun u hu => ?_) h.token ?_⟩
  · rw [show r.tier = row.tier from congrArg Utxo.tier h.utxo] at ht
    exact (decide_eq_true ht).symm
  · cases hu
    exact sameCoin_recordToUTXO r
  · change { recordToUTXO r with tier := target } = _
    rw [h.utxo]

theorem mirrors_freeze : Mirrors worth r .freeze (fun _ => true) fun row =>
    { row with frozen := true } := by
  intro row h
  refine ⟨rfl, fun hg => h.effect hg (fun u hu => by cases hu) h.token ?_⟩
  change { recordToUTXO r with frozen := true } = _
  rw [h.utxo]

theorem mirrors_unfreeze :
    Mirrors worth r (.unfreeze (recordToUTXO r)) (fun _ => true) fun row =>
      { row with frozen := false } := by
  intro row h
  refine ⟨rfl, fun hg => h.effect hg (fun u hu => ?_) h.token ?_⟩
  · cases hu
    exact sameCoin_recordToUTXO r
  · change { recordToUTXO r with frozen := false } = _
    rw [h.utxo]

/-- The snapshot may be older than the record. -/
theorem mirrors_release {u : Utxo} (hu : SameCoin u r) {reservation : Token}
    (hR : reservation ≠ "") :
    Mirrors worth r (.release u reservation true)
      (fun row => row.reservedBy = reservation && row.spentBy = none)
      Inventory.released := by
  intro row h
  refine ⟨?_, fun hg => h.effect hg (fun u' hu' => by cases hu'; exact hu)
      (by simp [RecordOp.effect]) ?_⟩
  · simp only [RecordOp.guard, Bool.true_or, Bool.and_true, h.resBy_eq_some hR, h.spentBy]
    cases row.spentBy <;> rfl
  · change { recordToUTXO r with reservedBy := "", reservedAt := 0,
                                 pinned := r.pinned && !true } = _
    rw [h.utxo, Bool.not_true, Bool.and_false]
    rfl

theorem mirrors_setPinned {reservation : Token} (hR : reservation ≠ "") (pinned : Bool) :
    Mirrors worth r (.setPinned reservation pinned)
      (fun row => row.reservedBy = reservation && row.spentBy = none && row.pinned ≠ pinned)
      fun row => { row with pinned := pinned } := by
  intro row h
  refine ⟨?_, fun hg => h.effect hg (fun u hu => by cases hu) h.token ?_⟩
  · simp only [RecordOp.guard, h.resBy_eq_some hR, h.spentBy, h.pinned]
    cases row.spentBy <;> rfl
  · change { recordToUTXO r with pinned := pinned } = _
    rw [h.utxo]

/-- Whether the coin can be spent by this spend. A coin it has already spent, it can. -/
def spendable (sp : SpendOp) (force : Bool) (row : Row) : Bool :=
  if force then row.spentBy.isNone || row.spentBy = some sp.spendingTxID
  else row.reservedBy = sp.reservation && row.spentBy.isNone && !row.frozen

def spent (sp : SpendOp) (row : Row) : Row :=
  { row with spentBy := some sp.spendingTxID, pinned := false }

theorem spent_outpoint (sp : SpendOp) (row : Row) : (spent sp row).outpoint = row.outpoint := rfl

theorem mirrors_spend {sp : SpendOp} (hR : sp.reservation ≠ "") (force : Bool) :
    Mirrors worth r (.spend sp force) (spendable sp force) (spent sp) := by
  intro row h
  refine ⟨?_, fun hg => h.effect hg (fun u hu => by cases hu) h.token ?_⟩
  · simp only [RecordOp.guard, spendable, h.resBy_eq_some hR, h.spentBy, h.frozen]
  · change { recordToUTXO r with spentBy := some sp.spendingTxID, pinned := false } = _
    rw [h.utxo]
    rfl

end Mirrors

/-- A candidate may have been removed and minted again since it was probed, but it is worth what it
was. -/
def Candidate (worth : Outpoint → ℕ) (_claimKey : String) (c : Record) : Prop :=
  c.sats = worth c.outpoint

/-- The records are the rows, and what the cache hands out is theirs. -/
structure Refines (worth : Outpoint → ℕ) (b : Backend) (s : Inventory) : Prop where
  rows : Table.Related (Same worth) b.server s.rows
  ready : b.Ready (Candidate worth)

namespace Refines

variable {worth : Outpoint → ℕ} {b : Backend} {s : Inventory} {op : Outpoint}

theorem key_eq (r : Record) (row : Row) (h : Same worth r row) : key r = key row := h.outpoint

theorem get_none (h : Refines worth b s) (hn : b.server.get? op = none) : s.get op = none :=
  h.rows.get?_none key_eq hn

theorem get_some (h : Refines worth b s) {r : Record} (hr : b.server.get? op = some r) :
    ∃ row, s.get op = some row ∧ Same worth r row := h.rows.get?_left key_eq hr

theorem get_row (h : Refines worth b s) {row : Row} (hrow : s.get op = some row) :
    ∃ r, b.server.get? op = some r ∧ Same worth r row := by
  rcases hr : b.server.get? op with _ | r
  · rw [h.get_none hr] at hrow
    cases hrow
  · obtain ⟨row', hrow', hs⟩ := h.get_some hr
    obtain rfl := Option.some.inj (hrow.symm.trans hrow')
    exact ⟨r, rfl, hs⟩

theorem with_server (h : Refines worth b s) {server : Server} {s' : Inventory}
    (hrows : Table.Related (Same worth) server s'.rows) :
    Refines worth { b with server := server } s' :=
  ⟨hrows, h.ready.sourced, h.ready.idle, h.ready.fresh⟩

/-- The record of an outpoint and its row are the only ones there. -/
theorem pair_eq {r : Record} {row : Row} (hr : b.server.get? op = some r)
    (hrow : s.get op = some row) {r' : Record} (hr' : r' ∈ b.server) {row' : Row}
    (hrow' : row' ∈ s.rows)
    (hs : Same worth r' row') : r'.outpoint = op → r' = r ∧ row' = row := by
  intro he
  obtain ⟨hmem, hop⟩ := Table.get?_eq_some.mp hr
  obtain ⟨hmem', hop'⟩ := Inventory.get_eq_some.mp hrow
  exact ⟨Table.eq_of_key hr' hmem (he.trans hop.symm),
    Table.eq_of_key hrow' hmem' (hs.outpoint.symm.trans (he.trans hop'.symm))⟩

theorem selects_eq {r : Record} {row : Row} (hr : b.server.get? op = some r)
    (hrow : s.get op = some row) {q : Row → Bool} (hq : q row = true) {r' : Record}
    (hr' : r' ∈ b.server) {row' : Row} (hrow' : row' ∈ s.rows) (hs : Same worth r' row') :
    decide (r'.outpoint = op) = (decide (row'.outpoint = op) && q row') := by
  by_cases he : r'.outpoint = op
  · obtain ⟨-, rfl⟩ := pair_eq hr hrow hr' hrow' hs he
    simp [← hs.outpoint, he, hq]
  · simp [← hs.outpoint, he]

/-- An operation whose guard holds where the row meets a condition does to the record what is done
to the row. -/
theorem operate (h : Refines worth b s) (op : Outpoint) {w : RecordOp} {q : Row → Bool}
    {f : Row → Row} (hf : ∀ r, (f r).outpoint = r.outpoint)
    (hw : ∀ r, b.server.get? op = some r → Mirrors worth r w q f) :
    decide ((b.server.operate op w).1 = .ok) = (Inventory.changeOne q f hf op s).1
      ∧ Refines worth { b with server := (b.server.operate op w).2 }
        (Inventory.changeOne q f hf op s).2 := by
  unfold Server.operate
  rcases hr : b.server.get? op with _ | r
  · rw [Inventory.changeOne_of_not _ _ _ fun row hrow => by rw [h.get_none hr] at hrow; cases hrow]
    exact ⟨rfl, h⟩
  · obtain ⟨row, hrow, hs⟩ := h.get_some hr
    obtain ⟨hg, hsame⟩ := hw r hr row hs
    by_cases hguard : w.guard r = true
    · rw [Inventory.changeOne_of _ _ _ hrow (hg.symm.trans hguard)]
      simp only [hguard, if_true, decide_true, true_and]
      refine h.with_server (h.rows.update w.effect_outpoint hf (fun r' hr' row' hrow' hs => ?_)
        fun r' hr' row' hrow' hs he => ?_)
      · exact selects_eq hr hrow (hg.symm.trans hguard) hr' hrow' hs
      · obtain ⟨rfl, rfl⟩ := pair_eq hr hrow hr' hrow' hs (by simpa using he)
        exact hsame hguard
    · rw [Inventory.changeOne_of_not _ _ _ fun row' hrow' => ?_]
      · simp only [hguard, Bool.false_eq_true, if_false]
        exact ⟨rfl, h⟩
      · obtain rfl := Option.some.inj (hrow.symm.trans hrow')
        rw [← hg]
        simpa using hguard

theorem delete (h : Refines worth b s) (op : Outpoint) (guard : DeleteGuard) {q : Row → Bool}
    (hw : ∀ r row, b.server.get? op = some r → Same worth r row → guard.holds r = q row) :
    decide ((b.server.delete op guard).1 = .removed) = (Inventory.dropOne q op s).1
      ∧ Refines worth { b with server := (b.server.delete op guard).2 }
        (Inventory.dropOne q op s).2 := by
  unfold Server.delete
  rcases hr : b.server.get? op with _ | r
  · rw [Inventory.dropOne_of_not _ fun row hrow => by rw [h.get_none hr] at hrow; cases hrow]
    exact ⟨rfl, h⟩
  · obtain ⟨row, hrow, hs⟩ := h.get_some hr
    have hg := hw r row hr hs
    by_cases hguard : guard.holds r = true
    · rw [Inventory.dropOne_of _ hrow (hg.symm.trans hguard)]
      simp only [hguard, if_true, decide_true, true_and]
      refine h.with_server (h.rows.delete fun r' hr' row' hrow' hs => ?_)
      exact selects_eq hr hrow (hg.symm.trans hguard) hr' hrow' hs
    · rw [Inventory.dropOne_of_not _ fun row' hrow' => ?_]
      · simp only [hguard, Bool.false_eq_true, if_false]
        exact ⟨rfl, h⟩
      · obtain rfl := Option.some.inj (hrow.symm.trans hrow')
        rw [← hg]
        simpa using hguard

theorem mark (h : Refines worth b s) (cfg : Config) (claimKey : String) :
    Refines worth (b.markClaimable cfg claimKey) s := by
  refine ⟨?_, Backend.markClaimable_ready h.ready cfg claimKey⟩
  unfold Backend.markClaimable
  cases cfg.cache <;> exact h.rows

end Refines

section Methods

variable {index : ℕ → List Record → List Record} {cfg : Config} {now : Time} {worth : Outpoint → ℕ}
  {b : Backend}
  {s : Inventory} {op : Outpoint}

/-- The method does and answers what the reference store's does. -/
def Implements {α : Type} (index : ℕ → List Record → List Record) (cfg : Config) (now : Time)
    (worth : Outpoint → ℕ)
    (x : Method α) (f : Inventory → α × Inventory) : Prop :=
  Simulates (Backend.exec index cfg now) (Refines worth) x f

theorem run_getRecord (op : Outpoint) (b : Backend) :
    (Store.getRecord op).run (Backend.exec index cfg now) b = (b.server.get? op, b) := rfl

theorem run_operate (op : Outpoint) (w : RecordOp) (b : Backend) :
    (Store.operate op w).run (Backend.exec index cfg now) b
      = ((b.server.operate op w).1, { b with server := (b.server.operate op w).2 }) := rfl

theorem run_delete (op : Outpoint) (guard : DeleteGuard) (b : Backend) :
    (Store.deleteRecordGuarded op guard).run (Backend.exec index cfg now) b
      = ((b.server.delete op guard).1, { b with server := (b.server.delete op guard).2 }) := rfl

theorem run_query (q : Query) (b : Backend) :
    (Store.query q).run (Backend.exec index cfg now) b = (b.server.select q.selects, b) := rfl

theorem run_pure {α : Type} (a : α) (b : Backend) :
    (pure a : Method α).run (Backend.exec index cfg now) b = (a, b) := rfl

/-- A note to the cache changes no record. -/
def Silent (index : ℕ → List Record → List Record) (cfg : Config) (now : Time)
    (worth : Outpoint → ℕ)
    (x : Method Unit) : Prop :=
  ∀ b s, Refines worth b s → Refines worth (x.run (Backend.exec index cfg now) b).2 s

theorem silent_noteClaimable (userID : UserID) (basket : String) (tier : Tier) (sats : ℕ) :
    Silent index cfg now worth (Store.noteClaimable userID basket tier sats) :=
  fun _ _ h => h.mark cfg _

theorem silent_noteClaimableAllTiers (u : Utxo) :
    Silent index cfg now worth (Store.noteClaimableAllTiers u) :=
  fun _ _ h => ((h.mark cfg _).mark cfg _).mark cfg _

/-- An operation, and a note if it succeeds. -/
theorem Refines.operate_note {α : Type} (h : Refines worth b s) (op : Outpoint) {w : RecordOp}
    {q : Row → Bool} {f : Row → Row} (hf : ∀ r, (f r).outpoint = r.outpoint)
    (hw : ∀ r, b.server.get? op = some r → Mirrors worth r w q f)
    {note : Method Unit} (hnote : Silent index cfg now worth note) (a a' : α)
    {x : Method α} (hx : x = do
      match ← Store.operate op w with
      | .ok =>
        note
        pure a
      | .filteredOut | .keyNotFound => pure a') :
    (x.run (Backend.exec index cfg now) b).1 = (if (Inventory.changeOne q f hf op s).1
        then a else a')
      ∧ Refines worth (x.run (Backend.exec index cfg now) b).2
          (Inventory.changeOne q f hf op s).2 := by
  obtain ⟨hok, h'⟩ := h.operate op hf hw
  rw [hx, run_bind, run_operate, ← hok]
  cases (b.server.operate op w).1
  · simp only [run_bind, run_pure, decide_true, if_true, true_and]
    exact hnote _ _ h'
  · exact ⟨rfl, h'⟩
  · exact ⟨rfl, h'⟩

/-- A record that does not meet the condition, or is not there. -/
theorem Refines.unmet (h : Refines worth b s) {q : Row → Bool}
    (hq : ∀ r row, b.server.get? op = some r → Same worth r row → q row = false) (f : Row → Row)
    (hf : ∀ r, (f r).outpoint = r.outpoint) : Inventory.changeOne q f hf op s = (false, s) :=
  Inventory.changeOne_of_not _ _ _ fun row hrow => by
    obtain ⟨r, hr, hs⟩ := h.get_row hrow
    exact hq r row hr hs

theorem bool_ite (b : Bool) : (if b then true else false) = b := by cases b <;> rfl

theorem implements_unspendOne (t : TxID) (op : Outpoint) :
    Implements index cfg now worth (Store.unspendOne t op)
    (Inventory.changeOne (fun r => r.spentBy = some t) Inventory.unspent
      Inventory.unspent_outpoint op) := by
  intro b s h
  unfold Store.unspendOne
  rw [run_bind, run_getRecord]
  rcases hr : b.server.get? op with _ | r
  · rw [h.unmet fun r row hr' _ => by rw [hr] at hr'; cases hr']
    exact ⟨rfl, h⟩
  · simp only
    split_ifs with hspent
    · rw [h.unmet fun r' row hr' hs => by
        obtain rfl := Option.some.inj (hr.symm.trans hr')
        rw [← hs.spentBy]
        exact decide_eq_false hspent]
      exact ⟨rfl, h⟩
    · obtain ⟨ha, h'⟩ := h.operate_note op (w := .unspend t (recordToUTXO r))
        Inventory.unspent_outpoint
        (fun r' hr' => by
          obtain rfl := Option.some.inj (hr.symm.trans hr')
          exact mirrors_unspend t) (silent_noteClaimableAllTiers (recordToUTXO r)) true false rfl
      exact ⟨ha.trans (bool_ite _), h'⟩

theorem implements_promoteOne (target : Tier) (op : Outpoint) :
    Implements index cfg now worth (Store.promoteOne target op)
      (Inventory.changeOne (fun r => r.tier ≠ target) (fun r => { r with tier := target }) (fun _ =>
        rfl) op) := by
  intro b s h
  unfold Store.promoteOne
  rw [run_bind, run_getRecord]
  rcases hr : b.server.get? op with _ | r
  · rw [h.unmet fun r row hr' _ => by rw [hr] at hr'; cases hr']
    exact ⟨rfl, h⟩
  · simp only
    split_ifs with htier
    · rw [h.unmet fun r' row hr' hs => by
        obtain rfl := Option.some.inj (hr.symm.trans hr')
        rw [← show r.tier = row.tier from congrArg Utxo.tier hs.utxo]
        exact decide_eq_false (not_not.mpr htier)]
      exact ⟨rfl, h⟩
    · obtain ⟨ha, h'⟩ := h.operate_note op (w := .promote (recordToUTXO r) target)
        (f := fun row => { row with tier := target }) (fun _ => rfl) (fun r' hr' => by
          obtain rfl := Option.some.inj (hr.symm.trans hr')
          exact mirrors_promote htier) (silent_noteClaimable r.userID r.basket target r.sats)
              true false rfl
      exact ⟨ha.trans (bool_ite _), h'⟩

theorem implements_releaseOutpoint {reservation : Token} (hR : reservation ≠ "") (op : Outpoint) :
    Implements index cfg now worth (Store.releaseOutpoint reservation op)
      (Inventory.releaseOne reservation op) := by
  intro b s h
  refine ⟨rfl, ?_⟩
  unfold Inventory.releaseOne
  unfold Store.releaseOutpoint
  rw [run_bind, run_getRecord]
  rcases hr : b.server.get? op with _ | r
  · simp only
    rw [h.unmet fun r row hr' _ => by rw [hr] at hr'; cases hr']
    exact h
  · obtain ⟨-, rfl⟩ := Table.get?_eq_some.mp hr
    simp only
    split_ifs with hskip
    · rw [h.unmet fun r' row hr' hs => by
        obtain rfl := Option.some.inj (hr.symm.trans hr')
        rw [← Bool.decide_and]
        refine decide_eq_false fun hheld => hskip.elim (fun hne => hne ?_) fun hne => hne ?_
        · exact (congrArg Utxo.reservedBy hs.utxo).trans hheld.1
        · exact hs.spentBy.trans hheld.2]
      exact h
    · rw [run_bind]
      refine (h.operate_note r.outpoint (w := .release (recordToUTXO r) reservation true)
        Inventory.released_outpoint (fun r' hr' =>
            ?_) (silent_noteClaimableAllTiers (recordToUTXO r)) true false rfl).2
      obtain rfl := Option.some.inj (hr.symm.trans hr')
      exact mirrors_release (sameCoin_recordToUTXO r) hR

theorem setFrozenOne_eq (frozen : Bool) (op : Outpoint) (s : Inventory) :
    Inventory.setFrozenOne frozen op s
    = (if (Inventory.changeOne (fun _ => true) (fun r => { r with frozen := frozen }) (fun _ =>
      rfl) op s).1 then none
        else some (.notFound op),
       (Inventory.changeOne (fun _ => true) (fun r => { r with frozen := frozen }) (fun _ =>
           rfl) op s).2) := by
  unfold Inventory.setFrozenOne Inventory.changeOne
  simp only [Bool.and_true]
  cases s.get op <;> rfl

theorem implements_freezeOne (op : Outpoint) :
    Implements index cfg now worth (Store.freezeOne op) (Inventory.setFrozenOne true op) := by
  intro b s h
  obtain ⟨hok, h'⟩ := h.operate op (w := .freeze) (f := fun r => { r with frozen := true })
      (fun _ => rfl)
    fun r _ => mirrors_freeze
  rw [setFrozenOne_eq, ← hok]
  refine ⟨?_, ?_⟩
  · unfold Store.freezeOne
    rw [run_bind, run_operate]
    simp only [Server.operate, RecordOp.guard, if_true]
    cases b.server.get? op <;> rfl
  · unfold Store.freezeOne
    rw [run_bind, run_operate]
    cases (b.server.operate op .freeze).1 <;> exact h'

theorem implements_unfreezeOne (op : Outpoint) :
    Implements index cfg now worth (Store.unfreezeOne op) (Inventory.setFrozenOne false op) := by
  intro b s h
  rw [setFrozenOne_eq]
  unfold Store.unfreezeOne
  rw [run_bind, run_getRecord]
  rcases hr : b.server.get? op with _ | r
  · rw [h.unmet fun r row hr' _ => by rw [hr] at hr'; cases hr']
    exact ⟨rfl, h⟩
  · obtain ⟨hok, h'⟩ := h.operate op (w := .unfreeze (recordToUTXO r)) (f := fun r =>
      { r with frozen := false })
      (fun _ => rfl) fun r' hr' => by
        obtain rfl := Option.some.inj (hr.symm.trans hr')
        exact mirrors_unfreeze
    have hop : (b.server.operate op (.unfreeze (recordToUTXO r))).1 = .ok := by
      simp only [Server.operate, hr, RecordOp.guard, if_true]
    rw [← hok]
    simp only [run_bind, run_operate, hop, run_pure, decide_true, if_true, true_and]
    exact silent_noteClaimableAllTiers _ _ _ h'

theorem Same.removeRefusal {r : Record} {row : Row} (h : Same worth r row) (op : Outpoint) :
    Store.removeRefusal op (recordToUTXO r) = Inventory.removeRefusal op row := by
  rw [h.utxo]
  rfl

/-- The guard of an unforced removal is that nothing speaks against it. -/
theorem Same.removable {r : Record} {row : Row} (h : Same worth r row) :
    DeleteGuard.removable.holds r = (Inventory.removeRefusal row.outpoint row).isNone := by
  simp only [DeleteGuard.holds, Inventory.removeRefusal, h.spentBy, h.frozen]
  have hres : r.resBy.isNone = decide (row.reservedBy = "") := by
    rw [Bool.eq_iff_iff, Option.isNone_iff_eq_none, decide_eq_true_eq, h.resBy_eq_none]
  rw [hres]
  cases row.spentBy with
  | some w => simp
  | none =>
    by_cases he : row.reservedBy = ""
    · cases row.frozen <;> simp [he]
    · simp [he]

/-- The row of an outpoint that has no record, or none that meets the condition, is not dropped. -/
theorem Refines.undropped (h : Refines worth b s) {q : Row → Bool}
    (hq : ∀ r row, b.server.get? op = some r → Same worth r row → q row = false) :
    Inventory.dropOne q op s = (false, s) :=
  Inventory.dropOne_of_not _ fun row hrow => by
    obtain ⟨r, hr, hs⟩ := h.get_row hrow
    exact hq r row hr hs

theorem removeOne_false (op : Outpoint) (s : Inventory) : Inventory.removeOne false op s
    = ((s.get op).bind (Inventory.removeRefusal op),
       (Inventory.dropOne (fun r => (Inventory.removeRefusal r.outpoint r).isNone) op s).2) := rfl

theorem implements_removeOne (force : Bool) (op : Outpoint) :
    Implements index cfg now worth (Store.removeOne force op) (Inventory.removeOne force op) := by
  intro b s h
  cases force with
  | true => exact ⟨rfl, (h.delete op .none (q := fun _ => true) fun _ _ _ _ => rfl).2⟩
  | false =>
    rw [removeOne_false]
    unfold Store.removeOne
    rw [if_neg Bool.false_ne_true, show Store.casAttempts = 1 + 1 from rfl, Store.removeGuarded,
        run_bind, run_getRecord]
    rcases hr : b.server.get? op with _ | r
    · rw [h.get_none hr, h.undropped fun r row hr' _ => by rw [hr] at hr'; cases hr']
      exact ⟨rfl, h⟩
    · obtain ⟨row, hrow, hs⟩ := h.get_some hr
      obtain ⟨-, hop⟩ := Inventory.get_eq_some.mp hrow
      simp only [hs.removeRefusal, hrow, Option.bind_some]
      rcases href : Inventory.removeRefusal op row with _ | e
      · obtain ⟨hremoved, h'⟩ := h.delete op .removable
          (q := fun r => (Inventory.removeRefusal r.outpoint r).isNone) fun r row _ hs =>
              hs.removable
        rw [Inventory.dropOne_of _ hrow (by rw [hop, href]; rfl)] at hremoved h' ⊢
        simp only [run_bind, run_delete, of_decide_eq_true hremoved]
        exact ⟨rfl, h'⟩
      · rw [Inventory.dropOne_of_not _ fun row' hrow' => by
          obtain rfl := Option.some.inj (hrow.symm.trans hrow')
          rw [hop, href]
          rfl]
        exact ⟨rfl, h⟩

theorem run_create (m : Mint) (b : Backend) :
    (Store.create now m).run (Backend.exec index cfg now) b
    = match b.server.get? m.outpoint with
      | some _ => (false, b)
      | none => (true, { b with server := b.server.insert (mintedRecord now m) }) := by
  have hrun : (Store.create now m).run (Backend.exec index cfg now) b
      = ((Server.exec (.create m now) b.server).1,
          { b with server := (Server.exec (.create m now) b.server).2 }) := rfl
  rw [hrun, Server.exec]
  cases b.server.get? m.outpoint <;> rfl

theorem same_minted {m : Mint} (hm : m.satoshis = worth m.outpoint) (seq : ℕ) :
    Same worth (mintedRecord now m) (Inventory.minted now seq m) :=
  ⟨by simp [recordToUTXO, mintedRecord, Inventory.minted], Record.coherent_mintedRecord m now, by
      simp [mintedRecord], hm⟩

theorem implements_mintOne {m : Mint} (hm : m.satoshis = worth m.outpoint) :
    Implements index cfg now worth (Store.mintOne now m) (Inventory.mintOne now m) := by
  intro b s h
  unfold Store.mintOne Inventory.mintOne
  rcases validateMint m with _ | e
  · simp only
    rcases hr : b.server.get? m.outpoint with _ | r
    · have h' : Refines worth { b with server := b.server.insert (mintedRecord now m) }
          { nextSeq := s.nextSeq + 1, rows := s.rows.insert
              (Inventory.minted now (s.nextSeq + 1) m) } :=
        ⟨h.rows.insert Refines.key_eq (same_minted hm _) hr, h.ready.sourced, h.ready.idle,
            h.ready.fresh⟩
      rw [run_bind, run_create, hr, h.get_none hr]
      simp only [if_true, run_bind, run_pure, true_and]
      exact silent_noteClaimable _ _ _ _ _ _ h'
    · obtain ⟨row, hrow, hs⟩ := h.get_some hr
      rw [run_bind, run_create, hr, hrow]
      simp only [Bool.false_eq_true, if_false, run_bind, run_getRecord, hr, hs.utxo]
      split_ifs
      · exact ⟨rfl, h⟩
      · exact ⟨rfl, h⟩
  · exact ⟨rfl, h⟩

theorem spendOne_of_refusal {sp : SpendOp} {force : Bool} {row : Row} (hv : validateSpend sp = none)
    (hrow : s.get sp.outpoint = some row) {e : Option UtxoErr}
    (he : Store.spendRefusal sp force row.toUtxo = some e) :
    Inventory.spendOne sp force s = (e, s) := by
  unfold Inventory.spendOne
  unfold Store.spendRefusal at he
  simp only [hv, hrow]
  cases hs : row.spentBy with
  | some w =>
    simp only [hs, Option.some.injEq] at he
    rw [← he]
  | none =>
    simp only [hs] at he
    split_ifs at he ⊢
    · rw [← Option.some.inj he]
    · rw [← Option.some.inj he]

theorem spendRefusal_of_not_spendable {sp : SpendOp} {force : Bool} {row : Row}
    (h : spendable sp force row = false) :
    ∃ e, Store.spendRefusal sp force row.toUtxo = some e := by
  unfold Store.spendRefusal
  cases hs : row.spentBy with
  | some w => exact ⟨_, rfl⟩
  | none =>
    cases force with
    | true => simp [spendable, hs] at h
    | false =>
      by_cases hf : row.frozen = true
      · simp [hf]
      · by_cases hR : row.reservedBy = sp.reservation
        · simp [spendable, hs, hf, hR] at h
        · simp [hf, hR]

theorem spendOne_of_spendable {sp : SpendOp} {force : Bool} {row : Row}
    (hv : validateSpend sp = none)
    (hrow : s.get sp.outpoint = some row) (hpin : row.spentBy ≠ none → row.pinned = false)
    (h : spendable sp force row = true) : Inventory.spendOne sp force s
      = (none, s.modify (fun r => r.outpoint = sp.outpoint && spendable sp force r) (spent sp)
        (spent_outpoint sp)) := by
  obtain ⟨hmem, hop⟩ := Inventory.get_eq_some.mp hrow
  have hrows : ∀ r ∈ s.rows, r.outpoint = sp.outpoint → r = row := fun r hr he =>
    Table.eq_of_key hr hmem (he.trans hop.symm)
  unfold Inventory.spendOne
  simp only [hv, hrow]
  cases hs : row.spentBy with
  | some w =>
    -- the coin was spent by this transaction before, and nothing changes
    have hw : w = sp.spendingTxID := by
      unfold spendable at h
      split_ifs at h
      · simpa [hs] using h
      · simp [hs] at h
    have hsame : spent sp row = row := by
      unfold spent
      rw [← hw, ← hs, ← hpin (by rw [hs]; exact Option.some_ne_none w)]
    refine Prod.ext (if_pos hw) ?_
    refine (congrArg (fun rows => { s with rows := rows })
        (Table.update_of_forall_fixed fun r hr he => ?_)).symm
    rw [Bool.and_eq_true, decide_eq_true_eq] at he
    rw [hrows r hr he.1]
    exact hsame
  | none =>
    have hf : ¬(!force && row.frozen) = true := fun hf => by
      simp only [Bool.and_eq_true, Bool.not_eq_true'] at hf
      simp [spendable, hf.1, hf.2] at h
    have hR : ¬(!force && row.reservedBy ≠ sp.reservation) = true := fun hR => by
      simp only [Bool.and_eq_true, Bool.not_eq_true', decide_eq_true_eq] at hR
      simp [spendable, hR.1, hR.2] at h
    simp only [if_neg hf, if_neg hR]
    refine Prod.ext rfl (congrArg (fun rows => { s with rows := rows })
        (Table.update_congr fun r hr => ?_))
    by_cases he : r.outpoint = sp.outpoint
    · rw [hrows r hr he, h, Bool.and_true]
      rfl
    · simp [he]

theorem implements_spendOne (force : Bool) (sp : SpendOp) :
    Implements index cfg now worth (Store.spendOne force sp) (Inventory.spendOne sp force) := by
  intro b s h
  unfold Store.spendOne
  rcases hv : validateSpend sp with _ | e
  · have hR : sp.reservation ≠ "" := fun he => by simp [validateSpend, he] at hv
    simp only
    rw [show Store.casAttempts = 1 + 1 from rfl, Store.spendGuarded, run_bind, run_operate]
    rcases hr : b.server.get? sp.outpoint with _ | r
    · have hop : b.server.operate sp.outpoint (.spend sp force) = (.keyNotFound, b.server) := by
        simp only [Server.operate, hr]
      rw [hop]
      simp only [run_bind, Store.classifySpendFailure, run_getRecord, hr, run_pure]
      simp only [Inventory.spendOne, hv, h.get_none hr, true_and]
      exact h
    · obtain ⟨row, hrow, hs⟩ := h.get_some hr
      obtain ⟨hg, -⟩ := mirrors_spend (r := r) hR force row hs
      by_cases hsp : spendable sp force row = true
      · obtain ⟨hok, h'⟩ := h.operate sp.outpoint (spent_outpoint sp) fun r _ =>
          mirrors_spend (r := r) hR force
        rw [Inventory.changeOne_of _ _ _ hrow hsp] at hok h'
        rw [of_decide_eq_true hok, spendOne_of_spendable hv hrow (fun hne => ?_) hsp]
        · exact ⟨rfl, h'⟩
        · rw [← hs.pinned]
          exact hs.coherent.unpinned (hs.spentBy.trans_ne hne)
      · have hop : b.server.operate sp.outpoint (.spend sp force) = (.filteredOut, b.server) := by
          simp only [Server.operate, hr, hg, hsp]
          rfl
        obtain ⟨e, he⟩ := spendRefusal_of_not_spendable (Bool.not_eq_true _ ▸ hsp)
        rw [spendOne_of_refusal hv hrow he, hop]
        simp only [run_bind, Store.classifySpendFailure, run_getRecord, hr, run_pure, hs.utxo,
            he, true_and]
        exact h
  · unfold Inventory.spendOne
    rw [hv]
    exact ⟨rfl, h⟩

end Methods

end ArcadeToolbox.Aerostore
