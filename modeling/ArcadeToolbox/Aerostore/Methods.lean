import ArcadeToolbox.Aerostore.Refinement

/-!
# The Aerospike inventory refines the reference store: the methods

The methods go through lists: of outpoints, of the records that a query found, of the coins that
have been won so far. The snapshots that a query returns grow old while the list is worked through,
but whose coins they are and what these are worth stays the same.
-/

namespace ArcadeToolbox.Aerostore

open Txn Prog

section Methods

variable {index : ℕ → List Record → List Record} {cfg : Config} {now : Time} {worth : Outpoint → ℕ}

theorem Implements.congr {α : Type} {x : Method α} {f g : Inventory → α × Inventory}
    (hx : Implements index cfg now worth x f) (h : ∀ s, g s = f s) :
    Implements index cfg now worth x g := by
  intro b s hR
  rw [h s]
  exact hx b s hR

theorem simulates_countEach {γ : Type} {R : Backend → Inventory → Prop} {f : γ → Method Bool}
    {g : γ → Inventory → Bool × Inventory} (l : List γ)
    (hf : ∀ a ∈ l, Simulates (Backend.exec index cfg now) R (f a) (g a)) :
    Simulates (Backend.exec index cfg now) R (Store.countEach f l)
      fun s => ((each g l s).1.count true, (each g l s).2) :=
  simulates_map (simulates_forEach l hf) (List.count true)

theorem implements_refusals {f : Outpoint → Method (Option UtxoErr)}
    {g : Outpoint → Inventory → Option UtxoErr × Inventory}
    (hf : ∀ op, Implements index cfg now worth (f op) (g op))
    (ops : List Outpoint) : Implements index cfg now worth (do
      let es ← forEach f ops
      pure es.reduceOption) fun s => ((each g ops s).1.reduceOption, (each g ops s).2) :=
  simulates_map (simulates_forEach ops fun op _ => hf op) List.reduceOption

theorem implements_mint {ms : List Mint} (hms : ∀ m ∈ ms, m.satoshis = worth m.outpoint) :
    Implements index cfg now worth (Store.mint now ms) (Inventory.mint now ms) :=
  Implements.congr (simulates_forEach ms fun m hm => implements_mintOne (hms m hm))
      (Inventory.mint_eq_each now ms)

theorem implements_remove (ops : List Outpoint) (force : Bool) :
    Implements index cfg now worth (Store.remove ops force) (Inventory.remove ops force) :=
  (implements_refusals (implements_removeOne force) ops).congr (Inventory.remove_eq_each force ops)

theorem implements_freeze (ops : List Outpoint) :
    Implements index cfg now worth (Store.freeze ops) (Inventory.freeze ops) :=
  (implements_refusals implements_freezeOne ops).congr (Inventory.setFrozen_eq_each true ops)

theorem implements_unfreeze (ops : List Outpoint) :
    Implements index cfg now worth (Store.unfreeze ops) (Inventory.unfreeze ops) :=
  (implements_refusals implements_unfreezeOne ops).congr (Inventory.setFrozen_eq_each false ops)

theorem implements_promote (ops : List Outpoint) (target : Tier) :
    Implements index cfg now worth (Store.promote ops target) (Inventory.promote ops target) :=
  Implements.congr (simulates_countEach ops fun op _ => implements_promoteOne target op)
    fun _ => Inventory.promote_eq_each ops target

theorem implements_unspend (t : TxID) (ops : List Outpoint) :
    Implements index cfg now worth (Store.unspend t ops) (Inventory.unspend t ops) :=
  Implements.congr (simulates_countEach ops fun op _ => implements_unspendOne t op)
    fun _ => Inventory.unspend_eq_each t ops

theorem implements_spend (force : Bool) (sps : List SpendOp) :
    Implements index cfg now worth (Store.spend force sps) (Inventory.spend force sps) :=
  Implements.congr (simulates_forEach sps fun sp _ => implements_spendOne force sp)
      (Inventory.spend_eq_each force sps)

variable {R : Token}

theorem validateReservation_eq_none (h : validateReservation R = none) : R ≠ "" := fun he => by
  simp [validateReservation, he] at h

theorem implements_releaseOutpoints (R : Token) (ops : List Outpoint) :
    Implements index cfg now worth (Store.releaseOutpoints R ops)
      (Inventory.releaseOutpoints R ops) := by
  intro b s h
  unfold Store.releaseOutpoints
  rcases hv : validateReservation R with _ | e
  · have hR := validateReservation_eq_none hv
    rw [Inventory.releaseOutpoints_eq_each hR]
    simp only [run_bind, run_pure, true_and]
    exact (simulates_forEach ops (fun op _ => implements_releaseOutpoint hR op) b s h).2
  · simp only [Inventory.releaseOutpoints, hv]
    exact ⟨rfl, h⟩

/-- The coins that the snapshots are of are still whose they were and worth what they were. -/
def Current (us : List Utxo) (b : Backend) : Prop :=
  ∀ u ∈ us, ∀ r, b.server.get? u.outpoint = some r → SameCoin u r

theorem Current.operate {us : List Utxo} {b : Backend} (h : Current us b) (op : Outpoint)
    (w : RecordOp) :
    Current us { b with server := (b.server.operate op w).2 } := by
  intro u hu r hr
  have hc : Server.Change (.operate op w) u.outpoint (b.server.get? u.outpoint) (some r) := by
    rw [← hr]
    exact Server.change_step b.server (.operate op w) u.outpoint
  rcases hb : b.server.get? u.outpoint with _ | r'
  · rw [hb] at hc
    cases hc with
    | created m now hq => cases hq
  · have hs := h u hu r' hb
    rw [hb] at hc
    cases hc with
    | same => exact hs
    | changed w r hq hg => exact hs.effect w

theorem current_query (b : Backend) (q : Query) :
    Current ((b.server.select q.selects).map recordToUTXO) b := by
  intro u hu r hr
  obtain ⟨rec, hrec, rfl⟩ := List.mem_map.mp hu
  obtain ⟨hmem, -⟩ := Table.mem_select.mp hrec
  obtain ⟨hr, hop⟩ := Table.get?_eq_some.mp hr
  rw [Table.eq_of_key hr hmem hop]
  exact sameCoin_recordToUTXO rec

theorem Refines.outpoints_query {b : Backend} {s : Inventory} (h : Refines worth b s) {q : Query}
    {p : Row → Bool} (hp : ∀ r row, Same worth r row → q.selects r = p row) :
    (b.server.select q.selects).map (·.outpoint) = (s.rows.select p).map (·.outpoint) := by
  have hsel := h.rows.select (p := q.selects) fun r _ row _ hs => hp r row hs
  exact List.forall₂_eq_eq_eq ▸ List.forall₂_map_left_iff.mpr
    (List.forall₂_map_right_iff.mpr (hsel.imp fun _ _ hs => hs.outpoint))

variable (index cfg now) in
/-- The records that a query finds are those of the rows that meet the condition; they are gone
through one by one. -/
theorem Refines.countEach_query {b : Backend} {s : Inventory} (h : Refines worth b s) {q : Query}
    {p : Row → Bool}
    (hp : ∀ r row, Same worth r row → q.selects r = p row) {R : Backend → Inventory → Prop}
    (hR : R b s) {x : Record → Method Bool} {g : Outpoint → Inventory → Bool × Inventory}
    (hx : ∀ r ∈ b.server.select q.selects,
      Simulates (Backend.exec index cfg now) R (x r) (g r.outpoint)) :
    let ops := (s.rows.select p).map (·.outpoint)
    let y := (Store.countEach x (b.server.select q.selects)).run (Backend.exec index cfg now) b
    y.1 = (each g ops s).1.count true ∧ R y.2 (each g ops s).2 := by
  intro ops y
  have hsim := simulates_countEach _ hx b s hR
  simp only [each_map g (fun r : Record => r.outpoint), h.outpoints_query hp] at hsim
  exact hsim

theorem mirrors_releaseUnpinned {r : Record} {u : Utxo} (hu : SameCoin u r) (hR : R ≠ "") :
    Mirrors worth r (.release u R false)
      (fun row => row.reservedBy = R && row.spentBy = none && !row.pinned)
      fun row => { row with reservedBy := "", reservedAt := 0 } := by
  intro row h
  refine ⟨?_, fun hg => h.effect hg (fun u' hu' => by cases hu'; exact hu)
      (by simp [RecordOp.effect]) ?_⟩
  · simp only [RecordOp.guard, Bool.false_or, h.resBy_eq_some hR, h.spentBy, h.pinned]
    cases row.spentBy <;> rfl
  · change { recordToUTXO r with reservedBy := "", reservedAt := 0,
                                 pinned := r.pinned && !false } = _
    rw [h.utxo, Bool.not_false, Bool.and_true, h.pinned]

theorem server_noteClaimableAllTiers (u : Utxo) (b : Backend) :
    ((Store.noteClaimableAllTiers u).run (Backend.exec index cfg now) b).2.server = b.server := by
  refine (Backend.server_markClaimable cfg _ _).trans ((Backend.server_markClaimable cfg _ _).trans
      (Backend.server_markClaimable cfg _ b))

theorem simulates_releaseRow {us : List Utxo} {u : Utxo} (hu : u ∈ us) (hR : R ≠ "") :
    Simulates (Backend.exec index cfg now) (fun b s => Refines worth b s ∧ Current us b)
      (Store.releaseRow R false u)
      (Inventory.changeOne (fun r => r.reservedBy = R && r.spentBy = none && !r.pinned)
        (fun r => { r with reservedBy := "", reservedAt := 0 }) (fun _ => rfl) u.outpoint) := by
  intro b s h
  obtain ⟨h, hcur⟩ := h
  obtain ⟨ha, h'⟩ := h.operate_note u.outpoint (w := .release u R false)
    (f := fun r => { r with reservedBy := "", reservedAt := 0 }) (fun _ => rfl)
    (fun r hr => mirrors_releaseUnpinned (hcur u hu r hr) hR) (silent_noteClaimableAllTiers u)
        true false rfl
  refine ⟨ha.trans (bool_ite _), h', ?_⟩
  have hserver : ((Store.releaseRow R false u).run (Backend.exec index cfg now) b).2.server
      = (b.server.operate u.outpoint (.release u R false)).2 := by
    unfold Store.releaseRow
    rw [run_bind, run_operate]
    cases (b.server.operate u.outpoint (.release u R false)).1 with
    | ok =>
      simp only [run_bind, run_pure]
      exact server_noteClaimableAllTiers u _
    | filteredOut => rfl
    | keyNotFound => rfl
  intro u' hu' r hr
  rw [hserver] at hr
  exact hcur.operate u.outpoint (.release u R false) u' hu' r hr

theorem Same.selects_reservedBy {r : Record} {row : Row} (h : Same worth r row) (userID : UserID)
    (hR : R ≠ "") (pinned : Bool) : (Query.reservedBy userID R pinned).selects r
      = (Inventory.heldBy row userID R && row.pinned = pinned) := by
  simp only [Query.selects, Inventory.heldBy, h.resBy_eq_some hR, h.userID, h.spentBy, h.pinned]
  cases row.spentBy <;> simp [Bool.and_comm]

theorem implements_releaseReservation (userID : UserID) (R : Token) :
    Implements index cfg now worth (Store.releaseReservation userID R)
      (Inventory.releaseReservation userID R) := by
  intro b s h
  unfold Store.releaseReservation
  rcases hv : validateReservation R with _ | e
  · have hR := validateReservation_eq_none hv
    have hsel : ∀ r row, Same worth r row →
        (Query.reservedBy userID R false).selects r
            = (Inventory.heldBy row userID R && !row.pinned) :=
      fun r row hs => (hs.selects_reservedBy userID hR false).trans (by simp)
    obtain ⟨hn, h', -⟩ := h.countEach_query index cfg now hsel ⟨h, current_query b _⟩
      (x := fun r => Store.releaseRow R false (recordToUTXO r)) (g := Inventory.changeOne _ _ _)
      fun r hr => simulates_releaseRow (List.mem_map_of_mem hr) hR
    rw [Inventory.releaseReservation_eq_each hR]
    simp only [run_bind, run_query, run_pure]
    exact ⟨congrArg Except.ok hn, h'⟩
  · unfold Inventory.releaseReservation
    rw [hv]
    exact ⟨rfl, h⟩

theorem implements_setPinnedRow (hR : R ≠ "") (pinned : Bool) (op : Outpoint) :
    Implements index cfg now worth (Store.setPinnedRow R pinned op)
      (Inventory.changeOne (fun r => r.reservedBy = R && r.spentBy = none && r.pinned ≠ pinned)
        (fun r => { r with pinned := pinned }) (fun _ => rfl) op) := by
  intro b s h
  obtain ⟨hok, h'⟩ := h.operate op (w := .setPinned R pinned) (f := fun r =>
      { r with pinned := pinned })
    (fun _ => rfl) fun r _ => mirrors_setPinned hR pinned
  unfold Store.setPinnedRow
  rw [run_bind, run_operate, ← hok]
  cases (b.server.operate op (.setPinned R pinned)).1 <;> exact ⟨rfl, h'⟩

theorem implements_setPinned (userID : UserID) (R : Token) (pinned : Bool) :
    Implements index cfg now worth (Store.setPinned userID R pinned)
      (Inventory.setPinned userID R pinned) := by
  intro b s h
  unfold Store.setPinned
  rcases hv : validateReservation R with _ | e
  · have hR := validateReservation_eq_none hv
    have hsel : ∀ r row, Same worth r row →
        (Query.reservedBy userID R (!pinned)).selects r
            = (Inventory.heldBy row userID R && row.pinned ≠ pinned) :=
      fun r row hs => (hs.selects_reservedBy userID hR (!pinned)).trans (by simp [Bool.eq_not])
    obtain ⟨hn, h'⟩ := h.countEach_query index cfg now hsel h
      (x := fun r => Store.setPinnedRow R pinned (recordToUTXO r).outpoint) fun r _ =>
          implements_setPinnedRow hR pinned r.outpoint
    rw [Inventory.setPinned_eq_each hR]
    simp only [run_bind, run_query, run_pure]
    exact ⟨congrArg Except.ok hn, h'⟩
  · unfold Inventory.setPinned
    rw [hv]
    exact ⟨rfl, h⟩

theorem implements_removeSpentBy (t : TxID) :
    Implements index cfg now worth (Store.removeSpentBy t) (Inventory.removeSpentBy t) := by
  intro b s h
  have hsel : ∀ r row, Same worth r row →
      (Query.spentBy t).selects r = decide (row.spentBy = some t) :=
    fun r row hs => by rw [← hs.spentBy]; rfl
  rw [Inventory.removeSpentBy_eq_each]
  refine h.countEach_query index cfg now hsel h fun r _ => ?_
  intro b s h
  obtain ⟨hremoved, h'⟩ := h.delete r.outpoint (.spentBy t) (q := fun row => row.spentBy = some t)
    fun r row _ hs => by rw [← hs.spentBy]; rfl
  exact ⟨hremoved, h'⟩

def hold (now : Time) (R : Token) (row : Row) : Row :=
  { row with reservedBy := R, reservedAt := now }

theorem hold_outpoint (now : Time) (R : Token) (row : Row) :
    (hold now R row).outpoint = row.outpoint := rfl

/-- A row that can be claimed, of the user. -/
def reservable (userID : UserID) (row : Row) : Bool :=
  row.reservedBy = "" && row.spentBy = none && !row.frozen && row.userID = userID

/-- The claim key is there exactly while the coin is free. -/
theorem Same.claimable_iff {r : Record} {row : Row} (h : Same worth r row) :
    r.Claimable ↔ row.reservedBy = "" ∧ row.spentBy = none ∧ row.frozen = false := by
  unfold Record.Claimable
  rw [h.resBy_eq_none, h.spentBy, h.frozen]

theorem mirrors_reserveOutpoint {r : Record} (userID : UserID) (hR : R ≠ "") :
    Mirrors worth r (.reserveOutpoint userID R now) (reservable userID) (hold now R) := by
  intro row h
  refine ⟨?_, fun hg => h.effect hg (fun u hu => by cases hu) (by simpa [RecordOp.effect]
      using hR) ?_⟩
  · rw [Bool.eq_iff_iff]
    simp only [RecordOp.guard, reservable, h.coherent.claimKey, h.userID, Bool.and_eq_true,
        decide_eq_true_eq,
      Bool.not_eq_true', and_assoc]
    have hc := h.claimable_iff
    split_ifs with hclaim <;> simp_all
  · change { recordToUTXO r with reservedBy := R, reservedAt := if R ≠ "" then now else 0 } = _
    rw [h.utxo, if_pos hR]
    rfl

theorem classifyRow_eq {s : Inventory} {userID : UserID} {op : Outpoint} {row : Row}
    (hrow : s.get op = some row) : Store.classifyRow userID R op row.toUtxo
      = match s.reserveRefusal userID R op with
        | some e => .refused e
        | none => if row.reservedBy = R then .satisfied else .free row.toUtxo := by
  unfold Store.classifyRow Inventory.reserveRefusal
  simp only [hrow]
  split_ifs <;> cases hs : row.spentBy <;> simp_all

theorem reservable_of_reserveRefusal {s : Inventory} {userID : UserID} {op : Outpoint} {row : Row}
    (hrow : s.get op = some row) (hn : s.reserveRefusal userID R op = none)
    (hR : row.reservedBy ≠ R) :
    reservable userID row = true := by
  unfold Inventory.reserveRefusal at hn
  simp only [hrow] at hn
  cases hs : row.spentBy with
  | some w => split_ifs at hn <;> simp_all
  | none => split_ifs at hn <;> simp_all [reservable]

theorem run_classifyForReserve (userID : UserID) (R : Token) (op : Outpoint) (b : Backend) :
    (Store.classifyForReserve userID R op).run (Backend.exec index cfg now) b
      = (match b.server.get? op with
         | none => .refused (.notFound op)
         | some r => Store.classifyRow userID R op (recordToUTXO r), b) := by
  unfold Store.classifyForReserve
  rw [run_bind, run_getRecord]
  cases b.server.get? op <;> rfl

section Reserving

variable {b : Backend} {s : Inventory} {userID : UserID} {R : Token} {op : Outpoint}

theorem run_reserveOutpointOne_refused (h : Refines worth b s) {e : UtxoErr}
    (he : s.reserveRefusal userID R op = some e) :
    (Store.reserveOutpointOne now userID R op).run
    (Backend.exec index cfg now) b = (.refused e, b) := by
  unfold Store.reserveOutpointOne
  rw [run_bind, run_classifyForReserve]
  rcases hr : b.server.get? op with _ | r
  · simp only [Inventory.reserveRefusal, h.get_none hr, Option.some.injEq] at he
    rw [← he]
    rfl
  · obtain ⟨row, hrow, hs⟩ := h.get_some hr
    simp only [hs.utxo, classifyRow_eq hrow, he]
    rfl

theorem run_reserveOutpointOne_satisfied (h : Refines worth b s)
    (hn : s.reserveRefusal userID R op = none)
    {row : Row} (hrow : s.get op = some row) (hR : row.reservedBy = R) :
    (Store.reserveOutpointOne now userID R op).run
    (Backend.exec index cfg now) b = (.satisfied, b) := by
  unfold Store.reserveOutpointOne
  obtain ⟨r, hr, hs⟩ := h.get_row hrow
  rw [run_bind, run_classifyForReserve, hr]
  simp only [hs.utxo, classifyRow_eq hrow, hn, if_pos hR]
  rfl

theorem run_reserveOutpointOne_won (h : Refines worth b s) (htoken : R ≠ "")
    (hn : s.reserveRefusal userID R op = none) {row : Row} (hrow : s.get op = some row)
    (hR : row.reservedBy ≠ R) :
    ∃ r, b.server.get? op = some r ∧ Refines worth
      { b with server := (b.server.operate op (.reserveOutpoint userID R now)).2 }
        (s.modify (fun row => row.outpoint = op && reservable userID row) (hold now R)
            (hold_outpoint now R))
      ∧ (Store.reserveOutpointOne now userID R op).run (Backend.exec index cfg now) b
        = (.won { recordToUTXO r with reservedBy := R, reservedAt := now },
           { b with server := (b.server.operate op (.reserveOutpoint userID R now)).2 }) := by
  obtain ⟨r, hr, hs⟩ := h.get_row hrow
  obtain ⟨hok, h'⟩ := h.operate op (w := .reserveOutpoint userID R now) (hold_outpoint now R)
    fun r _ => mirrors_reserveOutpoint userID htoken
  rw [Inventory.changeOne_of _ _ _ hrow (reservable_of_reserveRefusal hrow hn hR)] at hok h'
  refine ⟨r, hr, h', ?_⟩
  have hop : (recordToUTXO r).outpoint = op := (Table.get?_eq_some.mp hr).2
  unfold Store.reserveOutpointOne
  rw [run_bind, run_classifyForReserve, hr]
  simp only [hs.utxo, classifyRow_eq hrow, hn, if_neg hR]
  rw [← hs.utxo, hop, run_bind, run_operate, of_decide_eq_true hok]
  rfl

theorem exists_of_reserveRefusal (h : s.reserveRefusal userID R op = none) :
    ∃ row, s.get op = some row := by
  unfold Inventory.reserveRefusal at h
  cases hrow : s.get op with
  | none =>
    rw [hrow] at h
    cases h
  | some row => exact ⟨row, rfl⟩

variable {W : List Outpoint}

theorem get_reserve_of_not_mem (h : op ∉ W) : (s.reserve now R W).get op = s.get op := by
  unfold Inventory.reserve
  rw [Inventory.get_modify]
  cases hr : s.get op with
  | none => rfl
  | some row =>
    have hop : row.outpoint = op := (Inventory.get_eq_some.mp hr).2
    simp [hop, h]

theorem reserveRefusal_reserve (h : op ∉ W) :
    (s.reserve now R W).reserveRefusal userID R op = s.reserveRefusal userID R op := by
  unfold Inventory.reserveRefusal
  rw [get_reserve_of_not_mem h]

theorem reserve_append {row : Row} (h : op ∉ W) (hrow : s.get op = some row) {q : Row → Bool}
    (hq : q row = true) :
    (s.reserve now R W).modify (fun row => row.outpoint = op && q row) (hold now R)
    (hold_outpoint now R)
      = s.reserve now R (W ++ [op]) := by
  obtain ⟨hmem, hop⟩ := Inventory.get_eq_some.mp hrow
  unfold Inventory.reserve Inventory.modify
  refine congrArg (Inventory.mk · s.nextSeq) (Table.eq_of_rows ?_)
  simp only [Table.update, List.map_map]
  refine List.map_congr_left fun r hr => ?_
  by_cases he : r.outpoint = op
  · obtain rfl : r = row := Table.eq_of_key hr hmem (he.trans hop.symm)
    simp [he, h, hq, hold]
  · by_cases hW : r.outpoint ∈ W <;> simp [he, hW]

/-- The row of the outpoint is as no token has touched it. -/
def Untouched (s : Inventory) (op : Outpoint) : Prop :=
  ∀ row, s.get op = some row → row.reservedBy = "" ∧ row.reservedAt = 0 ∧ row.spentBy = none
      ∧ row.pinned = false

theorem Refines.untouched (h : Refines worth b s) {row : Row} (hrow : s.get op = some row)
    (hq : reservable userID row = true) : Untouched s op := by
  intro row' hrow'
  obtain rfl := Option.some.inj (hrow.symm.trans hrow')
  obtain ⟨hmem, -⟩ := Inventory.get_eq_some.mp hrow
  obtain ⟨r, -, hs⟩ := h.rows.mem_right hmem
  simp only [reservable, Bool.and_eq_true, decide_eq_true_eq] at hq
  obtain ⟨⟨⟨hb, hsp⟩, -⟩, -⟩ := hq
  have hnone : r.resBy = none := hs.resBy_eq_none.mpr hb
  refine ⟨hb, ?_, hsp, ?_⟩
  · have hat : (recordToUTXO r).reservedAt = row.reservedAt := congrArg Utxo.reservedAt hs.utxo
    rw [← hat]
    simp [recordToUTXO, hnone]
  · rw [← hs.pinned]
    cases hp : r.pinned with
    | false => rfl
    | true =>
      have := (hs.coherent.pinned hp).1
      rw [hnone] at this
      cases this

/-- What was held is given back as it was. -/
theorem release_reserve (h : ∀ op ∈ W, Untouched s op) :
    (each (Inventory.changeOne (fun r => r.reservedBy = R && r.spentBy = none && !r.pinned)
      (fun r => { r with reservedBy := "", reservedAt := 0 }) fun _ => rfl) W (s.reserve now R W)).2
        = s := by
  rw [Inventory.each_changeOne _ _ _ fun r => by rfl]
  unfold Inventory.reserve Inventory.modify
  refine congrArg (Inventory.mk · s.nextSeq) (Table.eq_of_rows ?_)
  simp only [Table.update, List.map_map]
  refine (List.map_congr_left fun r hr => ?_).trans (List.map_id _)
  by_cases hW : r.outpoint ∈ W
  · obtain ⟨hb, hat, hsp, hp⟩ := h r.outpoint hW r (Inventory.get_eq_some.mpr ⟨hr, rfl⟩)
    simp only [Function.comp_apply, hW, decide_true, if_true, hsp, hp, Bool.not_false,
        Bool.and_true]
    rw [← hb, ← hat, ← hsp, ← hp]
    rfl
  · simp [hW]

theorem run_undoReserveOutpoints (hR : R ≠ "") {won : List Utxo}
    (h : Refines worth b (s.reserve now R (won.map (·.outpoint)))) (hcur : Current won b)
    (hfree : ∀ op ∈ won.map (·.outpoint), Untouched s op) :
    Refines worth ((Store.undoReserveOutpoints R won).run (Backend.exec index cfg now) b).2 s := by
  have hsim : Simulates (Backend.exec index cfg now) (fun b s => Refines worth b s ∧ Current won b)
      (forEach (Store.releaseRow R false) won) (each _ won) :=
    simulates_forEach won fun u hu => simulates_releaseRow hu hR
  obtain ⟨-, h', -⟩ := hsim b _ ⟨h, hcur⟩
  rw [each_map (Inventory.changeOne _ _ _) (fun u : Utxo => u.outpoint),
      release_reserve hfree] at h'
  unfold Store.undoReserveOutpoints
  rw [run_bind]
  exact h'

variable (index cfg userID) in
theorem run_reserveEach (hR : R ≠ "") :
    ∀ (ops : List Outpoint) (errs : List UtxoErr) (won : List Utxo) (b : Backend),
    ops.Nodup → (∀ op ∈ ops, op ∉ won.map (·.outpoint)) → Refines worth b
      (s.reserve now R (won.map (·.outpoint))) →
    Current won b → (∀ op ∈ won.map (·.outpoint), Untouched s op) →
    ((Store.reserveEach now userID R ops errs won).run (Backend.exec index cfg now) b).1
        = errs ++ ops.filterMap (s.reserveRefusal userID R)
      ∧ Refines worth ((Store.reserveEach now userID R ops errs won).run
        (Backend.exec index cfg now) b).2
          (if errs ++ ops.filterMap (s.reserveRefusal userID R) = [] then
            s.reserve now R (won.map (·.outpoint) ++ ops.filter fun op =>
              (s.get op).any (·.reservedBy ≠ R))
           else s)
  | [], errs, won, b, _, _, h, hcur, hfree => by
    simp only [Store.reserveEach, List.filterMap_nil, List.append_nil, List.filter_nil]
    by_cases herr : errs = []
    · simp only [herr, ne_eq, not_true_eq_false, if_false, if_true]
      exact ⟨rfl, h⟩
    · rw [if_neg herr]
      simp only [herr, ne_eq, not_false_eq_true, if_true, run_bind, run_pure, true_and]
      exact run_undoReserveOutpoints hR h hcur hfree
  | op :: ops, errs, won, b, hd, hnew, h, hcur, hfree => by
    obtain ⟨hop, hd⟩ := List.nodup_cons.mp hd
    have hnotin : op ∉ won.map (·.outpoint) := hnew op List.mem_cons_self
    have hnew' : ∀ op ∈ ops, op ∉ won.map (·.outpoint) :=
      fun op h => hnew op (List.mem_cons_of_mem _ h)
    unfold Store.reserveEach
    rw [run_bind]
    rcases href : s.reserveRefusal userID R op with _ | e
    · obtain ⟨row, hrow⟩ := exists_of_reserveRefusal href
      have hrow' : (s.reserve now R (won.map (·.outpoint))).get op = some row :=
        (get_reserve_of_not_mem hnotin).trans hrow
      by_cases hheld : row.reservedBy = R
      · rw [run_reserveOutpointOne_satisfied h ((reserveRefusal_reserve hnotin).trans href)
          hrow' hheld]
        have ih := run_reserveEach hR ops errs won b hd hnew' h hcur hfree
        simpa [List.filterMap_cons, href, hrow, hheld] using ih
      · obtain ⟨r, hr, h', hrun⟩ :=
          run_reserveOutpointOne_won h hR ((reserveRefusal_reserve hnotin).trans href) hrow' hheld
        obtain ⟨-, hrop⟩ := Table.get?_eq_some.mp hr
        have hq := reservable_of_reserveRefusal hrow href hheld
        set u : Utxo := { recordToUTXO r with reservedBy := R, reservedAt := now } with hu
        have hops : (won ++ [u]).map (·.outpoint) = won.map (·.outpoint) ++ [op] := by
          rw [List.map_append, ← hrop]
          rfl
        have hcur' : Current (won ++ [u]) b := by
          intro u' hu' r' hr'
          rcases List.mem_append.mp hu' with hu' | hu'
          · exact hcur u' hu' r' hr'
          · obtain rfl := List.mem_singleton.mp hu'
            obtain rfl : r = r' := Option.some.inj (hr.symm.trans (hrop ▸ hr'))
            exact ⟨rfl, rfl, rfl⟩
        rw [reserve_append hnotin hrow hq, ← hops] at h'
        have ih := run_reserveEach hR ops errs (won ++ [u]) _ hd (fun op' hop' => ?_) h'
          (hcur'.operate op (.reserveOutpoint userID R now)) fun op' hop' => ?_
        · rw [hrun]
          rw [hops, List.append_assoc] at ih
          simpa [List.filterMap_cons, href, hrow, hheld] using ih
        · rw [hops, List.mem_append, List.mem_singleton, not_or]
          exact ⟨hnew' op' hop', fun he => hop (he ▸ hop')⟩
        · rw [hops, List.mem_append, List.mem_singleton] at hop'
          rcases hop' with hop' | rfl
          · exact hfree op' hop'
          · exact fun row hrow => h.untouched hrow' hq row
              ((get_reserve_of_not_mem hnotin).trans hrow)
    · rw [run_reserveOutpointOne_refused h ((reserveRefusal_reserve hnotin).trans href)]
      have ih := run_reserveEach hR ops (errs ++ [e]) won b hd hnew' h hcur hfree
      simpa [List.filterMap_cons, href] using ih

end Reserving

/-- Of the coins that nothing speaks against, those that the token does not hold are reserved. -/
theorem reserve_eq_modify (R : Token) (ops : List Outpoint) (s : Inventory) :
    s.reserve now R (ops.eraseDups.filter fun op => (s.get op).any (·.reservedBy ≠ R))
      = s.modify (fun r => r.outpoint ∈ ops && r.reservedBy ≠ R) (hold now R)
        (hold_outpoint now R) := by
  refine congrArg (Inventory.mk · s.nextSeq) (Table.update_congr fun r hr => ?_)
  have hget : s.get r.outpoint = some r := Inventory.get_eq_some.mpr ⟨hr, rfl⟩
  simp only [List.mem_filter, List.mem_eraseDups, hget, Option.any_some, Bool.decide_and,
      Bool.decide_eq_true]
  rfl

theorem implements_reserveOutpoints (userID : UserID) (R : Token) (ops : List Outpoint) :
    Implements index cfg now worth (Store.reserveOutpoints now userID R ops)
      (Inventory.reserveOutpoints now userID R ops) := by
  intro b s h
  unfold Store.reserveOutpoints Inventory.reserveOutpoints
  rcases hv : validateReserveOutpoints R ops with _ | e
  · have hR : R ≠ "" := fun he => by simp [validateReserveOutpoints, validateReservation, he] at hv
    have hnil : s.reserve now R [] = s :=
      congrArg (Inventory.mk · s.nextSeq) (Table.update_of_forall_not fun _ _ => by simp)
    have hrun := run_reserveEach index cfg userID hR ops.eraseDups [] [] b (nodup_eraseDups ops)
      (fun _ _ => List.not_mem_nil) (by rw [List.map_nil, hnil]; exact h) (fun u hu =>
          (List.not_mem_nil hu).elim)
      fun op hop => (List.not_mem_nil hop).elim
    simp only [List.nil_append, List.map_nil, reserve_eq_modify] at hrun
    simp only
    cases hn : ops.eraseDups.filterMap (s.reserveRefusal userID R) with
    | nil =>
      rw [hn] at hrun
      exact hrun
    | cons e es =>
      rw [hn] at hrun
      exact hrun
  · exact ⟨rfl, h⟩

end Methods

end ArcadeToolbox.Aerostore
