import ArcadeToolbox.Lib.Grouping
import ArcadeToolbox.Utxostore.Reserving

/-!
# Reserving named coins in the SQL store

One transaction reads the rows of the named outpoints in a fixed order, each with a lock, and stamps
them if none of them is refused. Until the transaction ends nobody else changes a row that it has
read. A row that is not there cannot be locked, but it is refused, and then nothing is stamped.
-/

namespace ArcadeToolbox.Sqlstore

open Txn

/-- The order in which the rows are locked. -/
def lockBefore (a b : Outpoint) : Bool := a.txid < b.txid || (a.txid = b.txid && a.vout ≤ b.vout)

/-- The outpoints in the order of the locks, each once. -/
def sortedDistinct (ops : List Outpoint) : List Outpoint := ops.eraseDups.mergeSort lockBefore

theorem mem_sortedDistinct {ops : List Outpoint} {op : Outpoint} : op ∈ sortedDistinct ops
    ↔ op ∈ ops := by
  rw [sortedDistinct, List.mem_mergeSort, List.mem_eraseDups]

theorem nodup_sortedDistinct (ops : List Outpoint) : (sortedDistinct ops).Nodup :=
  (List.mergeSort_perm _ _).nodup_iff.mpr (nodup_eraseDups ops)

/-- The verdict on the row that the locking read found: whether it has to be stamped, or why it is
refused. -/
def classifyForReserve (userID : UserID) (reservation : Token) (op : Outpoint) :
    Option Row → Except UtxoErr Bool
  | none => .error (.notFound op)
  | some r =>
    if r.userID ≠ userID then .error (.notFound op)
    else match r.spentBy with
      | some w => .error (.spent op w)
      | none =>
        if r.reservedBy ≠ "" ∧ r.reservedBy ≠ reservation then .error (.reserved op r.reservedBy)
        else if r.frozen then .error (.frozen op)
        else .ok (r.reservedBy ≠ reservation)

def itemErr : Except UtxoErr Bool → Option UtxoErr
  | .error e => some e
  | .ok _ => none

def needsStamp : Except UtxoErr Bool → Bool
  | .error _ => false
  | .ok b => b

/-- The UPDATE on one row and the number of rows that it changed. -/
def stampUpdate (now : Time) (userID : UserID) (reservation : Token) (op : Outpoint)
    (t : Table Row) : ℕ × Table Row :=
  let p := fun r : Row => r.outpoint = op && (r.userID = userID && r.reservedBy
      = "" && r.spentBy = none)
  ((t.select p).length, t.update p (fun r => { r with reservedBy := reservation,
                                                      reservedAt := now }) fun _ => rfl)

/-- Without an answer a row has changed under its lock, and the transaction fails. -/
def stampEach (now : Time) (userID : UserID) (reservation : Token) : List Outpoint → Table Row →
    Option (Table Row)
  | [], t => some t
  | op :: ops, t =>
    let (n, t) := stampUpdate now userID reservation op t
    if n = 1 then stampEach now userID reservation ops t else none

/-- `read` is what the locking reads found, and `t` the table when the last of them is done. -/
def reserveOutpoints (now : Time) (userID : UserID) (reservation : Token) (ops : List Outpoint)
    (read : Outpoint → Option Row) (t : Table Row) : List UtxoErr × Table Row :=
  match validateReserveOutpoints reservation ops with
  | some e => ([e], t)
  | none =>
    let targets := sortedDistinct ops
    let itemErrs := targets.filterMap fun op =>
        itemErr (classifyForReserve userID reservation op (read op))
    let toStamp := targets.filter fun op =>
        needsStamp (classifyForReserve userID reservation op (read op))
    if itemErrs ≠ [] then (itemErrs, t)
    else
      match stampEach now userID reservation toStamp t with
      | none => ([.invalid "sqlstore: reserve outpoints: a row changed under its own row lock"], t)
      | some t => ([], t)

/-- The rows that were read are as they were read. -/
def Locked (read : Outpoint → Option Row) (ops : List Outpoint) (t : Table Row) : Prop :=
  ∀ op ∈ ops, ∀ r, read op = some r → t.get? op = some r

section Stamps

variable {now : Time} {u : UserID} {R : Token} {op : Outpoint} {t : Table Row}
  {read : Outpoint → Option Row}

theorem classifyForReserve_ok {row : Option Row} {b : Bool}
    (h : classifyForReserve u R op row = .ok b) :
    ∃ r, row = some r ∧ r.userID = u ∧ r.spentBy = none ∧ (r.reservedBy = "" ∨ r.reservedBy = R)
      ∧ b = decide (r.reservedBy ≠ R) := by
  unfold classifyForReserve at h
  rcases row with _ | r
  · cases h
  · refine ⟨r, rfl, ?_⟩
    simp only at h
    split at h
    · cases h
    · rename_i hu
      rcases hs : r.spentBy with _ | w <;> simp only [hs] at h
      · split at h
        · cases h
        · rename_i hb
          split at h
          · cases h
          · refine ⟨not_not.mp hu, rfl, ?_, (Except.ok.inj h).symm⟩
            exact or_iff_not_imp_left.mpr fun hne => not_not.mp fun hne' => hb ⟨hne, hne'⟩
      · cases h

/-- A row of somebody else counts as missing. -/
theorem classifyForReserve_filter (row : Option Row) :
    classifyForReserve u R op (row.filter fun r => r.userID = u) = classifyForReserve u
      R op row := by
  rcases row with _ | r
  · rfl
  · by_cases hu : r.userID = u
    · rw [Option.filter_some_pos (by simpa using hu)]
    · rw [Option.filter_some_neg (by simpa using hu)]
      simp [classifyForReserve, hu]

theorem get?_stampUpdate_ne {op' : Outpoint} (h : op' ≠ op) :
    (stampUpdate now u R op t).2.get? op' = t.get? op' := by
  unfold stampUpdate
  rw [Table.get?_update]
  rcases hr : t.get? op' with _ | r
  · rfl
  · have hop : r.outpoint = op' := (Table.get?_eq_some.mp hr).2
    simp [hop, h]

variable (now R) in
theorem stampUpdate_of {r : Row} (hr : t.get? op = some r) (hu : r.userID = u)
    (hb : r.reservedBy = "")
    (hs : r.spentBy = none) : (stampUpdate now u R op t).1 = 1
      ∧ (stampUpdate now u R op t).2.get? op = some
        { r with reservedBy := R, reservedAt := now } := by
  have hop : r.outpoint = op := (Table.get?_eq_some.mp hr).2
  refine ⟨?_, ?_⟩
  · have hlen := Table.length_select_key (q := fun r : Row => r.userID = u && r.reservedBy
      = "" && r.spentBy = none) t op
    rw [hr] at hlen
    exact hlen.trans (by simp [hu, hb, hs])
  · unfold stampUpdate
    rw [Table.get?_update, hr]
    simp [hop, hu, hb, hs]

variable (now u R) in
theorem stampEach_of : ∀ (l : List Outpoint) (t : Table Row), l.Nodup →
    (∀ op ∈ l, ∃ r, t.get? op = some r ∧ r.userID = u ∧ r.reservedBy = "" ∧ r.spentBy = none) →
    ∃ t', stampEach now u R l t = some t' ∧ (∀ op, op ∉ l → t'.get? op = t.get? op)
      ∧ ∀ op ∈ l, ∀ r, t.get? op = some r → t'.get? op = some
        { r with reservedBy := R, reservedAt := now }
  | [], t, _, _ => ⟨t, rfl, fun _ _ => rfl, fun _ hop => absurd hop List.not_mem_nil⟩
  | op :: l, t, hnd, hfree => by
    obtain ⟨hop, hnd⟩ := List.nodup_cons.mp hnd
    obtain ⟨r, hr, hu, hb, hs⟩ := hfree op List.mem_cons_self
    obtain ⟨hone, hstamped⟩ := stampUpdate_of now R hr hu hb hs
    have hsame : ∀ op' ∈ l, (stampUpdate now u R op t).2.get? op' = t.get? op' := fun op' hop' =>
      get?_stampUpdate_ne fun he => hop (he ▸ hop')
    obtain ⟨t', ht', hothers, hrows⟩ :=
      stampEach_of l (stampUpdate now u R op t).2 hnd fun op' hop' => by
      rw [hsame op' hop']
      exact hfree op' (List.mem_cons_of_mem _ hop')
    refine ⟨t', by simp only [stampEach, hone, if_true, ht'], fun op' hop' => ?_,
        fun op' hop' r' hr' => ?_⟩
    · obtain ⟨hne, hl⟩ := not_or.mp (mt List.mem_cons.mpr hop')
      rw [hothers op' hl, get?_stampUpdate_ne hne]
    · rcases List.mem_cons.mp hop' with rfl | hl
      · obtain rfl := Option.some.inj (hr.symm.trans hr')
        rw [hothers op' hop, hstamped]
      · exact hrows op' hl r' ((hsame op' hl).trans hr')

end Stamps

theorem reserveOutpoints_allOrNothing {now : Time} {u : UserID} {R : Token} {ops : List Outpoint}
    {read : Outpoint → Option Row} {t : Table Row} (h : Locked read ops t) :
    AllOrNothing (fun _ => True) (fun _ => True) u R ops (fun op => (t.get? op).map (·.toUtxo))
      (fun op => ((reserveOutpoints now u R ops read t).2.get? op).map (·.toUtxo))
      (reserveOutpoints now u R ops read t).1 := by
  unfold reserveOutpoints
  rcases hv : validateReserveOutpoints R ops with _ | e
  · simp only
    split_ifs with herrs
    · exact allOrNothing_refused herrs
    · rw [not_not, List.filterMap_eq_nil_iff] at herrs
      -- every target passed, so its row is as it was read
      have hread : ∀ op ∈ ops, ∃ r, t.get? op = some r ∧ r.userID = u ∧ r.spentBy = none
          ∧ (r.reservedBy = "" ∨ r.reservedBy = R)
          ∧ classifyForReserve u R op (read op) = .ok (decide (r.reservedBy ≠ R)) := by
        intro op hop
        have hnone := herrs op (mem_sortedDistinct.mpr hop)
        rcases hc : classifyForReserve u R op (read op) with e | b
        · rw [hc] at hnone
          cases hnone
        · obtain ⟨r, hr, hu, hs, hb, rfl⟩ := classifyForReserve_ok hc
          exact ⟨r, h op hop r hr, hu, hs, hb, rfl⟩
      have hmem : ∀ op, op ∈ (sortedDistinct ops).filter (fun op =>
          needsStamp (classifyForReserve u R op (read op)))
          ↔ op ∈ ops ∧ ∃ r, t.get? op = some r ∧ r.reservedBy ≠ R := by
        intro op
        rw [List.mem_filter, mem_sortedDistinct]
        refine and_congr_right fun hop => ?_
        obtain ⟨r, hr, -, -, -, hc⟩ := hread op hop
        rw [hc]
        simp [needsStamp, hr]
      obtain ⟨t', ht', hothers, hrows⟩ := stampEach_of now u R _ t
        ((nodup_sortedDistinct ops).filter _) fun op hop => by
          obtain ⟨hop, r, hr, hne⟩ := (hmem op).mp hop
          obtain ⟨r', hr', hu, hs, hb, -⟩ := hread op hop
          obtain rfl := Option.some.inj (hr.symm.trans hr')
          exact ⟨r, hr, hu, hb.resolve_right hne, hs⟩
      rw [ht']
      refine allOrNothing_stamped now (validateReserveOutpoints_eq_none hv) (fun op hop =>
          ?_) fun op hop => ?_
      · obtain ⟨r, hr, hu, hs, hb, -⟩ := hread op hop
        refine ⟨r, hr, hu, hs, ?_⟩
        unfold Row.stamped
        split_ifs with hR
        · rw [hothers op fun hmem' => ?_, hr]
          obtain ⟨-, r', hr', hne⟩ := (hmem op).mp hmem'
          exact hne (Option.some.inj (hr.symm.trans hr') ▸ hR)
        · exact hrows op ((hmem op).mpr ⟨hop, r, hr, hR⟩) r hr
      · exact hothers op fun hmem' => hop ((hmem op).mp hmem').1
  · exact allOrNothing_refused (List.cons_ne_nil e [])

theorem reserveOutpoints_filter (now : Time) (u : UserID) (R : Token) (ops : List Outpoint)
    (read : Outpoint → Option Row) (t : Table Row) :
    reserveOutpoints now u R ops (fun op => (read op).filter fun r => r.userID = u) t
      = reserveOutpoints now u R ops read t := by
  simp only [reserveOutpoints, classifyForReserve_filter]

end ArcadeToolbox.Sqlstore
