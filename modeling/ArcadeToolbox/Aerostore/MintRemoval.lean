import ArcadeToolbox.Aerostore.Refinement

/-!
# The Aerospike inventory refines the reference store: removing what a dead transaction minted

The reference store looks at the rows of all the outpoints and makes its report from them. The
Aerospike inventory removes one coin after the other and adds to the report as it goes. After the
first outpoints of the list its report is the reference store's report for these.
-/

namespace ArcadeToolbox.Aerostore

open Txn Prog

/-- What is reported for a list of outpoints. -/
def mintReport (s : Inventory) (ops : List Outpoint) : RemoveByMintReport where
  removed := (((ops.filterMap s.get).filter Inventory.removable).map (·.outpoint)).eraseDups
  alreadyReserved := Inventory.reservationRefs
    ((ops.filterMap s.get).filter fun r => r.spentBy = none && r.reservedBy ≠ "")
  alreadySpentBy := ((ops.filterMap s.get).filterMap (·.spentBy)).eraseDups

/-- The reference to the holder of the rows of a token, if there are some. -/
def refOf (held : List Row) (token : Token) : Option ReservationRef :=
  match held.filter (fun r => r.reservedBy = token) with
  | [] => none
  | r :: rs => some
      { reservation := token, userID := r.userID,
        reservedAt := rs.foldl (fun t r => min t r.reservedAt) r.reservedAt,
        outpoints := (r :: rs).map (·.outpoint) }

theorem reservationRefs_eq (held : List Row) :
    Inventory.reservationRefs held = (held.map (·.reservedBy)).eraseDups.filterMap
      (refOf held) := rfl

variable {held : List Row}

theorem reservation_refOf {token : Token} {ref : ReservationRef} (h : refOf held token = some ref) :
    ref.reservation = token := by
  unfold refOf at h
  split at h
  · cases h
  · rw [← Option.some.inj h]

/-- The rows of other tokens do not matter. -/
theorem refOf_append_ne {row : Row} {token : Token} (h : row.reservedBy ≠ token) :
    refOf (held ++ [row]) token = refOf held token := by
  unfold refOf
  rw [List.filter_append, List.filter_cons_of_neg (by simpa using h), List.filter_nil,
      List.append_nil]

theorem refOf_append_self {row : Row} {ref : ReservationRef}
    (h : refOf held row.reservedBy = some ref) : refOf (held ++ [row]) row.reservedBy
      = some { ref with reservedAt := if row.reservedAt < ref.reservedAt then row.reservedAt
                          else ref.reservedAt
                        outpoints := ref.outpoints ++ [row.outpoint] } := by
  unfold refOf at h ⊢
  rw [List.filter_append, List.filter_cons_of_pos (by simp), List.filter_nil]
  rcases hf : held.filter (fun r => r.reservedBy = row.reservedBy) with _ | ⟨r, rs⟩
  · rw [hf] at h
    cases h
  · rw [hf] at h
    rw [hf, ← Option.some.inj h]
    simp only [List.cons_append, List.foldl_append, List.foldl_cons, List.foldl_nil,
        List.map_append, List.map_cons,
      List.map_nil, Option.some.injEq, ReservationRef.mk.injEq, true_and, and_true]
    rw [min_comm, min_def_lt]

theorem refOf_isSome {token : Token} (h : token ∈ held.map (·.reservedBy)) :
    ∃ ref, refOf held token = some ref := by
  obtain ⟨r, hr, he⟩ := List.mem_map.mp h
  have hmem : r ∈ held.filter (fun r => r.reservedBy = token) :=
    List.mem_filter.mpr ⟨hr, decide_eq_true he⟩
  unfold refOf
  rcases hf : held.filter (fun r => r.reservedBy = token) with _ | ⟨r', rs⟩
  · rw [hf] at hmem
    cases hmem
  · rw [hf]
    exact ⟨_, rfl⟩

theorem reservationRefs_append (held : List Row) (row : Row) :
    Inventory.reservationRefs (held ++ [row])
    = Store.addReserved row.outpoint row.toUtxo (Inventory.reservationRefs held) := by
  have hmap : (held ++ [row]).map (·.reservedBy) = held.map (·.reservedBy) ++ [row.reservedBy] :=
    List.map_append
  rw [reservationRefs_eq, reservationRefs_eq, hmap, eraseDups_concat]
  unfold Store.addReserved
  split_ifs with hmem hany hany
  · rw [List.map_filterMap]
    refine List.filterMap_congr fun token _ => ?_
    by_cases he : row.reservedBy = token
    · subst he
      obtain ⟨ref, href⟩ := refOf_isSome hmem
      rw [refOf_append_self href, href, Option.map_some, if_pos (reservation_refOf href)]
    · rw [refOf_append_ne he]
      cases href : refOf held token with
      | none => rfl
      | some ref => rw [Option.map_some, if_neg fun h => he (h.symm.trans (reservation_refOf href))]
  · obtain ⟨ref, href⟩ := refOf_isSome hmem
    refine absurd (List.any_eq_true.mpr ⟨ref, ?_, decide_eq_true (reservation_refOf href)⟩) hany
    exact List.mem_filterMap.mpr ⟨_, List.mem_eraseDups.mpr hmem, href⟩
  · obtain ⟨ref, href, he⟩ := List.any_eq_true.mp hany
    obtain ⟨token, htoken, href⟩ := List.mem_filterMap.mp href
    refine absurd (List.mem_eraseDups.mp htoken) ?_
    rw [← reservation_refOf href, of_decide_eq_true he]
    exact hmem
  · rw [List.filterMap_append]
    refine congrArg₂ (· ++ ·) (List.filterMap_congr fun token htoken =>
        refOf_append_ne fun he => ?_) ?_
    · exact hmem (he ▸ List.mem_eraseDups.mp htoken)
    · have hf : held.filter (fun r => r.reservedBy = row.reservedBy) = [] :=
        List.filter_eq_nil_iff.mpr fun r hr he =>
            hmem (List.mem_map.mpr ⟨r, hr, of_decide_eq_true he⟩)
      simp [refOf, List.filter_append, hf]

section Report

variable {s : Inventory} {seen : List Outpoint} {op : Outpoint} {row : Row}

theorem mintReport_absent (h : s.get op = none) :
    mintReport s (seen ++ [op]) = mintReport s seen := by
  unfold mintReport
  rw [List.filterMap_append, List.filterMap_cons_none h, List.filterMap_nil, List.append_nil]

theorem filterMap_get_append (h : s.get op = some row) :
    (seen ++ [op]).filterMap s.get = seen.filterMap s.get ++ [row] := by
  rw [List.filterMap_append, List.filterMap_cons_some h, List.filterMap_nil]

theorem mem_removed (h : s.get op = some row) (hr : Inventory.removable row = true) :
    op ∈ ((seen.filterMap s.get).filter Inventory.removable).map (·.outpoint) ↔ op ∈ seen := by
  constructor
  · intro hop
    obtain ⟨r, hr, rfl⟩ := List.mem_map.mp hop
    obtain ⟨op', hop', hget⟩ := List.mem_filterMap.mp (List.mem_filter.mp hr).1
    obtain ⟨-, rfl⟩ := Inventory.get_eq_some.mp hget
    exact hop'
  · intro hop
    exact List.mem_map.mpr ⟨row, List.mem_filter.mpr ⟨List.mem_filterMap.mpr ⟨op, hop, h⟩, hr⟩,
      (Inventory.get_eq_some.mp h).2⟩

theorem mintReport_removed (h : s.get op = some row) (hr : Inventory.removable row = true) :
    mintReport s (seen ++ [op]) = if op ∈ seen then mintReport s seen
      else { mintReport s seen with removed := (mintReport s seen).removed ++ [op] } := by
  obtain ⟨-, hop⟩ := Inventory.get_eq_some.mp h
  have hfree : row.spentBy = none ∧ row.reservedBy = "" := by simpa [Inventory.removable] using hr
  unfold mintReport
  simp only [filterMap_get_append h, List.filter_append, List.filterMap_append, List.filter_cons,
      List.filterMap_cons,
    hr, hfree.1, hfree.2, List.filter_nil, List.filterMap_nil, List.append_nil, List.map_append,
        List.map_cons,
    List.map_nil, hop, eraseDups_concat, mem_removed h hr, ne_eq, not_true_eq_false, decide_false,
        Bool.and_false,
    Bool.false_eq_true, if_true, if_false]
  split_ifs <;> rfl

theorem mintReport_spent (h : s.get op = some row) {w : TxID} (hw : row.spentBy = some w) :
    mintReport s (seen ++ [op]) = Store.addSpender (mintReport s seen) w := by
  have hremovable : Inventory.removable row = false := by simp [Inventory.removable, hw]
  unfold mintReport Store.addSpender
  simp only [filterMap_get_append h, List.filter_append, List.filterMap_append, List.filter_cons,
      List.filterMap_cons,
    hremovable, hw, List.filter_nil, List.filterMap_nil, List.append_nil, eraseDups_concat,
        List.mem_eraseDups,
    reduceCtorEq, decide_false, Bool.false_and, Bool.false_eq_true, if_false]
  split_ifs <;> rfl

theorem mintReport_reserved (h : s.get op = some row) (hs : row.spentBy = none)
    (hR : row.reservedBy ≠ "") :
    mintReport s (seen ++ [op]) = { mintReport s seen with
      alreadyReserved := Store.addReserved op row.toUtxo (mintReport s seen).alreadyReserved } := by
  obtain ⟨-, rfl⟩ := Inventory.get_eq_some.mp h
  have hremovable : Inventory.removable row = false := by simp [Inventory.removable, hR]
  unfold mintReport
  simp only [filterMap_get_append h, List.filter_append, List.filterMap_append, List.filter_cons,
      List.filterMap_cons,
    hremovable, hs, hR, List.filter_nil, List.filterMap_nil, List.append_nil,
        reservationRefs_append, ne_eq,
    not_false_eq_true, decide_true, Bool.and_true, Bool.false_eq_true, if_true, if_false]

end Report

section Method

variable {index : ℕ → List Record → List Record} {cfg : Config} {now : Time} {worth : Outpoint → ℕ}
  {b : Backend}
  {s : Inventory} {op : Outpoint} {row : Row}

theorem Same.phantom {r : Record} (h : Same worth r row) :
    DeleteGuard.phantom.holds r = Inventory.removable row := by
  rw [Bool.eq_iff_iff]
  simp only [DeleteGuard.holds, Inventory.removable, Bool.and_eq_true, Option.isNone_iff_eq_none,
      decide_eq_true_eq,
    h.resBy_eq_none, h.spentBy]
  exact and_comm

theorem run_removeMintTxOp_gone (h : Refines worth b s) (hrow : s.get op = none) (n : ℕ) :
    (Store.removeMintTxOp op (n + 1)).run (Backend.exec index cfg now) b = (.ok .gone, b) := by
  rw [Store.removeMintTxOp, run_bind, run_getRecord]
  rcases hr : b.server.get? op with _ | r
  · rfl
  · obtain ⟨row, hrow', -⟩ := h.get_some hr
    rw [hrow] at hrow'
    cases hrow'

theorem run_removeMintTxOp_survivor (h : Refines worth b s) (hrow : s.get op = some row)
    (hr : Inventory.removable row = false) (n : ℕ) :
    (Store.removeMintTxOp op (n + 1)).run (Backend.exec index cfg now) b
      = (.ok (.survivor row.toUtxo), b) := by
  obtain ⟨r, hrec, hs⟩ := h.get_row hrow
  rw [Store.removeMintTxOp, run_bind, run_getRecord, hrec]
  have hheld : row.spentBy ≠ none ∨ row.reservedBy ≠ "" := by
    simpa [Inventory.removable, or_iff_not_imp_left] using hr
  simp only [hs.utxo, if_pos hheld]
  rfl

theorem run_removeMintTxOp_removed (h : Refines worth b s) (hrow : s.get op = some row)
    (hr : Inventory.removable row = true) (n : ℕ) :
    ∃ b', (Store.removeMintTxOp op (n + 1)).run (Backend.exec index cfg now) b = (.ok .removed, b')
      ∧ Refines worth b' (s.drop fun r => r.outpoint = op && Inventory.removable r) := by
  obtain ⟨r, hrec, hs⟩ := h.get_row hrow
  rw [Store.removeMintTxOp, run_bind, run_getRecord, hrec]
  have hfree : ¬(row.spentBy ≠ none ∨ row.reservedBy ≠ "") := by
    simpa [Inventory.removable, not_or] using hr
  obtain ⟨hremoved, h'⟩ := h.delete op .phantom (q := Inventory.removable) fun r row _ hs =>
      hs.phantom
  rw [Inventory.dropOne_of _ hrow hr] at hremoved h'
  simp only [hs.utxo, if_neg hfree, run_bind, run_delete, of_decide_eq_true hremoved]
  exact ⟨_, rfl, h'⟩

/-- The inventory without the coins that could be removed for these outpoints. -/
def settled (s : Inventory) (seen : List Outpoint) : Inventory :=
  s.drop fun r => r.outpoint ∈ seen && Inventory.removable r

theorem settled_append (s : Inventory) (seen : List Outpoint) (op : Outpoint) :
    settled s (seen ++ [op])
    = (settled s seen).drop fun r => r.outpoint = op && Inventory.removable r := by
  simp only [settled, Inventory.drop, Table.delete_delete, List.mem_append, List.mem_singleton,
      Bool.decide_or,
    Bool.and_or_distrib_right]

theorem settled_append_of (seen : List Outpoint)
    (h : ∀ row, (settled s seen).get op = some row → Inventory.removable row = false) :
    settled s (seen ++ [op]) = settled s seen := by
  rw [settled_append]
  exact congrArg Prod.snd (Inventory.dropOne_of_not Inventory.removable h)

theorem get_settled (s : Inventory) (seen : List Outpoint) (op : Outpoint) :
    (settled s seen).get op = (s.get op).filter fun r => !(op ∈ seen && Inventory.removable r) := by
  unfold settled
  rw [Inventory.get_drop]
  cases hr : s.get op with
  | none => rfl
  | some row =>
    obtain ⟨-, rfl⟩ := Inventory.get_eq_some.mp hr
    rfl

/-- A coin that is not there was not there before, or has been removed and reported. -/
theorem mintReport_gone {seen : List Outpoint} (h : (settled s seen).get op = none) :
    mintReport s (seen ++ [op]) = mintReport s seen := by
  rw [get_settled] at h
  cases hrow : s.get op with
  | none => exact mintReport_absent hrow
  | some row =>
    rw [hrow, Option.filter_eq_none_iff] at h
    have hgone := h row rfl
    simp only [Bool.not_eq_true', Bool.not_eq_false, Bool.and_eq_true, decide_eq_true_eq] at hgone
    rw [mintReport_removed hrow hgone.2, if_pos hgone.1]

/-- The coins that can be removed are gone for the outpoints so far, and the report is the one for
these. -/
theorem run_settleMintTx (s : Inventory) : ∀ (ops seen : List Outpoint) (b : Backend),
    Refines worth b (settled s seen) →
    ((Store.settleMintTx ops (mintReport s seen)).run (Backend.exec index cfg now) b).1 = .ok
    (mintReport s (seen ++ ops))
      ∧ Refines worth ((Store.settleMintTx ops (mintReport s seen)).run
        (Backend.exec index cfg now) b).2
          (settled s (seen ++ ops))
  | [], seen, b, h => by
    rw [List.append_nil]
    exact ⟨rfl, h⟩
  | op :: ops, seen, b, h => by
    have hnext := run_settleMintTx s ops (seen ++ [op])
    rw [List.append_assoc, List.singleton_append] at hnext
    unfold Store.settleMintTx
    rw [run_bind, show Store.casAttempts = 1 + 1 from rfl]
    rcases hget : (settled s seen).get op with _ | row
    · rw [run_removeMintTxOp_gone h hget]
      rw [mintReport_gone hget] at hnext
      refine hnext b ?_
      rw [settled_append_of seen fun row hr => by rw [hget] at hr; cases hr]
      exact h
    · have hfilter := hget
      rw [get_settled, Option.filter_eq_some_iff] at hfilter
      obtain ⟨hrow, hkept⟩ := hfilter
      cases hr : Inventory.removable row with
      | true =>
        have hseen : op ∉ seen := by simpa [hr] using hkept
        obtain ⟨b', hrun, h'⟩ := run_removeMintTxOp_removed h hget hr 1
        rw [hrun]
        rw [mintReport_removed hrow hr, if_neg hseen] at hnext
        refine hnext b' ?_
        rw [settled_append]
        exact h'
      | false =>
        rw [run_removeMintTxOp_survivor h hget hr]
        have h' : Refines worth b (settled s (seen ++ [op])) := by
          rw [settled_append_of seen fun row' hrow' => by
              rwa [← Option.some.inj (hget.symm.trans hrow')]]
          exact h
        cases hs : row.spentBy with
        | some w =>
          rw [mintReport_spent hrow hs] at hnext
          simp only [hs]
          exact hnext b h'
        | none =>
          have hR : row.reservedBy ≠ "" := by simpa [Inventory.removable, hs] using hr
          rw [mintReport_reserved hrow hs hR] at hnext
          simp only [hs, if_pos hR]
          exact hnext b h'

theorem implements_removeByMintTx (t : TxID) (ops : List Outpoint) :
    Implements index cfg now worth (Store.removeByMintTx t ops)
      (Inventory.removeByMintTx t ops) := by
  intro b s h
  unfold Store.removeByMintTx Inventory.removeByMintTx
  rcases hv : validateMintOutpoints t ops with _ | e
  · have hnil : settled s [] = s :=
      congrArg (Inventory.mk · s.nextSeq) (Table.delete_of_forall_not fun _ _ => by simp)
    exact run_settleMintTx s ops [] b (hnil.symm ▸ h)
  · exact ⟨rfl, h⟩

end Method

end ArcadeToolbox.Aerostore
