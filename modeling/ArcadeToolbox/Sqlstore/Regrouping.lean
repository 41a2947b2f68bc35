import ArcadeToolbox.Sqlstore.Spend

/-!
# What the grouping of a batch changes

The first operation that a row takes spends it, and nothing moves it afterwards. The set-based spend
is the same sequence in the order of its groups, with every verdict read at the end. The two agree
if the regrouping does not change the spender of a row, and if no operation on an outpoint comes
before the one its row takes.
-/

namespace ArcadeToolbox

open Txn

/-- The kind of an error, without what it names. -/
inductive UtxoErr.Kind where
  | invalid
  | notFound
  | alreadyExists
  | spent
  | reserved
  | frozen
  | contention
  | unavailable
  deriving DecidableEq, Repr

def UtxoErr.kind : UtxoErr → UtxoErr.Kind
  | .invalid _ => .invalid
  | .notFound _ => .notFound
  | .alreadyExists _ => .alreadyExists
  | .spent _ _ => .spent
  | .reserved _ _ => .reserved
  | .frozen _ => .frozen
  | .contention => .contention
  | .unavailable => .unavailable

namespace Sqlstore

variable (force : Bool)

/-- The operation spends the row. -/
def takes (r : Row) (sp : SpendOp) : Bool :=
  validateSpend sp = none && (r.outpoint = sp.outpoint && guard force sp.reservation r)

/-- What a sequence of operations makes of a row. -/
def spendRow (sps : List SpendOp) (r : Row) : Row :=
  match sps.find? (takes force r) with
  | some sp => recordSpend sp.spendingTxID r
  | none => r

variable {force} {r : Row} {sp : SpendOp} {sps sps' : List SpendOp} {t : Table Row}

theorem takes_eq_true : takes force r sp = true ↔ validateSpend sp = none ∧ r.outpoint = sp.outpoint
    ∧ guard force sp.reservation r = true := by
  simp [takes]

theorem spentBy_of_guard {reservation : Token} (h : guard force reservation r = true) :
    r.spentBy = none := by
  simp only [guard, Bool.and_eq_true, decide_eq_true_eq] at h
  exact h.1

theorem takes_of_spent (h : r.spentBy ≠ none) : takes force r sp = false := by
  by_contra ht
  rw [Bool.not_eq_false, takes_eq_true] at ht
  exact h (spentBy_of_guard ht.2.2)

theorem spendRow_of_find (h : sps.find? (takes force r) = some sp) :
    spendRow force sps r = recordSpend sp.spendingTxID r := by
  simp only [spendRow, h]

theorem spendRow_of_find_none (h : sps.find? (takes force r) = none) :
    spendRow force sps r = r := by
  simp only [spendRow, h]

theorem spendRow_outpoint (sps : List SpendOp) (r : Row) :
    (spendRow force sps r).outpoint = r.outpoint := by
  unfold spendRow
  split <;> rfl

theorem spendRow_of_spent (h : r.spentBy ≠ none) : spendRow force sps r = r :=
  spendRow_of_find_none (List.find?_eq_none.mpr fun sp _ => by simp [takes_of_spent h])

theorem spendRow_append (sps sps' : List SpendOp) (r : Row) :
    spendRow force (sps ++ sps') r = spendRow force sps' (spendRow force sps r) := by
  rcases h : sps.find? (takes force r) with _ | sp
  · rw [spendRow_of_find_none h]
    simp only [spendRow, List.find?_append, h, Option.none_or]
  · have hspent : spendRow force sps' (recordSpend sp.spendingTxID r)
      = recordSpend sp.spendingTxID r :=
      spendRow_of_spent (by simp [recordSpend])
    rw [spendRow_of_find h, hspent]
    exact spendRow_of_find (by rw [List.find?_append, h]; rfl)

/-- A sequence leaves a row that its operations do not take any more. -/
theorem takes_spendRow (h : sp ∈ sps) : takes force (spendRow force sps r) sp = false := by
  rcases hf : sps.find? (takes force r) with _ | w
  · rw [spendRow_of_find_none hf]
    simpa using List.find?_eq_none.mp hf sp h
  · rw [spendRow_of_find hf]
    exact takes_of_spent (by simp [recordSpend])

variable (force) in
def spendTable (sps : List SpendOp) (t : Table Row) : Table Row :=
  t.map (spendRow force sps) (spendRow_outpoint sps)

theorem spendTable_append (sps sps' : List SpendOp) (t : Table Row) :
    spendTable force (sps ++ sps') t = spendTable force sps' (spendTable force sps t) := by
  unfold spendTable
  rw [Table.map_map]
  exact Table.map_eq_map_iff.mpr fun r _ => spendRow_append sps sps' r

variable (force) in
theorem get?_spendTable (sps : List SpendOp) (t : Table Row) (op : Outpoint) :
    (spendTable force sps t).get? op = (t.get? op).map (spendRow force sps) := Table.get?_map

theorem classify_recordSpend (sp : SpendOp) (r : Row) :
    classify force sp (some (recordSpend sp.spendingTxID r)) = (none, false) := by
  simp [classify, recordSpend]

theorem classify_of_spent {w : TxID} (h : r.spentBy = some w) :
    classify force sp (some r) = (if w = sp.spendingTxID then none else some (.spent sp.outpoint w),
      false) := by
  simp only [classify, h]

theorem classify_refused (hv : validateSpend sp = none) (hop : r.outpoint = sp.outpoint)
    (hs : r.spentBy = none)
    (h : takes force r sp = false) : classify force sp (some r)
      = (some (.frozen sp.outpoint), false)
      ∨ classify force sp (some r) = (some (.reserved sp.outpoint r.reservedBy), false) := by
  have hg : guard force sp.reservation r = false := by simpa [takes, hv, hop] using h
  simp only [guard, hs, decide_true, Bool.true_and, Bool.or_eq_false_iff] at hg
  obtain ⟨hforce, hg⟩ := hg
  simp only [classify, hs, hforce, Bool.not_false, Bool.true_and]
  cases hf : r.frozen
  · have hres : r.reservedBy ≠ sp.reservation := by simpa [hf] using hg
    exact Or.inr (by simp [hres])
  · exact Or.inl rfl

theorem classify_retry (hv : validateSpend sp = none) {o : Option Row}
    (h : ∀ r, o = some r → r.outpoint = sp.outpoint ∧ takes force r sp = false) :
    (classify force sp o).2 = false := by
  rcases o with _ | r
  · rfl
  · obtain ⟨hop, ht⟩ := h r rfl
    rcases hs : r.spentBy with _ | w
    · rcases classify_refused hv hop hs ht with h | h <;> rw [h]
    · rw [classify_of_spent hs]

theorem spendUpdate_snd (hv : validateSpend sp = none) (t : Table Row) :
    (spendUpdate force sp t).2 = spendTable force [sp] t := by
  refine Table.eq_of_rows (List.map_congr_left fun r _ => ?_)
  cases hp : (decide (r.outpoint = sp.outpoint) && guard force sp.reservation r) <;>
    simp [spendRow, takes, hv, hp]

theorem spendUpdate_fst (sp : SpendOp) (t : Table Row) : (spendUpdate force sp t).1
    = if (t.get? sp.outpoint).any (guard force sp.reservation) then 1 else 0 :=
  Table.length_select_key t sp.outpoint

theorem spendAttempts_succ (sp : SpendOp) (n : ℕ) (t : Table Row) : spendAttempts force sp (n + 1) t
    = if (spendUpdate force sp t).1 = 1 then (none, (spendUpdate force sp t).2)
      else match classify force sp ((spendUpdate force sp t).2.get? sp.outpoint) with
        | (e, false) => (e, (spendUpdate force sp t).2)
        | (_, true) => spendAttempts force sp n (spendUpdate force sp t).2 := rfl

theorem spendOne_eq (sp : SpendOp) (t : Table Row) : spendOne force sp t
    = ((validateSpend sp).or (classify force sp ((spendTable force [sp] t).get? sp.outpoint)).1,
      spendTable force [sp] t) := by
  unfold spendOne
  rcases hv : validateSpend sp with _ | e
  · have hget := get?_spendTable force [sp] t sp.outpoint
    dsimp only [guardAttempts]
    rw [spendAttempts_succ, spendUpdate_fst, spendUpdate_snd hv]
    cases hany : (t.get? sp.outpoint).any (guard force sp.reservation)
    · have hretry : (classify force sp ((spendTable force [sp] t).get? sp.outpoint)).2 = false := by
        refine classify_retry hv fun r hr => ⟨(Table.get?_eq_some.mp hr).2, ?_⟩
        rw [hget] at hr
        obtain ⟨r0, -, rfl⟩ := Option.map_eq_some_iff.mp hr
        exact takes_spendRow List.mem_cons_self
      rcases hc : classify force sp ((spendTable force [sp] t).get? sp.outpoint) with ⟨e, b⟩
      rw [hc] at hretry
      cases hretry
      rfl
    · obtain ⟨r, hr, hg⟩ := (Option.any_eq_true _ _).mp hany
      have htake : [sp].find? (takes force r) = some sp := by
        simp [takes_eq_true, hv, hg, show r.outpoint = sp.outpoint
            from (Table.get?_eq_some.mp hr).2]
      rw [hget, hr, Option.map_some, spendRow_of_find htake, classify_recordSpend]
      rfl
  · have hsame : spendTable force [sp] t = t :=
      Table.map_id fun r _ => spendRow_of_find_none (by simp [takes, hv])
    rw [hsame]
    rfl

theorem spendEach_cons (sp : SpendOp) (sps : List SpendOp) (t : Table Row) :
    spendEach force (sp :: sps) t
    = ((spendOne force sp t).1 :: (spendEach force sps (spendOne force sp t).2).1,
      (spendEach force sps (spendOne force sp t).2).2) := rfl

theorem spendEach_snd : ∀ (sps : List SpendOp) (t : Table Row),
    (spendEach force sps t).2 = spendTable force sps t
  | [], t => (Table.map_id fun _ _ => rfl).symm
  | sp :: sps, t => by
    rw [spendEach_cons, spendEach_snd sps, spendOne_eq]
    exact (spendTable_append [sp] sps t).symm

theorem length_spendEach : ∀ (sps : List SpendOp) (t : Table Row),
    (spendEach force sps t).1.length = sps.length
  | [], _ => rfl
  | sp :: sps, t => by rw [spendEach_cons, List.length_cons, List.length_cons, length_spendEach sps]

/-- The verdict on an operation comes from the row as it and those before it left it. -/
theorem spendEach_getElem? : ∀ (sps : List SpendOp) (sp : SpendOp) (sps' : List SpendOp)
    (t : Table Row),
    (spendEach force (sps ++ sp :: sps') t).1[sps.length]? = some ((validateSpend sp).or
      (classify force sp ((t.get? sp.outpoint).map (spendRow force (sps ++ [sp])))).1)
  | [], sp, sps', t => by
    rw [List.nil_append, spendEach_cons, spendOne_eq, get?_spendTable]
    rfl
  | sp0 :: sps, sp, sps', t => by
    have ih := spendEach_getElem? sps sp sps' (spendTable force [sp0] t)
    rw [List.cons_append, spendEach_cons, spendOne_eq, List.length_cons, List.getElem?_cons_succ,
        ih, get?_spendTable,
      Option.map_map]
    congr 6
    funext r
    exact (spendRow_append [sp0] (sps ++ [sp]) r).symm

variable {g : SpendGroup} {it : Item}

variable (force) in
/-- The operations of a group are valid and share what its statement holds constant. -/
def Uniform (g : SpendGroup) : Prop := ∀ it ∈ g.ops, validateSpend it.1 = none
  ∧ groupKey force it.1 = (g.spendingTxID, g.reservation)

theorem Uniform.spendingTxID (h : Uniform force g) (hit : it ∈ g.ops) :
    it.1.spendingTxID = g.spendingTxID :=
  congrArg Prod.fst (h it hit).2

theorem Uniform.guard (h : Uniform force g) (hit : it ∈ g.ops) (r : Row) :
    Sqlstore.guard force it.1.reservation r = Sqlstore.guard force g.reservation r := by
  have hkey := congrArg Prod.snd (h it hit).2
  cases force
  · rw [show it.1.reservation = g.reservation from hkey]
  · rfl

/-- The statement of a group takes the rows that one of its operations takes. -/
theorem Uniform.takes (h : Uniform force g) (hit : it ∈ g.ops) (hop : r.outpoint = it.1.outpoint) :
    takes force r it.1 = Sqlstore.guard force g.reservation r := by
  simp [Sqlstore.takes, (h it hit).1, hop, h.guard hit]

theorem writeGroup_snd (h : Uniform force g) (t : Table Row) :
    (writeGroup force g t).2 = spendTable force (g.ops.map Prod.fst) t := by
  refine Table.eq_of_rows (List.map_congr_left fun r _ => ?_)
  rcases hf : (g.ops.map Prod.fst).find? (Sqlstore.takes force r) with _ | sp
  · have hno : (decide (r.outpoint ∈ g.ops.map (·.1.outpoint)) && Sqlstore.guard force g.reservation
      r) = false := by
      by_contra hp
      simp only [Bool.not_eq_false, Bool.and_eq_true, decide_eq_true_eq, List.mem_map] at hp
      obtain ⟨⟨it, hit, hop⟩, hg⟩ := hp
      have hnot := List.find?_eq_none.mp hf it.1 (List.mem_map_of_mem hit)
      rw [h.takes hit hop.symm] at hnot
      exact hnot hg
    rw [spendRow_of_find_none hf]
    exact if_neg (Bool.not_eq_true _ ▸ hno)
  · obtain ⟨it, hit, rfl⟩ := List.mem_map.mp (List.mem_of_find?_eq_some hf)
    obtain ⟨-, hop, hg⟩ := takes_eq_true.mp (List.find?_some hf)
    have hyes : (decide (r.outpoint ∈ g.ops.map (·.1.outpoint)) && Sqlstore.guard force
        g.reservation r) = true := by
      rw [Bool.and_eq_true, decide_eq_true_eq, ← h.guard hit]
      exact ⟨List.mem_map.mpr ⟨it, hit, hop.symm⟩, hg⟩
    rw [spendRow_of_find hf, h.spendingTxID hit]
    exact if_pos hyes

theorem spent_of_not_missed (h : Uniform force g) (hit : it ∈ g.ops)
    (hno : it ∉ (writeGroup force g t).1) :
    ∃ r, (spendTable force (g.ops.map Prod.fst) t).get? it.1.outpoint = some r
      ∧ r.spentBy = some it.1.spendingTxID := by
  have hrec : it.1.outpoint ∈ (t.select fun r => decide (r.outpoint ∈ g.ops.map (·.1.outpoint))
      && Sqlstore.guard force g.reservation r).map (·.outpoint) := by
    by_contra hn
    exact hno (List.mem_filter.mpr ⟨hit, by simpa using hn⟩)
  obtain ⟨r, hr, hop⟩ := List.mem_map.mp hrec
  obtain ⟨hr, hp⟩ := Table.mem_select.mp hr
  simp only [Bool.and_eq_true] at hp
  have htakes : Sqlstore.takes force r it.1 = true := (h.takes hit hop).trans hp.2
  rcases hf : (g.ops.map Prod.fst).find? (Sqlstore.takes force r) with _ | sp
  · exact absurd htakes (by simpa using List.find?_eq_none.mp hf it.1 (List.mem_map_of_mem hit))
  · obtain ⟨it', hit', rfl⟩ := List.mem_map.mp (List.mem_of_find?_eq_some hf)
    refine ⟨recordSpend it'.1.spendingTxID r, ?_, ?_⟩
    · rw [get?_spendTable, Table.get?_eq_some.mpr ⟨hr, hop⟩, Option.map_some, spendRow_of_find hf]
    · rw [h.spendingTxID hit, ← h.spendingTxID hit']
      rfl

/-- What the statements of the groups leave: the table after all their operations, and every
operation that is not missed has spent its row. -/
structure Written (force : Bool) (items : List Item) (t : Table Row)
    (w : List Item × Table Row) : Prop where
  table : w.2 = spendTable force (items.map Prod.fst) t
  missed : ∀ it ∈ w.1, it ∈ items
  spent : ∀ it ∈ items, it ∉ w.1 → ∃ r, w.2.get? it.1.outpoint = some r
      ∧ r.spentBy = some it.1.spendingTxID

theorem writeGroups_cons (g : SpendGroup) (gs : List SpendGroup) (t : Table Row) :
    writeGroups force (g :: gs) t
    = ((writeGroup force g t).1 ++ (writeGroups force gs (writeGroup force g t).2).1,
      (writeGroups force gs (writeGroup force g t).2).2) := rfl

theorem written_writeGroups : ∀ (gs : List SpendGroup) (t : Table Row),
    (∀ g ∈ gs, Uniform force g) →
    Written force (gs.flatMap (·.ops)) t (writeGroups force gs t)
  | [], t, _ =>
    ⟨(Table.map_id fun _ _ => rfl).symm, fun _ h => h, fun _ h => absurd h List.not_mem_nil⟩
  | g :: gs, t, h => by
    have hg := h g List.mem_cons_self
    have ih := written_writeGroups gs (writeGroup force g t).2 fun g' hg' =>
        h g' (List.mem_cons_of_mem g hg')
    rw [writeGroups_cons, List.flatMap_cons]
    refine ⟨?_, ?_, ?_⟩
    · rw [ih.table, writeGroup_snd hg, List.map_append, spendTable_append]
    · intro it hit
      rcases List.mem_append.mp hit with hit | hit
      · exact List.mem_append_left _ (List.mem_filter.mp hit).1
      · exact List.mem_append_right _ (ih.missed it hit)
    · intro it hit hno
      rw [List.mem_append, not_or] at hno
      rcases List.mem_append.mp hit with hit | hit
      · -- the groups after it do not touch a row that is spent
        obtain ⟨r, hr, hs⟩ := spent_of_not_missed hg hit hno.1
        refine ⟨r, ?_, hs⟩
        rw [ih.table, get?_spendTable, writeGroup_snd hg, hr, Option.map_some,
            spendRow_of_spent (by simp [hs])]
      · exact ih.spent it hit hno.2

section Rounds

variable {items : List Item} (hvalid : ∀ it ∈ items, validateSpend it.1 = none)

variable (force) in
/-- The operations in the order of their groups. -/
def regrouped (items : List Item) : List SpendOp :=
  (regroup (fun it : Item => groupKey force it.1) items).map Prod.fst

variable (force) in
include hvalid in
theorem written_spendWriteSet (t : Table Row) :
    Written force (regroup (fun it : Item => groupKey force it.1) items) t
      (spendWriteSet force items t) := by
  have hflat : (groupSpends force items).flatMap (·.ops) = regroup (fun it : Item =>
      groupKey force it.1) items := by
    simp [groupSpends, regroup, List.flatMap_map]
  rw [← hflat]
  refine written_writeGroups _ t fun g hg it hit => ?_
  obtain ⟨g0, hg0, rfl⟩ := List.mem_map.mp hg
  rw [((mem_group _).mp hg0).2] at hit
  obtain ⟨hmem, hkey⟩ := List.mem_filter.mp hit
  exact ⟨hvalid it hmem, by simpa using hkey⟩

/-- What stands at a place after the verdicts are written down. -/
theorem foldl_assign (v : Item → Option UtxoErr) (i : ℕ) (e : Option UtxoErr) : ∀ (l : List Item)
    (errs : ℕ → Option UtxoErr), (∀ it ∈ l, it.2 = i → v it = e) →
    l.foldl (fun errs it => assign errs it.2 (v it)) errs i
      = if i ∈ l.map Prod.snd then e.or (errs i) else errs i
  | [], _, _ => by simp
  | it :: l, errs, h => by
    have ih := foldl_assign v i e l (assign errs it.2 (v it)) fun it' hit' =>
        h it' (List.mem_cons_of_mem it hit')
    rw [List.foldl_cons, ih]
    by_cases hi : it.2 = i
    · have hv := h it List.mem_cons_self hi
      subst hi
      cases e <;> simp [assign, hv]
    · have hne : assign errs it.2 (v it) i = errs i := Function.update_of_ne (Ne.symm hi) _ _
      rw [hne, List.map_cons]
      simp only [List.mem_cons, Ne.symm hi, false_or]

include hvalid in
theorem spendRounds_eq (n : ℕ) (errs : ℕ → Option UtxoErr) (t : Table Row) :
    spendRounds force (n + 1) items errs t
      = ((classifySpendMisses force (spendWriteSet force items t).1 errs
        (spendWriteSet force items t).2).2,
        (spendWriteSet force items t).2) := by
  have hw := written_spendWriteSet force hvalid t
  have hnone : (classifySpendMisses force (spendWriteSet force items t).1 errs
      (spendWriteSet force items t).2).1
      = [] := by
    refine List.filter_eq_nil_iff.mpr fun it hit => ?_
    have hmem := hw.missed it hit
    rw [classify_retry (hvalid it ((mem_regroup _).mp hmem)) ?_]
    · exact Bool.false_ne_true
    · intro r hr
      refine ⟨(Table.get?_eq_some.mp hr).2, ?_⟩
      rw [hw.table, get?_spendTable] at hr
      obtain ⟨r0, -, rfl⟩ := Option.map_eq_some_iff.mp hr
      exact takes_spendRow (List.mem_map_of_mem hmem)
  have hempty : ∀ (n : ℕ) (errs : ℕ → Option UtxoErr) (t : Table Row),
      spendRounds force n [] errs t = (errs, t) := by
    intro n
    induction n with
    | zero => intros; rfl
    | succ n ih => exact fun errs t => ih errs t
  change spendRounds force n (classifySpendMisses force (spendWriteSet force items t).1 errs
    (spendWriteSet force items t).2).1 _ _ = _
  rw [hnone, hempty]
  rfl

end Rounds

theorem mem_pending {ops : List SpendOp} : it ∈ pending ops ↔ ops[it.2]? = some it.1
    ∧ validateSpend it.1 = none := by
  simp [pending, List.mem_zipIdx_iff_getElem?]

theorem valid_of_mem_pending {ops : List SpendOp} (it : Item) (h : it ∈ pending ops) :
    validateSpend it.1 = none :=
  (mem_pending.mp h).2

variable (force) in
theorem written_pending (ops : List SpendOp) (t : Table Row) :
    Written force (regroup (fun it : Item => groupKey force it.1) (pending ops)) t
      (spendWriteSet force (pending ops) t) := written_spendWriteSet force valid_of_mem_pending t

theorem spendSet_eq (ops : List SpendOp) (t : Table Row) : spendSet force ops t
    = (ops.zipIdx.map (fun it => (classifySpendMisses force (spendWriteSet force (pending ops) t).1
      (validation ops)
        (spendWriteSet force (pending ops) t).2).2 it.2),
          (spendWriteSet force (pending ops) t).2) := by
  unfold spendSet
  rw [show guardAttempts = 1 + 1 from rfl, spendRounds_eq valid_of_mem_pending]

theorem spendSet_snd (ops : List SpendOp) (t : Table Row) :
    (spendSet force ops t).2 = spendTable force (regrouped force (pending ops)) t := by
  rw [spendSet_eq]
  exact (written_pending force ops t).table

theorem length_spendSet (ops : List SpendOp) (t : Table Row) :
    (spendSet force ops t).1.length = ops.length := by
  simp [spendSet_eq]

theorem spendSet_getElem? {ops : List SpendOp} {i : ℕ} (h : ops[i]? = some sp) (t : Table Row) :
    (spendSet force ops t).1[i]? = some ((validateSpend sp).or
      (classify force sp ((t.get? sp.outpoint).map
        (spendRow force (regrouped force (pending ops))))).1) := by
  have hw := written_pending force ops t
  have hsame : ∀ it ∈ (spendWriteSet force (pending ops) t).1, it.2 = i → it.1 = sp
      ∧ validateSpend it.1 = none := by
    intro it hit hi
    obtain ⟨hget, hv⟩ := mem_pending.mp ((mem_regroup _).mp (hw.missed it hit))
    rw [hi, h] at hget
    exact ⟨(Option.some.inj hget).symm, hv⟩
  have hfinal : (spendWriteSet force (pending ops) t).2.get? sp.outpoint
      = (t.get? sp.outpoint).map (spendRow force (regrouped force (pending ops))) := by
    rw [hw.table, get?_spendTable]
    rfl
  rw [← hfinal, spendSet_eq]
  simp only [List.getElem?_map, List.getElem?_zipIdx, h, Option.map_some, Nat.zero_add,
      Option.some.injEq]
  dsimp only [classifySpendMisses]
  rw [foldl_assign _ i (classify force sp ((spendWriteSet force (pending ops) t).2.get?
      sp.outpoint)).1]
  · rw [validation, h, Option.bind_some]
    rcases hv : validateSpend sp with _ | e
    · rw [Option.none_or, Option.or_none]
      split
      · rfl
      · -- an operation that was not missed finds its own spend
        rename_i hno
        obtain ⟨r, hr, hs⟩ := hw.spent (sp, i) ((mem_regroup _).mpr (mem_pending.mpr ⟨h, hv⟩))
          fun hit => hno (List.mem_map.mpr ⟨_, hit, rfl⟩)
        rw [hr, classify_of_spent hs]
        simp
    · rw [if_neg]
      · rfl
      · rintro hit
        obtain ⟨it, hit, hi⟩ := List.mem_map.mp hit
        obtain ⟨rfl, hv'⟩ := hsame it hit hi
        rw [hv] at hv'
        cases hv'
  · intro it hit hi
    rw [(hsame it hit hi).1]

variable {ops : List SpendOp}

def validOps (ops : List SpendOp) : List SpendOp := ops.filter fun sp => validateSpend sp = none

theorem map_fst_pending (ops : List SpendOp) : (pending ops).map Prod.fst = validOps ops := by
  have h := List.filter_map (f := Prod.fst) (l := ops.zipIdx) (p := fun sp =>
      decide (validateSpend sp = none))
  rw [List.zipIdx_map_fst] at h
  exact h.symm

theorem find?_regrouped (q : SpendOp → Bool) (ops : List SpendOp) :
    (regrouped force (pending ops)).find? q
    = (validOps ops).findSome? fun a => (validOps ops).find? fun b =>
      groupKey force b = groupKey force a && q b := by
  rw [regrouped, List.find?_map, find?_regroup, ← map_fst_pending, List.findSome?_map,
      List.map_findSome?]
  congr 1
  funext a
  rw [Function.comp_apply, Function.comp_apply, List.find?_map]
  rfl

variable (force) in
/-- The first operation that a row takes is the first on its outpoint, and of the groups, in the
order in which they appear in the batch, the first with an operation that the row takes has the same
spender. -/
def Orderly (ops : List SpendOp) (r : Row) : Prop := ∀ w ∈ ops.find? (takes force r),
  ops.find? (fun sp => validateSpend sp = none && r.outpoint = sp.outpoint) = some w
  ∧ ((validOps ops).findSome? fun a => (validOps ops).find? fun b =>
      groupKey force b = groupKey force a && takes force r b).map (·.spendingTxID)
          = some w.spendingTxID

/-- The regrouping does not change what becomes of an orderly row. -/
theorem spendRow_regrouped (h : Orderly force ops r) :
    spendRow force (regrouped force (pending ops)) r = spendRow force ops r := by
  rcases hf : ops.find? (takes force r) with _ | w
  · have hnone : (regrouped force (pending ops)).find? (takes force r) = none := by
      refine List.find?_eq_none.mpr fun sp hsp => ?_
      obtain ⟨it, hit, rfl⟩ := List.mem_map.mp hsp
      have hget := (mem_pending.mp ((mem_regroup _).mp hit)).1
      exact List.find?_eq_none.mp hf it.1 (List.mem_of_getElem? hget)
    rw [spendRow_of_find_none hf, spendRow_of_find_none hnone]
  · obtain ⟨w', hw', hsame⟩ := Option.map_eq_some_iff.mp (h w hf).2
    rw [← find?_regrouped] at hw'
    rw [spendRow_of_find hf, spendRow_of_find hw', hsame]

theorem spendRow_orderly (h : Orderly force ops r) (hv : validateSpend sp = none)
    (hop : r.outpoint = sp.outpoint)
    (hops : ops = sps ++ sp :: sps') : spendRow force ops r = spendRow force (sps ++ [sp]) r := by
  have hsplit : ops = (sps ++ [sp]) ++ sps' := by simp [hops]
  rcases hf : (sps ++ [sp]).find? (takes force r) with _ | w
  · -- a row that is taken later would have been met by this operation first
    have hnone : ops.find? (takes force r) = none := by
      by_contra hsome
      obtain ⟨w, hw⟩ := Option.ne_none_iff_exists'.mp hsome
      have hfirst := (h w hw).1
      have hmet : ∃ a, (sps ++ [sp]).find? (fun sp => validateSpend sp = none && r.outpoint
          = sp.outpoint) = some a := by
        rw [← Option.ne_none_iff_exists', Ne, List.find?_eq_none]
        exact fun hno => hno sp (by simp) (by simp [hv, hop])
      obtain ⟨a, ha⟩ := hmet
      rw [hsplit, List.find?_append, ha, Option.some_or, Option.some.injEq] at hfirst
      subst hfirst
      exact List.find?_eq_none.mp hf a (List.mem_of_find?_eq_some ha) (List.find?_some hw)
    rw [spendRow_of_find_none hf, spendRow_of_find_none hnone]
  · have hall : ops.find? (takes force r) = some w := by
      rw [hsplit, List.find?_append, hf, Option.some_or]
    rw [spendRow_of_find hf, spendRow_of_find hall]

theorem kinds_eq_iff (ops : List SpendOp) (t : Table Row) :
    (spendSet force ops t).1.map (·.map UtxoErr.kind) = (spendEach force ops t).1.map
    (·.map UtxoErr.kind)
    ↔ ∀ sps sp sps', ops = sps ++ sp :: sps' → validateSpend sp = none →
      (classify force sp ((t.get? sp.outpoint).map
        (spendRow force (regrouped force (pending ops))))).1.map UtxoErr.kind
        = (classify force sp ((t.get? sp.outpoint).map (spendRow force (sps ++ [sp])))).1.map
          UtxoErr.kind := by
  have hset : ∀ sps sp sps', ops = sps ++ sp :: sps' → (spendSet force ops t).1[sps.length]?
      = some ((validateSpend sp).or (classify force sp ((t.get? sp.outpoint).map
        (spendRow force (regrouped force (pending ops))))).1) :=
    fun sps sp sps' hops => spendSet_getElem? (by simp [hops]) t
  have heach : ∀ sps sp sps', ops = sps ++ sp :: sps' → (spendEach force ops t).1[sps.length]?
      = some ((validateSpend sp).or (classify force sp ((t.get? sp.outpoint).map
        (spendRow force (sps ++ [sp])))).1) :=
    fun sps sp sps' hops => by rw [hops, spendEach_getElem?]
  constructor
  · intro h sps sp sps' hops hv
    have hat := congrArg (·[sps.length]?) h
    simp only [List.getElem?_map, hset sps sp sps' hops, heach sps sp sps' hops, hv,
        Option.map_some,
      Option.none_or] at hat
    exact Option.some.inj hat
  · intro h
    refine List.ext_getElem? fun i => ?_
    rw [List.getElem?_map, List.getElem?_map]
    by_cases hi : i < ops.length
    · have hops : ops = ops.take i ++ ops[i] :: ops.drop (i + 1) := by simp
      have hlen : (ops.take i).length = i := List.length_take_of_le (Nat.le_of_lt hi)
      have hs := hset _ _ _ hops
      have he := heach _ _ _ hops
      rw [hlen] at hs he
      rw [hs, he]
      rcases hv : validateSpend ops[i] with _ | e
      · simp only [Option.none_or, Option.map_some, h _ _ _ hops hv]
      · rfl
    · rw [List.getElem?_eq_none (by rw [length_spendSet]; omega),
        List.getElem?_eq_none (by rw [length_spendEach]; omega)]

theorem kind_refused_ne {w : TxID} (hv : validateSpend sp = none) (hop : r.outpoint = sp.outpoint)
    (hs : r.spentBy = none) (h : takes force r sp = false) :
    (classify force sp (some (recordSpend w r))).1.map UtxoErr.kind
      ≠ (classify force sp (some r)).1.map UtxoErr.kind := by
  rw [classify_of_spent (r := recordSpend w r) rfl]
  rcases classify_refused hv hop hs h with hc | hc <;> rw [hc]
      <;> by_cases hw : w = sp.spendingTxID <;>
    simp [hw, UtxoErr.kind]

theorem spend_set_eq_each_iff (force : Bool) (ops : List SpendOp) (t : Table Row) :
    ((spendSet force ops t).2 = (spendEach force ops t).2
      ∧ (spendSet force ops t).1.map (·.map UtxoErr.kind) = (spendEach force ops t).1.map
        (·.map UtxoErr.kind))
    ↔ ∀ r ∈ t, Orderly force ops r := by
  rw [spendSet_snd, spendEach_snd, kinds_eq_iff]
  constructor
  · rintro ⟨htable, hkinds⟩ r hr w hw
    have hrow := Table.map_eq_map_iff.mp htable r hr
    obtain ⟨hvw, hopw, hgw⟩ := takes_eq_true.mp (List.find?_some hw)
    rw [spendRow_of_find hw] at hrow
    constructor
    · obtain ⟨a, ha⟩ : ∃ a, ops.find? (fun sp => validateSpend sp = none && r.outpoint
        = sp.outpoint) = some a := by
        rw [← Option.ne_none_iff_exists', Ne, List.find?_eq_none]
        exact fun hno => hno w (List.mem_of_find?_eq_some hw) (by simp [hvw, hopw])
      obtain ⟨hpa, sps, sps', hops, hbefore⟩ := List.find?_eq_some_iff_append.mp ha
      simp only [Bool.and_eq_true, decide_eq_true_eq] at hpa
      have hnone : sps.find? (takes force r) = none := by
        refine List.find?_eq_none.mpr fun sp hsp htk => ?_
        obtain ⟨hv, hop, -⟩ := takes_eq_true.mp htk
        simpa [hv, hop] using hbefore sp hsp
      cases htk : takes force r a
      · -- it is refused before the spend and told something else at the end
        have hself : t.get? a.outpoint = some r := Table.get?_eq_some.mpr ⟨hr, hpa.2⟩
        have hstay : spendRow force (sps ++ [a]) r = r :=
          spendRow_of_find_none (by simp [List.find?_append, hnone, htk])
        have hk := hkinds sps a sps' hops hpa.1
        rw [hself, Option.map_some, Option.map_some, hrow, hstay] at hk
        exact absurd hk (kind_refused_ne hpa.1 hpa.2 (spentBy_of_guard hgw) htk)
      · have haw : ops.find? (takes force r) = some a := by
          rw [hops, List.find?_append, hnone, Option.none_or, List.find?_cons, htk]
        rw [ha, ← haw]
        exact hw
    · rw [← find?_regrouped]
      rcases hf : (regrouped force (pending ops)).find? (takes force r) with _ | w'
      · rw [spendRow_of_find_none hf] at hrow
        have hs : r.spentBy = some w.spendingTxID := congrArg (fun r : Row => r.spentBy) hrow
        rw [spentBy_of_guard hgw] at hs
        cases hs
      · rw [spendRow_of_find hf] at hrow
        exact congrArg (fun r : Row => r.spentBy) hrow
  · intro h
    have hrows : ∀ r ∈ t, spendRow force (regrouped force (pending ops)) r = spendRow force ops r :=
      fun r hr => spendRow_regrouped (h r hr)
    refine ⟨Table.map_eq_map_iff.mpr hrows, fun sps sp sps' hops hv => ?_⟩
    rcases hg : t.get? sp.outpoint with _ | r
    · rfl
    · obtain ⟨hr, hop⟩ := Table.get?_eq_some.mp hg
      rw [Option.map_some, Option.map_some, hrows r hr, spendRow_orderly (h r hr) hv hop hops]

/-- Two coins reserved for one transaction. -/
def reservedRows : Table Row :=
  ⟨[⟨⟨⟨"parent", 0⟩, 1, "change", 5000, 107, .mined, "ref", 1, none, false, true, 0⟩, 1⟩,
    ⟨⟨⟨"parent", 1⟩, 1, "change", 5000, 107, .mined, "ref", 1, none, false, true, 0⟩, 2⟩], by
        decide⟩

/-- The second coin is claimed for two spenders, and the later operation belongs to the earlier
group. -/
def interleavedOps : List SpendOp :=
  [⟨⟨"parent", 0⟩, "ref", "child"⟩, ⟨⟨"parent", 1⟩, "ref", "rival"⟩,
      ⟨⟨"parent", 1⟩, "ref", "child"⟩]

/-- A stale reservation is named before the one that holds. -/
def staleFirstOps : List SpendOp :=
  [⟨⟨"parent", 0⟩, "stale", "child"⟩, ⟨⟨"parent", 0⟩, "ref", "child"⟩]

theorem spend_set_ne_each :
    (spendEach false interleavedOps reservedRows).2.rows.map
    (·.spentBy) = [some "child", some "rival"]
    ∧ (spendSet false interleavedOps reservedRows).2.rows.map
      (·.spentBy) = [some "child", some "child"]
    ∧ (spendEach false staleFirstOps reservedRows).1 = [some (.reserved ⟨"parent", 0⟩ "ref"), none]
    ∧ (spendSet false staleFirstOps reservedRows).1 = [none, none] := by
  decide

end Sqlstore

end ArcadeToolbox
