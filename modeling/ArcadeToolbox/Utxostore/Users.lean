import ArcadeToolbox.Utxostore.Holds

/-!
# The coins of one user

Two inventories are alike for a user if they have the same coins of theirs. A call for the user
answers by these coins alone, whatever else is there, and makes the same change in both inventories,
to coins of the user only. A coin of somebody else is as good as absent.
-/

namespace ArcadeToolbox

open Txn

namespace Inventory

variable {s t s' t' : Inventory} {u : UserID} {R : Token} {ops : List Outpoint}
  {now : Time} {sc : Scope}

/-- No two coins have one number. -/
def Numbered (s : Inventory) : Prop := ∀ r ∈ s.rows, ∀ r' ∈ s.rows, r.seq = r'.seq → r = r'

/-- The same coins of the user. -/
def Alike (u : UserID) (s t : Inventory) : Prop := ∀ r : Row, r.userID = u →
    (r ∈ t.rows ↔ r ∈ s.rows)

/-- The same coins of everybody else. -/
def Others (u : UserID) (s s' : Inventory) : Prop := ∀ r : Row, r.userID ≠ u →
    (r ∈ s'.rows ↔ r ∈ s.rows)

/-- The outpoints are coins of the user. -/
def Owns (u : UserID) (ops : List Outpoint) (s : Inventory) : Prop :=
  ∀ op ∈ ops, ∃ r ∈ s.rows, r.outpoint = op ∧ r.userID = u

theorem Others.trans {s'' : Inventory} (h : Others u s s') (h' : Others u s' s'') :
    Others u s s'' := fun r hr =>
  (h' r hr).trans (h r hr)

theorem Owns.alike (h : Owns u ops s) (ha : Alike u s t) : Owns u ops t := by
  intro op hop
  obtain ⟨r, hr, hk, hu⟩ := h op hop
  exact ⟨r, (ha r hu).mpr hr, hk, hu⟩

/-- Whatever is at an outpoint of the user is theirs. -/
theorem Owns.user (h : Owns u ops s) {r : Row} (hr : r ∈ s.rows) (hop : r.outpoint ∈ ops) :
    r.userID = u := by
  obtain ⟨r', hr', hk, hu⟩ := h _ hop
  rwa [Table.eq_of_key hr' hr hk] at hu

theorem owns_nil (s : Inventory) : Owns u [] s := fun _ h => absurd h List.not_mem_nil

theorem Owns.subset {ops' : List Outpoint} (h : Owns u ops s) (hsub : ops' ⊆ ops) : Owns u ops' s :=
  fun op hop =>
  h op (hsub hop)

theorem Owns.append {ops' : List Outpoint} (h : Owns u ops s) (h' : Owns u ops' s) :
    Owns u (ops ++ ops') s := fun op hop =>
  (List.mem_append.mp hop).elim (h op) (h' op)

/-- A change of some coins that keeps who they are. -/
structure Edit where
  on : Row → Bool
  edit : Row → Row
  outpoint : ∀ r, (edit r).outpoint = r.outpoint
  user : ∀ r, (edit r).userID = r.userID
  seq : ∀ r, (edit r).seq = r.seq

def Edit.apply (e : Edit) (s : Inventory) : Inventory := s.modify e.on e.edit e.outpoint

/-- The change touches coins of the user only. -/
def Edit.Within (e : Edit) (u : UserID) (s : Inventory) : Prop :=
  ∀ r ∈ s.rows, e.on r = true → r.userID = u

namespace Edit

variable {e : Edit}

theorem mem_apply {x : Row} : x ∈ (e.apply s).rows ↔ ∃ r ∈ s.rows, x = if e.on r then e.edit r
    else r := mem_modify

theorem user_ite (r : Row) : (if e.on r then e.edit r else r).userID = r.userID := by
  split
  · exact e.user r
  · rfl

theorem numbered (h : Numbered s) : Numbered (e.apply s) := by
  intro x hx x' hx' hseq
  obtain ⟨r, hr, rfl⟩ := mem_apply.mp hx
  obtain ⟨r', hr', rfl⟩ := mem_apply.mp hx'
  have hkept : ∀ r : Row, (if e.on r then e.edit r else r).seq = r.seq := by
    intro r
    split
    · exact e.seq r
    · rfl
  rw [hkept, hkept] at hseq
  rw [h r hr r' hr' hseq]

theorem alike (h : Alike u s t) : Alike u (e.apply s) (e.apply t) := by
  intro x hx
  rw [mem_apply, mem_apply]
  constructor
  · rintro ⟨r, hr, rfl⟩
    exact ⟨r, (h r (user_ite r ▸ hx)).mp hr, rfl⟩
  · rintro ⟨r, hr, rfl⟩
    exact ⟨r, (h r (user_ite r ▸ hx)).mpr hr, rfl⟩

theorem others (h : e.Within u s) : Others u s (e.apply s) := by
  have hoff : ∀ r ∈ s.rows, r.userID ≠ u → (if e.on r then e.edit r else r) = r := fun r hr hu =>
    if_neg fun hon => hu (h r hr hon)
  intro x hx
  rw [mem_apply]
  constructor
  · rintro ⟨r, hr, rfl⟩
    rw [user_ite] at hx
    rwa [hoff r hr hx]
  · intro hx'
    exact ⟨x, hx', (hoff x hx' hx).symm⟩

theorem owns (h : Owns u ops s) : Owns u ops (e.apply s) := by
  intro op hop
  obtain ⟨r, hr, hk, hu⟩ := h op hop
  refine ⟨_, mem_apply.mpr ⟨r, hr, rfl⟩, ?_, (user_ite r).trans hu⟩
  split
  · exact (e.outpoint r).trans hk
  · exact hk

end Edit

theorem Claimed.owns {us : List Utxo} (h : Claimed u R s us s') :
    Owns u (us.map (·.outpoint)) s' := by
  obtain ⟨now, rfl⟩ := h.state
  have howns : Owns u (us.map (·.outpoint)) s := by
    intro op hop
    obtain ⟨r, hr, hk, -, hu, -⟩ := h.free op hop
    exact ⟨r, hr, hk, hu⟩
  exact @Edit.owns s u (us.map (·.outpoint)) ⟨fun r => r.outpoint ∈ us.map (·.outpoint),
    fun r => { r with reservedBy := R, reservedAt := now }, fun _ => rfl, fun _ => rfl,
        fun _ => rfl⟩ howns

/-- A call answers the same in two inventories and makes one change in both, to coins of the
user. -/
def Discreet {α : Type} (u : UserID) (s t : Inventory) (x y : α × Inventory) : Prop :=
  x.1 = y.1 ∧ ∃ e : Edit, x.2 = e.apply s ∧ y.2 = e.apply t ∧ e.Within u s ∧ e.Within u t

theorem discreet_same {α : Type} (a : α) : Discreet u s t (a, s) (a, t) := by
  refine ⟨rfl, ⟨fun _ => false, fun r => r, fun _ => rfl, fun _ => rfl, fun _ => rfl⟩,
      ?_, ?_, ?_, ?_⟩
  · simp [Edit.apply, modify, Table.update_of_forall_not]
  · simp [Edit.apply, modify, Table.update_of_forall_not]
  · simp [Edit.Within]
  · simp [Edit.Within]

theorem select_perm {p : Row → Bool} (h : Alike u s t) (hp : ∀ r, p r = true → r.userID = u) :
    (t.rows.select p).Perm (s.rows.select p) := by
  have hnodup : ∀ s : Inventory, (s.rows.select p).Nodup :=
    fun s => (List.Nodup.of_map _ s.rows.nodup).filter _
  refine (List.perm_ext_iff_of_nodup (hnodup t) (hnodup s)).mpr fun r => ?_
  rw [Table.mem_select, Table.mem_select]
  exact and_congr_left fun hr => h r (hp r hr)

/-- Where coins are told apart by their numbers, the order they are kept in does not matter. -/
theorem insertionSort_select {p : Row → Bool} {le : Row → Row → Prop} [DecidableRel le]
    [IsTrans Row le] [Std.Total le] (hle : ∀ a b, le a b → le b a → a.seq = b.seq) (hn : Numbered s)
    (h : Alike u s t) (hp : ∀ r, p r = true → r.userID = u) :
    (t.rows.select p).insertionSort le = (s.rows.select p).insertionSort le := by
  refine List.Perm.eq_of_pairwise (fun a b ha hb hab hba => ?_) (List.pairwise_insertionSort le _)
    (List.pairwise_insertionSort le _)
    ((List.perm_insertionSort le _).trans
        ((select_perm h hp).trans (List.perm_insertionSort le _).symm))
  have hmem : ∀ x ∈ t.rows.select p, x ∈ s.rows := fun x hx =>
    (Table.mem_select.mp ((select_perm h hp).mem_iff.mp hx)).1
  exact hn a (hmem a ((List.mem_insertionSort le).mp ha)) b
    (Table.mem_select.mp ((List.mem_insertionSort le).mp hb)).1 (hle a b hab hba)

theorem discreet_reserve {α : Type} (now : Time) (R : Token) (a : α) (h : Alike u s t)
    (ho : Owns u ops s) :
    Discreet u s t (a, s.reserve now R ops) (a, t.reserve now R ops) :=
  ⟨rfl, ⟨fun r => r.outpoint ∈ ops, fun r => { r with reservedBy := R, reservedAt := now }, fun _ =>
      rfl, fun _ => rfl,
    fun _ => rfl⟩, rfl, rfl, fun _ hr hop => ho.user hr (of_decide_eq_true hop),
    fun _ hr hop => (ho.alike h).user hr (of_decide_eq_true hop)⟩

theorem user_of_claimable {r : Row} (h : claimable r sc = true) : r.userID = sc.userID :=
  (claimable_iff.mp h).1

theorem owns_of_claimable {rs : List Row} (h : ∀ r ∈ rs, r ∈ s.rows ∧ claimable r sc = true) :
    Owns sc.userID (rs.map (·.outpoint)) s := by
  intro op hop
  obtain ⟨r, hr, rfl⟩ := List.mem_map.mp hop
  exact ⟨r, (h r hr).1, rfl, user_of_claimable (h r hr).2⟩

theorem discreet_claimSmallestSufficient (now : Time) (sc : Scope) (R : Token) (minSats : ℕ)
    (hn : Numbered s)
    (h : Alike sc.userID s t) : Discreet sc.userID s t (s.claimSmallestSufficient now sc R minSats)
      (t.claimSmallestSufficient now sc R minSats) := by
  have hsame : smallest (t.rows.select fun r => claimable r sc && !(r.satoshis < minSats))
      = smallest (s.rows.select fun r => claimable r sc && !(r.satoshis < minSats)) := by
    rw [smallest_eq, smallest_eq, ← head?_insertionSort, ← head?_insertionSort,
      insertionSort_select (fun a b hab hba => by omega) hn h fun r hr => ?_]
    exact user_of_claimable (Bool.and_eq_true_iff.mp hr).1
  unfold claimSmallestSufficient
  rcases validateClaim sc R with _ | e
  · rw [hsame]
    rcases hb : smallest (s.rows.select fun r => claimable r sc && !(r.satoshis < minSats))
        with _ | best
    · exact discreet_same _
    · obtain ⟨hm, hc⟩ := Table.mem_select.mp (smallest_mem hb)
      exact discreet_reserve now R _ h (@owns_of_claimable s sc [best] (by simpa using ⟨hm,
          (Bool.and_eq_true_iff.mp hc).1⟩))
  · exact discreet_same _

theorem discreet_claimFirst (now : Time) (R : Token) {p : Row → Bool} (le : Row → Row → Prop)
    [DecidableRel le] [IsTrans Row le] [Std.Total le]
    (hle : ∀ a b, le a b → le b a → a.seq = b.seq) (hn : Numbered s) (h : Alike sc.userID s t)
    (hp : ∀ r, p r = true → claimable r sc = true) (limit : ℤ) :
    Discreet sc.userID s t (s.claimFirst now R limit ((s.rows.select p).insertionSort le))
      (t.claimFirst now R limit ((t.rows.select p).insertionSort le)) := by
  rw [insertionSort_select hle hn h fun r hr => user_of_claimable (hp r hr)]
  refine discreet_reserve now R _ h (owns_of_claimable fun r hr => ?_)
  obtain ⟨hm, hc⟩ := Table.mem_select.mp ((List.mem_insertionSort le).mp (List.mem_of_mem_take hr))
  exact ⟨hm, hp r hc⟩

theorem Discreet.ok {α ε : Type} {x y : α × Inventory} (h : Discreet u s t x y) :
    Discreet u s t ((.ok x.1 : Except ε α), x.2) (.ok y.1, y.2) :=
  ⟨congrArg Except.ok h.1, h.2⟩

theorem discreet_claimLargestInsufficient (now : Time) (sc : Scope) (R : Token)
    (capSats : ℕ) (limit : ℤ) (hn : Numbered s) (h : Alike sc.userID s t) :
    Discreet sc.userID s t (s.claimLargestInsufficient now sc R capSats limit)
      (t.claimLargestInsufficient now sc R capSats limit) := by
  unfold claimLargestInsufficient
  rcases validateClaim sc R with _ | e
  · by_cases hl : limit ≤ 0
    · simp only [if_pos hl]
      exact discreet_same _
    · simp only [if_neg hl]
      exact (discreet_claimFirst now R Dearer (fun a b hab hba => by omega) hn h
        (fun r hr => (Bool.and_eq_true_iff.mp hr).1) limit).ok
  · exact discreet_same _

/-- The order of the claims for coins of one denomination. -/
abbrev Older (a b : Row) : Prop := a.seq ≤ b.seq

instance : IsTrans Row Older := ⟨fun _ _ _ h h' => Nat.le_trans h h'⟩

instance : Std.Total Older := ⟨fun _ _ => Nat.le_total _ _⟩

theorem discreet_claimExact (now : Time) (sc : Scope) (R : Token) (denomination : ℕ) (count : ℤ)
    (hn : Numbered s)
    (h : Alike sc.userID s t) : Discreet sc.userID s t (s.claimExact now sc R denomination count)
      (t.claimExact now sc R denomination count) := by
  unfold claimExact
  rcases validateClaim sc R with _ | e
  · by_cases hl : count ≤ 0
    · simp only [if_pos hl]
      exact discreet_same _
    · simp only [if_neg hl]
      exact (discreet_claimFirst now R Older (fun a b hab hba => by omega) hn h
        (fun r hr => (Bool.and_eq_true_iff.mp hr).1) count).ok
  · exact discreet_same _

/-- A coin of somebody else is refused as one that does not exist. -/
theorem reserveRefusal_alike (h : Alike u s t) (op : Outpoint) :
    t.reserveRefusal u R op = s.reserveRefusal u R op := by
  have hget : ∀ {s t : Inventory}, Alike u s t → ∀ r, s.get op = some r → r.userID = u →
      t.get op = some r := by
    intro s t h r hr hu
    obtain ⟨hm, hk⟩ := Table.get?_eq_some.mp hr
    exact Table.get?_eq_some.mpr ⟨(h r hu).mpr hm, hk⟩
  have hback : Alike u t s := fun r hu => (h r hu).symm
  unfold reserveRefusal
  rcases hs : s.get op with _ | r
  · rcases ht : t.get op with _ | r'
    · rfl
    · by_cases hu : r'.userID = u
      · rw [hget hback r' ht hu] at hs
        cases hs
      · simp [hu]
  · by_cases hu : r.userID = u
    · rw [hget h r hs hu]
    · rcases ht : t.get op with _ | r'
      · simp [hu]
      · by_cases hu' : r'.userID = u
        · rw [hget hback r' ht hu'] at hs
          cases hs
          exact absurd hu' hu
        · simp [hu, hu']

theorem discreet_reserveOutpoints (now : Time) (R : Token) (ops : List Outpoint) (h : Alike u s t) :
    Discreet u s t (s.reserveOutpoints now u R ops) (t.reserveOutpoints now u R ops) := by
  unfold reserveOutpoints
  rcases validateReserveOutpoints R ops with _ | e
  · have hsame : ops.eraseDups.filterMap (t.reserveRefusal u R) = ops.eraseDups.filterMap
      (s.reserveRefusal u R) :=
      List.filterMap_congr fun op _ => reserveRefusal_alike h op
    dsimp only
    rw [hsame]
    rcases hr : ops.eraseDups.filterMap (s.reserveRefusal u R) with _ | ⟨e, es⟩
    · -- nothing is refused, so every coin is there and of the user
      have howns : Owns u ops s := by
        intro op hop
        have hnone := List.filterMap_eq_nil_iff.mp hr op (List.mem_eraseDups.mpr hop)
        unfold reserveRefusal at hnone
        rcases hg : s.get op with _ | r <;> rw [hg] at hnone
        · cases hnone
        · obtain ⟨hm, hk⟩ := Table.get?_eq_some.mp hg
          by_cases hu : r.userID = u
          · exact ⟨r, hm, hk, hu⟩
          · simp [hu] at hnone
      refine ⟨rfl, ⟨fun r => r.outpoint ∈ ops && r.reservedBy ≠ R, fun r =>
          { r with reservedBy := R, reservedAt := now },
        fun _ => rfl, fun _ => rfl, fun _ => rfl⟩, rfl, rfl, fun r hr hon => ?_, fun r hr hon => ?_⟩
      · exact howns.user hr (of_decide_eq_true (Bool.and_eq_true_iff.mp hon).1)
      · exact (howns.alike h).user hr (of_decide_eq_true (Bool.and_eq_true_iff.mp hon).1)
    · exact discreet_same _
  · exact discreet_same _

theorem discreet_releaseReservation (R : Token) (h : Alike u s t) :
    Discreet u s t (s.releaseReservation u R) (t.releaseReservation u R) := by
  unfold releaseReservation
  rcases validateReservation R with _ | e
  · have hmine : ∀ r : Row, (heldBy r u R && !r.pinned) = true → r.userID = u := by
      intro r hr
      simp only [heldBy, Bool.and_eq_true, decide_eq_true_eq] at hr
      exact hr.1.1.1
    refine ⟨congrArg Except.ok (select_perm h hmine).length_eq.symm,
        ⟨fun r => heldBy r u R && !r.pinned,
      fun r => { r with reservedBy := "", reservedAt := 0 }, fun _ => rfl, fun _ => rfl, fun _ =>
          rfl⟩, rfl, rfl,
      fun r _ => hmine r, fun r _ => hmine r⟩
  · exact discreet_same _

theorem discreet_releaseOutpoints (R : Token) (h : Alike u s t) (ho : Owns u ops s) :
    Discreet u s t (s.releaseOutpoints R ops) (t.releaseOutpoints R ops) := by
  unfold releaseOutpoints
  rcases validateReservation R with _ | e
  · have hnamed : ∀ r : Row, (decide (r.outpoint ∈ ops) && decide (r.reservedBy = R) && decide
      (r.spentBy = none)) = true →
        r.outpoint ∈ ops := by
      intro r hr
      simp only [Bool.and_eq_true, decide_eq_true_eq] at hr
      exact hr.1.1
    exact ⟨rfl, ⟨fun r => r.outpoint ∈ ops && r.reservedBy = R && r.spentBy = none,
      fun r => { r with reservedBy := "", reservedAt := 0, pinned := false }, fun _ => rfl, fun _ =>
          rfl, fun _ => rfl⟩,
      rfl, rfl, fun r hr hon => ho.user hr (hnamed r hon), fun r hr hon =>
          (ho.alike h).user hr (hnamed r hon)⟩
  · exact discreet_same _

theorem any_claimable_alike {q : Row → Bool} (h : Alike sc.userID s t) :
    (t.rows.any fun r => claimable r sc && q r) = s.rows.any fun r => claimable r sc && q r := by
  rw [Bool.eq_iff_iff, Table.any_eq_true, Table.any_eq_true]
  refine exists_congr fun r => and_congr_left fun hr => h r ?_
  exact user_of_claimable (Bool.and_eq_true_iff.mp hr).1

end Inventory

end ArcadeToolbox
