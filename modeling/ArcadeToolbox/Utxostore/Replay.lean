import ArcadeToolbox.Aerostore.Conformance

/-!
# A call made twice

Every method of the reference store but the claims can be repeated: the second call leaves the
inventory as the first left it, and reports nothing new. A row that a call has changed no longer
meets its guard, or meets it and is left alone; an item that was refused is refused again, or finds
that another item of its own batch has done its work.
-/

namespace ArcadeToolbox

open Txn Aerostore

/-- Every call but the claims. -/
def StoreOp.repeatable : StoreOp → Bool
  | .claimSmallestSufficient .. | .claimLargestInsufficient .. | .claimExact .. => false
  | _ => true

/-- The second answer goes with the first: no row was newly changed, an item that succeeded succeeds
again, and so does a call; a coin that is in the way still is. -/
def Aerostore.StoreAnswer.Again : StoreAnswer → StoreAnswer → Prop
  | .items es, .items es' => List.Forall₂ (fun e e' => e = none → e' = none) es es'
  | .refusals es, .refusals es' => es' = es
  | .count n, .count n' => n' = n.map fun _ => 0
  | .unit r, .unit r' => r' = r
  | .report r, .report r' => r' = r.map fun r => { r with removed := [] }
  | _, _ => False

namespace Inventory

variable {s : Inventory}

section Rows

variable {p : Row → Bool} {f : Row → Row} {hf : ∀ r, (f r).outpoint = r.outpoint}

theorem modify_of_forall_not (h : ∀ r ∈ s.rows, p r = false) : s.modify p f hf = s :=
  congrArg (Inventory.mk · s.nextSeq) (Table.update_of_forall_not h)

theorem drop_of_forall_not (h : ∀ r ∈ s.rows, p r = false) : s.drop p = s :=
  congrArg (Inventory.mk · s.nextSeq) (Table.delete_of_forall_not h)

theorem select_eq_nil (h : ∀ r ∈ s.rows, p r = false) : s.rows.select p = [] :=
  List.filter_eq_nil_iff.mpr fun r hr => by simp [h r hr]

/-- A row that was changed is not changed again. -/
theorem not_of_mem_modify (h : ∀ r, p r = true → p (f r) = false) : ∀ r ∈ (s.modify p f hf).rows,
    p r = false := by
  intro x hx
  obtain ⟨r, -, rfl⟩ := mem_modify.mp hx
  split_ifs with hp
  · exact h r hp
  · exact Bool.eq_false_iff.mpr hp

theorem not_of_mem_drop : ∀ r ∈ (s.drop p).rows, p r = false := by
  intro r hr
  have hkeep := (List.mem_filter.mp hr).2
  simpa using hkeep

/-- The count and the rows of a change that is made twice. -/
theorem modify_again (hf : ∀ r, (f r).outpoint = r.outpoint)
    (h : ∀ r, p r = true → p (f r) = false) :
    ((s.modify p f hf).rows.select p).length = 0 ∧ (s.modify p f hf).modify p f hf
      = s.modify p f hf :=
  ⟨by rw [select_eq_nil (not_of_mem_modify h)]; rfl, modify_of_forall_not (not_of_mem_modify h)⟩

theorem drop_again : ((s.drop p).rows.select p).length = 0 ∧ (s.drop p).drop p = s.drop p :=
  ⟨by rw [select_eq_nil not_of_mem_drop]; rfl, drop_of_forall_not not_of_mem_drop⟩

end Rows

/-- The mint was refused as malformed, or its outpoint has a coin; the one it describes if it
succeeded. -/
structure MintSettled (m : Mint) (e : Option UtxoErr) (s : Inventory) : Prop where
  present : validateMint m = none → (s.get m.outpoint).isSome = true
  ok : e = none → validateMint m = none ∧ ∀ r, s.get m.outpoint = some r → Identifies m r

theorem mintSettled_done (now : Time) (m : Mint) (s : Inventory) :
    MintSettled m (mintOne now m s).1 (mintOne now m s).2 := by
  refine ⟨fun hv => ?_, fun he => ⟨(mintOne_eq_none.mp he).1, fun r hr => ?_⟩⟩
  · rcases mintOne_cases now m s with ⟨he, ⟨-, hne⟩ | ⟨-, r, hr, -⟩⟩ | ⟨-, hn, he⟩
    · exact absurd hv hne
    · rw [he, hr]
      rfl
    · rw [he]
      have hget : (s.rows.insert (minted now (s.nextSeq + 1) m)).get? m.outpoint = some _ :=
        Table.get?_insert_self hn
      exact Option.isSome_iff_exists.mpr ⟨_, hget⟩
  · obtain ⟨r', hr', hid⟩ := identifies_mintOne he
    rw [hr] at hr'
    cases hr'
    exact hid

variable {e : Option UtxoErr}

theorem MintSettled.keep {m : Mint} (h : MintSettled m e s) (now : Time) (m' : Mint) :
    MintSettled m e (mintOne now m' s).2 := by
  have hget : ∀ r, s.get m.outpoint = some r → (mintOne now m' s).2.get m.outpoint = some r :=
    fun r hr => get_mintOne_of_some hr
  refine ⟨fun hv => ?_, fun he => ⟨(h.ok he).1, fun r hr => ?_⟩⟩
  · obtain ⟨r, hr⟩ := Option.isSome_iff_exists.mp (h.present hv)
    rw [hget r hr]
    rfl
  · obtain ⟨r', hr'⟩ := Option.isSome_iff_exists.mp (h.present (h.ok he).1)
    rw [hget r' hr'] at hr
    cases hr
    exact (h.ok he).2 _ hr'

theorem mintOne_settled {m : Mint} (h : MintSettled m e s) (now : Time) :
    (mintOne now m s).2 = s := by
  rcases mintOne_cases now m s with ⟨he, -⟩ | ⟨hv, hn, -⟩
  · exact he
  · have hsome := h.present hv
    rw [hn] at hsome
    cases hsome

theorem mint_again (now now' : Time) (ms : List Mint) :
    ((s.mint now ms).2.mint now' ms).2 = (s.mint now ms).2
      ∧ List.Forall₂ (fun e e' => e = none → e' = none) (s.mint now ms).1
        ((s.mint now ms).2.mint now' ms).1 := by
  rw [mint_eq_each, mint_eq_each]
  exact each_again (fun m s => mintSettled_done now m s) (fun _ _ m' _ h => h.keep now m')
    (fun _ _ _ h => mintOne_settled h now') (fun _ _ _ h he => mintOne_eq_none.mpr (h.ok he)) ms s

/-- The spend was refused for good, or has happened. -/
structure SpendSettled (sp : SpendOp) (force : Bool) (e : Option UtxoErr)
    (s : Inventory) : Prop where
  blocked : validateSpend sp = none → ∀ r, s.get sp.outpoint = some r → r.spentBy = none →
    force = false ∧ (r.frozen = true ∨ r.reservedBy ≠ sp.reservation)
  ok : e = none → validateSpend sp = none ∧ ∃ r, s.get sp.outpoint = some r
      ∧ r.spentBy = some sp.spendingTxID

/-- A spend leaves the freeze and the holder of every coin, and a spend that is recorded. -/
theorem get_spendOne (sp : SpendOp) (force : Bool) {op : Outpoint} {r' : Row}
    (h : (spendOne sp force s).2.get op = some r') : ∃ r, s.get op = some r ∧ r'.frozen = r.frozen
      ∧ r'.reservedBy = r.reservedBy ∧ (r'.spentBy = none → r.spentBy = none) := by
  rcases spendOne_cases sp force s with he | ⟨-, he⟩ <;> rw [he] at h
  · exact ⟨r', h, rfl, rfl, id⟩
  · rw [get_modify] at h
    obtain ⟨r, hr, rfl⟩ := Option.map_eq_some_iff.mp h
    refine ⟨r, hr, ?_⟩
    split_ifs
    · exact ⟨rfl, rfl, fun h => by cases h⟩
    · exact ⟨rfl, rfl, id⟩

theorem get_spendOne_of_spent (sp : SpendOp) (force : Bool) {op : Outpoint} {r : Row} {w : TxID}
    (hr : s.get op = some r)
    (hw : r.spentBy = some w) : ∃ r', (spendOne sp force s).2.get op = some r'
      ∧ r'.spentBy = some w := by
  rcases spendOne_cases sp force s with he | ⟨⟨x, hx, hnone⟩, he⟩ <;> rw [he]
  · exact ⟨r, hr, hw⟩
  · have hne : r.outpoint ≠ sp.outpoint := by
      intro hop
      rw [(get_eq_some.mp hr).2] at hop
      rw [hop, hx] at hr
      cases hr
      rw [hnone] at hw
      cases hw
    refine ⟨r, ?_, hw⟩
    rw [get_modify, hr, Option.map_some, if_neg (by simpa using hne)]

variable {sp : SpendOp}

theorem spendOne_of_unspent (force : Bool) {r : Row} (hv : validateSpend sp = none)
    (hr : s.get sp.outpoint = some r) (hs : r.spentBy = none) :
    (force = false ∧ (r.frozen = true ∨ r.reservedBy ≠ sp.reservation))
        ∧ (spendOne sp force s).1 ≠ none ∧ (spendOne sp force s).2 = s
      ∨ ¬ (force = false ∧ (r.frozen = true ∨ r.reservedBy ≠ sp.reservation))
        ∧ spendOne sp force s = (none, s.modify (fun r => r.outpoint = sp.outpoint)
          (fun r => { r with spentBy := some sp.spendingTxID, pinned := false }) fun _ => rfl) := by
  unfold spendOne
  simp only [hv, hr, hs]
  split_ifs with hfrozen hheld
  · left
    simp only [Bool.and_eq_true, Bool.not_eq_true'] at hfrozen
    exact ⟨⟨hfrozen.1, Or.inl hfrozen.2⟩, by simp⟩
  · left
    simp only [Bool.and_eq_true, Bool.not_eq_true', decide_eq_true_eq] at hheld
    exact ⟨⟨hheld.1, Or.inr hheld.2⟩, by simp⟩
  · right
    refine ⟨fun hblocked => ?_, rfl⟩
    simp only [hblocked.1, Bool.not_false, Bool.true_and, decide_eq_true_eq] at hfrozen hheld
    exact hblocked.2.elim hfrozen hheld

theorem spendOne_of_spent (force : Bool) {r : Row} {w : TxID} (hv : validateSpend sp = none)
    (hr : s.get sp.outpoint = some r) (hw : r.spentBy = some w) :
    spendOne sp force s = (if w = sp.spendingTxID then none
      else some (.spent sp.outpoint w), s) := by
  unfold spendOne
  simp only [hv, hr, hw]

theorem spendOne_of_absent (force : Bool) (hv : validateSpend sp = none)
    (hn : s.get sp.outpoint = none) :
    spendOne sp force s = (some (.notFound sp.outpoint), s) := by
  unfold spendOne
  simp only [hv, hn]

theorem spendOne_of_invalid (force : Bool) {e : UtxoErr} (hv : validateSpend sp = some e) :
    spendOne sp force s = (some e, s) := by
  unfold spendOne
  simp only [hv]

theorem spendSettled_done (sp : SpendOp) (force : Bool) (s : Inventory) :
    SpendSettled sp force (spendOne sp force s).1 (spendOne sp force s).2 := by
  rcases hv : validateSpend sp with _ | e
  · rcases hg : s.get sp.outpoint with _ | r
    · rw [spendOne_of_absent force hv hg]
      refine ⟨fun _ r hr => ?_, fun h => (by cases h)⟩
      rw [hg] at hr
      cases hr
    · rcases hs : r.spentBy with _ | w
      · rcases spendOne_of_unspent force hv hg hs with ⟨hblocked, hne, he⟩ | ⟨-, he⟩
        · rw [he]
          refine ⟨fun _ r' hr' _ => ?_, fun h => absurd h hne⟩
          rw [hg] at hr'
          cases hr'
          exact hblocked
        · have hget : (spendOne sp force s).2.get sp.outpoint
              = some { r with spentBy := some sp.spendingTxID, pinned := false } := by
            rw [he, get_modify, hg, Option.map_some, if_pos (by simpa using (get_eq_some.mp hg).2)]
          refine ⟨fun _ r' hr' hnone => ?_, fun _ => ⟨hv, _, hget, rfl⟩⟩
          rw [hget] at hr'
          cases hr'
          cases hnone
      · rw [spendOne_of_spent force hv hg hs]
        refine ⟨fun _ r' hr' hnone => ?_, fun h => ⟨hv, r, hg, ?_⟩⟩
        · rw [hg] at hr'
          cases hr'
          rw [hs] at hnone
          cases hnone
        · dsimp only at h
          split_ifs at h with hw
          exact hw ▸ hs
  · rw [spendOne_of_invalid force hv]
    refine ⟨fun h => ?_, fun h => (by cases h)⟩
    rw [hv] at h
    cases h

theorem SpendSettled.keep {force : Bool} (h : SpendSettled sp force e s) (sp' : SpendOp) :
    SpendSettled sp force e (spendOne sp' force s).2 := by
  refine ⟨fun hv r' hr' hnone => ?_, fun he => ?_⟩
  · obtain ⟨r, hr, hfrozen, hheld, hspent⟩ := get_spendOne sp' force hr'
    rw [hfrozen, hheld]
    exact h.blocked hv r hr (hspent hnone)
  · obtain ⟨hv, r, hr, hw⟩ := h.ok he
    exact ⟨hv, get_spendOne_of_spent sp' force hr hw⟩

theorem spendOne_settled {force : Bool} (h : SpendSettled sp force e s) :
    (spendOne sp force s).2 = s ∧ (e = none → (spendOne sp force s).1 = none) := by
  refine ⟨?_, fun he => ?_⟩
  · rcases hv : validateSpend sp with _ | e
    · rcases hg : s.get sp.outpoint with _ | r
      · rw [spendOne_of_absent force hv hg]
      · rcases hs : r.spentBy with _ | w
        · rcases spendOne_of_unspent force hv hg hs with ⟨-, -, he⟩ | ⟨hfree, -⟩
          · exact he
          · exact absurd (h.blocked hv r hg hs) hfree
        · rw [spendOne_of_spent force hv hg hs]
    · rw [spendOne_of_invalid force hv]
  · obtain ⟨hv, r, hr, hw⟩ := h.ok he
    rw [spendOne_of_spent force hv hr hw, if_pos rfl]

theorem spend_again (force : Bool) (sps : List SpendOp) :
    ((s.spend force sps).2.spend force sps).2 = (s.spend force sps).2
      ∧ List.Forall₂ (fun e e' => e = none → e' = none) (s.spend force sps).1
        ((s.spend force sps).2.spend force sps).1 := by
  rw [spend_eq_each, spend_eq_each]
  exact each_again (fun sp s => spendSettled_done sp force s) (fun _ _ sp' _ h => h.keep sp')
    (fun _ _ _ h => (spendOne_settled h).1) (fun _ _ _ h => (spendOne_settled h).2) sps s

theorem setFrozen_again (ops : List Outpoint) (frozen : Bool) :
    (s.setFrozen ops frozen).2.setFrozen ops frozen = s.setFrozen ops frozen := by
  have hget : ∀ op, ((s.setFrozen ops frozen).2.get op).isNone = (s.get op).isNone := fun op => by
    rw [setFrozen, get_modify, Option.isNone_map]
  refine Prod.ext ?_ (congrArg (Inventory.mk · s.nextSeq) (Table.eq_of_rows ?_))
  · rw [setFrozen]
    simp only [hget]
    rfl
  · simp only [setFrozen, modify, Table.update, List.map_map]
    refine List.map_congr_left fun r _ => ?_
    by_cases hop : r.outpoint ∈ ops <;> simp [hop]

theorem remove_again (ops : List Outpoint) (force : Bool) :
    (s.remove ops force).2.remove ops force = s.remove ops force := by
  refine Prod.ext ?_ drop_again.2
  cases force with
  | true => rfl
  | false =>
    simp only [remove, Bool.false_eq_true, if_false, Bool.false_or]
    refine List.filterMap_congr fun op hop => ?_
    rw [get_drop]
    rcases hr : s.get op with _ | r
    · rfl
    · obtain ⟨-, rfl⟩ := get_eq_some.mp hr
      rw [Option.filter_some, Option.bind_some]
      rcases hrefusal : removeRefusal r.outpoint r with _ | e <;> simp [hop, hrefusal]

theorem found_again (ops : List Outpoint) :
    ops.filterMap (s.drop fun r => r.outpoint ∈ ops && removable r).get
      = (ops.filterMap s.get).filter fun r => !removable r := by
  rw [List.filter_filterMap]
  refine List.filterMap_congr fun op hop => ?_
  rw [get_drop]
  rcases hr : s.get op with _ | r
  · rfl
  · obtain ⟨-, rfl⟩ := get_eq_some.mp hr
    simp [Option.filter_some, hop]

theorem removeByMintTx_again (t : TxID) (ops : List Outpoint) :
    (s.removeByMintTx t ops).2.removeByMintTx t ops
      = ((s.removeByMintTx t ops).1.map fun r => { r with removed := [] },
        (s.removeByMintTx t ops).2) := by
  unfold removeByMintTx
  rcases hv : validateMintOutpoints t ops with _ | e
  · refine Prod.ext ?_ drop_again.2
    have hnone : ((ops.filterMap s.get).filter fun r => !removable r).filter removable = [] := by
      rw [List.filter_filter, List.filter_eq_nil_iff]
      simp
    have hheld : ((ops.filterMap s.get).filter fun r => !removable r).filter (fun r =>
        r.spentBy = none && r.reservedBy ≠ "")
        = (ops.filterMap s.get).filter fun r => r.spentBy = none && r.reservedBy ≠ "" := by
      rw [List.filter_filter]
      refine List.filter_congr fun r _ => ?_
      by_cases hs : r.spentBy = none <;> by_cases hb : r.reservedBy = ""
          <;> simp [removable, hs, hb]
    have hspent : ((ops.filterMap s.get).filter fun r => !removable r).filterMap (·.spentBy)
        = (ops.filterMap s.get).filterMap (·.spentBy) := by
      rw [List.filterMap_filter]
      refine List.filterMap_congr fun r _ => ?_
      rcases hs : r.spentBy with _ | w <;> simp [removable, hs]
    simp only [found_again, hnone, hheld, hspent]
    rfl
  · rfl

theorem reserveRefusal_of_held {u : UserID} {R : Token} {op : Outpoint} {r : Row}
    (hr : s.get op = some r)
    (hu : r.userID = u) (hs : r.spentBy = none) (hb : r.reservedBy = R) (hf : r.frozen = false) :
    s.reserveRefusal u R op = none := by
  unfold reserveRefusal
  simp [hr, hu, hs, hb, hf]

theorem reserveOutpoints_again (now now' : Time) (u : UserID) (R : Token) (ops : List Outpoint) :
    (s.reserveOutpoints now u R ops).2.reserveOutpoints now' u R ops = s.reserveOutpoints
      now u R ops := by
  rcases hv : validateReserveOutpoints R ops with _ | e
  · rcases hn : ops.eraseDups.filterMap (s.reserveRefusal u R) with _ | ⟨e, es⟩
    · have hfirst : s.reserveOutpoints now u R ops = ([],
        s.modify (fun r => r.outpoint ∈ ops && r.reservedBy ≠ R)
          (fun r => { r with reservedBy := R, reservedAt := now }) fun _ => rfl) := by
        simp only [reserveOutpoints, hv, hn]
      rw [hfirst]
      have hagain : ops.eraseDups.filterMap
          ((s.modify (fun r => r.outpoint ∈ ops && r.reservedBy ≠ R)
          (fun r => { r with reservedBy := R, reservedAt := now }) fun _ => rfl).reserveRefusal u R)
              = [] := by
        refine List.filterMap_eq_nil_iff.mpr fun op hop => ?_
        obtain ⟨r, hr, hu, hs, hb, hf⟩ :=
          reserveRefusal_eq_none (List.filterMap_eq_nil_iff.mp hn op hop)
        have hmem : r.outpoint ∈ ops := (get_eq_some.mp hr).2 ▸ List.mem_eraseDups.mp hop
        by_cases hR : r.reservedBy = R
        · refine reserveRefusal_of_held (r := r) ?_ hu hs hR hf
          rw [get_modify, hr]
          simp [hR]
        · refine reserveRefusal_of_held (r := { r with reservedBy := R, reservedAt := now })
            ?_ hu hs rfl hf
          rw [get_modify, hr]
          simp [hmem, hR]
      simp only [reserveOutpoints, hv, hagain]
      exact congrArg (Prod.mk []) (modify_of_forall_not (not_of_mem_modify fun r _ => by simp))
    · have hfirst : s.reserveOutpoints now u R ops = (e :: es, s) := by
        simp only [reserveOutpoints, hv, hn]
      rw [hfirst]
      simp only [reserveOutpoints, hv, hn]
  · have hfirst : ∀ now, s.reserveOutpoints now u R ops = ([e], s) := fun now => by
      simp only [reserveOutpoints, hv]
    rw [hfirst, hfirst]

theorem releaseReservation_again (u : UserID) (R : Token) :
    (s.releaseReservation u R).2.releaseReservation u R
    = ((s.releaseReservation u R).1.map fun _ => 0, (s.releaseReservation u R).2) := by
  unfold releaseReservation
  rcases hv : validateReservation R with _ | e
  · have hR := validateReservation_eq_none.mp hv
    obtain ⟨hlen, hrows⟩ := modify_again (s := s) (p := fun r => heldBy r u R && !r.pinned)
      (f := fun r => { r with reservedBy := "", reservedAt := 0 }) (fun _ => rfl)
      fun r _ => by simp [heldBy, Ne.symm hR]
    exact Prod.ext (congrArg Except.ok hlen) hrows
  · rfl

theorem setPinned_again (u : UserID) (R : Token) (pinned : Bool) :
    (s.setPinned u R pinned).2.setPinned u R pinned
    = ((s.setPinned u R pinned).1.map fun _ => 0, (s.setPinned u R pinned).2) := by
  unfold setPinned
  rcases hv : validateReservation R with _ | e
  · obtain ⟨hlen, hrows⟩ := modify_again (s := s) (p := fun r => heldBy r u R && r.pinned ≠ pinned)
      (f := fun r => { r with pinned := pinned }) (fun _ => rfl) fun r _ => by simp
    exact Prod.ext (congrArg Except.ok hlen) hrows
  · rfl

theorem releaseOutpoints_again (R : Token) (ops : List Outpoint) :
    (s.releaseOutpoints R ops).2.releaseOutpoints R ops = s.releaseOutpoints R ops := by
  unfold releaseOutpoints
  rcases hv : validateReservation R with _ | e
  · have hR := validateReservation_eq_none.mp hv
    exact congrArg (Prod.mk (Except.ok ())) (modify_of_forall_not (not_of_mem_modify fun r _ => by
        simp [Ne.symm hR]))
  · rfl

/-- A call that is repeated, at whatever time, leaves the inventory as it is and reports nothing
new. -/
theorem reply_again (now now' : Time) (s : Inventory) (call : StoreOp)
    (h : call.repeatable = true) :
    (reply now' (reply now s call).2 call).2 = (reply now s call).2
      ∧ (reply now s call).1.Again (reply now' (reply now s call).2 call).1 := by
  cases call with
  | mint ms => exact mint_again now now' ms
  | remove ops force =>
    have hagain := remove_again (s := s) ops force
    obtain ⟨hans, hrows⟩ := Prod.ext_iff.mp hagain
    exact ⟨hrows, hans⟩
  | claimSmallestSufficient | claimLargestInsufficient | claimExact => cases h
  | reserveOutpoints u R ops =>
    have hagain := reserveOutpoints_again (s := s) now now' u R ops
    obtain ⟨hans, hrows⟩ := Prod.ext_iff.mp hagain
    exact ⟨hrows, hans⟩
  | releaseReservation u R =>
    have hagain := releaseReservation_again (s := s) u R
    obtain ⟨hans, hrows⟩ := Prod.ext_iff.mp hagain
    exact ⟨hrows, hans⟩
  | releaseOutpoints R ops =>
    have hagain := releaseOutpoints_again (s := s) R ops
    obtain ⟨hans, hrows⟩ := Prod.ext_iff.mp hagain
    exact ⟨hrows, hans⟩
  | pin u R =>
    have hagain := setPinned_again (s := s) u R true
    obtain ⟨hans, hrows⟩ := Prod.ext_iff.mp hagain
    exact ⟨hrows, hans⟩
  | unpin u R =>
    have hagain := setPinned_again (s := s) u R false
    obtain ⟨hans, hrows⟩ := Prod.ext_iff.mp hagain
    exact ⟨hrows, hans⟩
  | spend sps force => exact spend_again force sps
  | unspend t ops =>
    obtain ⟨hlen, hrows⟩ := modify_again (s := s) (p := fun r =>
        r.outpoint ∈ ops && r.spentBy = some t)
      (f := fun r => { r with spentBy := none, reservedBy := "", reservedAt := 0, pinned := false })
          (fun _ => rfl)
      fun r _ => by simp
    exact ⟨hrows, congrArg Except.ok hlen⟩
  | removeSpentBy t =>
    obtain ⟨hlen, hrows⟩ := drop_again (s := s) (p := fun r => decide (r.spentBy = some t))
    exact ⟨hrows, congrArg Except.ok hlen⟩
  | promote ops target =>
    obtain ⟨hlen, hrows⟩ := modify_again (s := s) (p := fun r =>
        r.outpoint ∈ ops && r.tier ≠ target)
      (f := fun r => { r with tier := target }) (fun _ => rfl) fun r _ => by simp
    exact ⟨hrows, congrArg Except.ok hlen⟩
  | removeByMintTx t ops =>
    have hagain := removeByMintTx_again (s := s) t ops
    obtain ⟨hans, hrows⟩ := Prod.ext_iff.mp hagain
    exact ⟨hrows, hans⟩
  | freeze ops =>
    have hagain := setFrozen_again (s := s) ops true
    obtain ⟨hans, hrows⟩ := Prod.ext_iff.mp hagain
    exact ⟨hrows, hans⟩
  | unfreeze ops =>
    have hagain := setFrozen_again (s := s) ops false
    obtain ⟨hans, hrows⟩ := Prod.ext_iff.mp hagain
    exact ⟨hrows, hans⟩

/-- One coin is minted, and minted again a second later. -/
theorem reply_again_mint :
    (reply 2 (reply 1 .empty (.mint [⟨⟨"parent", 0⟩, 7, "default", 1000, defaultP2PKHInputSize,
      .mined⟩])).2
        (.mint [⟨⟨"parent", 0⟩, 7, "default", 1000, defaultP2PKHInputSize, .mined⟩])).2
      = (reply 1 .empty (.mint [⟨⟨"parent", 0⟩, 7, "default", 1000, defaultP2PKHInputSize,
        .mined⟩])).2 :=
  (reply_again 1 2 .empty (.mint [⟨⟨"parent", 0⟩, 7, "default", 1000, defaultP2PKHInputSize,
      .mined⟩]) rfl).1

end Inventory

end ArcadeToolbox
