import ArcadeToolbox.Storage.CreateHolds

/-!
# The coins a fund call leaves held

What is held after `Fund` is what the releases of the token left and, on success, the coins of the
result.

A release that fails is logged and otherwise ignored. When a pass meets contention after it has
claimed a coin and the release fails, the next pass starts with that coin held and does not know of
it.
-/

namespace ArcadeToolbox

open Txn

namespace Storage

open Inventory UtxoStore

variable {u : UserID} {R : Token}

/-- For every honest store and every way it may refuse calls: after `Fund` has returned, the token
holds exactly the allocated coins, or nothing if it failed, and a mandatory change is above the dust
floor, exactly if the last release of the token, where it was refused, had nothing to give back. -/
theorem fund_holds_allocated_iff {σ : Type} (args : FundArgs)
    (K : HonestStore args.userID args.reservation σ) (fees : FeeCalc) (rounds : ℕ) (s : σ)
    (hv : args.validate = none) (hs : K.held s = ∅)
    (hret : ∀ e, ((Funder.fund fees rounds args).run.run K.call s).1 = .error e →
      e.returned = true) :
    ((∀ r, ((Funder.fund fees rounds args).run.run K.call s).1 = .ok r →
        K.held ((Funder.fund fees rounds args).run.run K.call s).2
          = {op | op ∈ r.allocatedUTXOs.map (·.outpoint)}
        ∧ (r.allocatedUTXOs.map (·.outpoint)).Nodup
        ∧ (args.requireChange = true ∨ args.outputCount = 0 →
          1 ≤ r.changeOutputsCount ∧ (r.dustFloor : ℤ) ≤ r.changeAmount))
      ∧ ∀ e, ((Funder.fund fees rounds args).run.run K.call s).1 = .error e →
        K.held ((Funder.fund fees rounds args).run.run K.call s).2 = ∅)
    ↔ K.Cleared ((Funder.fund fees rounds args).run.calls K.call s) := by
  have hleft := HonestStore.fund_left (K := K) hv fees rounds s
  rw [hs] at hleft
  rw [← HonestStore.left_empty_iff]
  obtain ⟨hok, herr⟩ := hleft
  generalize K.left ∅ ((Funder.fund fees rounds args).run.calls K.call s) = X at hok herr ⊢
  generalize (Funder.fund fees rounds args).run.run K.call s = run at hok herr hret ⊢
  obtain ⟨res, s'⟩ := run
  rcases res with e | r
  · have hheld : K.held s' = X := herr e rfl (hret e rfl)
    constructor
    · exact fun h => hheld.symm.trans (h.2 e rfl)
    · exact fun h => ⟨fun r hr => (by cases hr), fun _ _ => hheld.trans h⟩
  · obtain ⟨hholds, hfor⟩ := hok r rfl
    constructor
    · -- the coins besides the allocated ones are apart from them
      rintro ⟨h, -⟩
      have hsame := hholds.held_eq.symm.trans (h r rfl).1
      refine Set.eq_empty_iff_forall_notMem.mpr fun op hop => ?_
      have hmem : op ∈ {op | op ∈ r.allocatedUTXOs.map (·.outpoint)} := hsame ▸ Or.inl hop
      exact hholds.apart op hmem hop
    · intro hX
      refine ⟨fun r' hr' => ?_, fun e he => (by cases he)⟩
      cases hr'
      refine ⟨by rw [hholds.held_eq, hX, Set.empty_union], hholds.nodup, fun hm => ?_⟩
      have hle := hfor.mandatory hm
      refine ⟨Nat.one_le_iff_ne_zero.mpr fun h0 => ?_, hle⟩
      have := hfor.count.mp h0
      omega

/-- A small mined coin and a large unproven one. -/
def twoTiers : Inventory :=
  ⟨⟨[plainCoin 0 700 1, { plainCoin 1 50000 2 with tier := .unproven }], by decide⟩, 2⟩

theorem loose_twoTiers : Loose twoTiers := by
  have hall : ∀ r ∈ twoTiers.rows.rows, r.pinned = false := by decide
  exact fun r hr _ => hall r hr

/-- The third optimistic call meets contention, and the third statement, which gives the first
pass's coin back, may fail. -/
def thirdBusy (refused : Bool) : LooseSession :=
  ⟨⟨{ plainDb with utxo := twoTiers }, 0, [⟨0, false⟩, ⟨0, false⟩, ⟨0, refused⟩],
      [false, false, true]⟩,
    loose_twoTiers⟩

/-- A payment that the mined coin does not cover. -/
def paysMore : FundArgs :=
  { userID := 1, basket := "change", reservation := "ref", targetSat := 1000, currentTxSize := 100,
    outputCount := 1, tiers := [.mined, .unproven], numberOfDesiredUTXOs := 1,
    minimumDesiredUTXOValue := 1000, maxChangeOutputsPerTx := 1, requireChange := false,
    existingBasketCount := 0, denomination := 0 }

def paysMoreStore : HonestStore paysMore.userID paysMore.reservation LooseSession :=
  sessionStore false paysMore.userID paysMore.reservation

/-- The funding of `paysMore` over these two coins. -/
def fundsTwo (refused : Bool) : Except FundErr FundResult × LooseSession :=
  (Funder.fund (.satPerKB 1) 4 paysMore).run.run paysMoreStore.call (thirdBusy refused)

theorem holding_eq_empty {s : Inventory} (h : s.rows.any (fun r => heldBy r u R) = false) :
    holding u R s = ∅ := by
  refine Set.eq_empty_iff_forall_notMem.mpr ?_
  rintro op ⟨r, hr, -, hh, -⟩
  have hany : s.rows.any (fun r => heldBy r u R) = true := Table.any_eq_true.mpr ⟨r, hr, hh⟩
  rw [h] at hany
  cases hany

theorem thirdBusy_free (refused : Bool) : paysMoreStore.held (thirdBusy refused) = ∅ :=
  holding_eq_empty (s := twoTiers) (by decide)

/-- The second pass funds the payment from the unproven coin, and the mined coin of the first pass
is still held. -/
theorem fund_leaves_coin_held :
    paysMore.validate = none ∧ paysMoreStore.held (thirdBusy true) = ∅
      ∧ ∃ r, (fundsTwo true).1 = .ok r
        ∧ paysMoreStore.held (fundsTwo true).2 ≠ {op | op ∈ r.allocatedUTXOs.map (·.outpoint)} := by
  refine ⟨by decide, thirdBusy_free true, ?_⟩
  have hrun : (fundsTwo true).1.toOption.any
      (fun r => decide (⟨"parent", 0⟩ ∉ r.allocatedUTXOs.map (·.outpoint))) = true := by
    decide +kernel
  have hheld : (fundsTwo true).2.1.db.utxo.rows.any (fun r => decide (r.outpoint = ⟨"parent", 0⟩)
      && heldBy r 1 "ref" && !r.pinned) = true := by decide +kernel
  rcases hres : (fundsTwo true).1 with e | r <;> rw [hres] at hrun
  · cases hrun
  refine ⟨r, rfl, fun h => of_decide_eq_true hrun ?_⟩
  obtain ⟨c, hc, hrow⟩ := Table.any_eq_true.mp hheld
  rw [Bool.and_eq_true, Bool.and_eq_true, Bool.not_eq_true'] at hrow
  have hmem : ⟨"parent", 0⟩ ∈ paysMoreStore.held (fundsTwo true).2 :=
    ⟨c, hc, of_decide_eq_true hrow.1.1, hrow.1.2, hrow.2⟩
  rwa [h] at hmem

/-- Without the failing statement the second pass starts afresh. -/
theorem fund_holds_allocated_retry :
    paysMore.validate = none ∧ paysMoreStore.held (thirdBusy false) = ∅
      ∧ ∃ r, (fundsTwo false).1 = .ok r ∧
        paysMoreStore.held (fundsTwo false).2 = {op | op ∈ r.allocatedUTXOs.map (·.outpoint)} := by
  have hok : ∃ r, (fundsTwo false).1 = .ok r := by
    have hrun : (fundsTwo false).1.isOk = true := by decide +kernel
    rcases hres : (fundsTwo false).1 with e | r <;> rw [hres] at hrun
    · cases hrun
    · exact ⟨r, rfl⟩
  have hcleared : paysMoreStore.Cleared
      ((Funder.fund (.satPerKB 1) 4 paysMore).run.calls paysMoreStore.call (thirdBusy false)) := by
    have hlast : (((Funder.fund (.satPerKB 1) 4 paysMore).run.calls paysMoreStore.call
        (thirdBusy false)).filter
        fun cs => cs.1.isRelease).getLast?.all (fun cs =>
          (paysMoreStore.call (.releaseReservation paysMore.userID paysMore.reservation)
              cs.2).1.isOk) = true := by
      decide +kernel
    intro c s hcs e he
    rw [hcs] at hlast
    change (paysMoreStore.call (.releaseReservation paysMore.userID paysMore.reservation) s).1.isOk
        = true at hlast
    rw [he] at hlast
    cases hlast
  obtain ⟨r, hr⟩ := hok
  have hret : ∀ e, (fundsTwo false).1 = .error e → e.returned = true :=
    fun e he => absurd (he.symm.trans hr) (by simp)
  have hholds := (fund_holds_allocated_iff paysMore paysMoreStore (.satPerKB 1) 4 (thirdBusy false)
    (by decide) (thirdBusy_free false) hret).mpr hcleared
  exact ⟨by decide, thirdBusy_free false, r, hr, (hholds.1 r hr).1⟩

end Storage

end ArcadeToolbox
