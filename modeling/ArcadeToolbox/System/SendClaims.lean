import ArcadeToolbox.System.Lives

/-!
# A transaction that was claimed for sending is never aborted

A claim and a fence both leave the statuses before the broadcast, and no writer of the shared row
leads back to them. So of the two one wins for good. A claim is renewed from `sending` alone, and
only when the row has not been touched for the resend grace; it was touched at the claim before.
-/

namespace ArcadeToolbox

open Txn

/-- The time of a claim of either kind. -/
def Event.claimTime : Event → Option Time
  | .claimed _ time | .reclaimed _ time => some time
  | _ => none

section Writes

variable {w : KnownWrite} {k : KnownTx} {now : Time} {T : TxID}

theorem status_of_edit_not_mem (hw : w.lawful = true) (hg : w.guard now k = true)
    (h : (w.edit now k).status ∉ ProvenTxReqStatus.neverRequeue) :
    k.status ∉ ProvenTxReqStatus.neverRequeue := by
  rw [w.edit_status] at h
  rcases hs : w.sets with _ | st <;> rw [hs] at h
  · exact h
  · rcases lawful_sets hw hs with ⟨hn, -⟩ | rfl
    · exact absurd hn h
    · simpa [KnownWrite.guard] using hg

/-- A row is being sent after a claim, or it was before. -/
theorem status_of_edit_sending (hw : w.lawful = true) (h : (w.edit now k).status = .sending) :
    w = .casFromPreBroadcast .sending ∨ k.status = .sending := by
  rw [w.edit_status] at h
  rcases hs : w.sets with _ | st <;> rw [hs] at h
  · exact Or.inr h
  · rcases lawful_sets hw hs with ⟨-, hc⟩ | rfl
    · exact Or.inl (hc h)
    · cases hs
      cases h

theorem updatedAt_edit (w : KnownWrite) (now : Time) (k : KnownTx) :
    (w.edit now k).updatedAt = now ∨ (w.edit now k).updatedAt = k.updatedAt := by
  cases w <;> first | exact Or.inl rfl | exact Or.inr rfl

theorem events_cases (now : Time) (T : TxID) (hw : w.lawful = true) :
    w.events now T = [] ∨ (w = .casFromPreBroadcast .sending ∧ w.events now T = [.claimed T now])
      ∨ (w = .casFromPreBroadcast .aborted ∧ w.events now T = [.fenced T])
      ∨ (w = .reclaimStaleSend resendGrace ∧ w.events now T = [.reclaimed T now]) := by
  cases w with
  | casFromPreBroadcast st =>
    simp only [KnownWrite.lawful, Bool.or_eq_true, decide_eq_true_eq] at hw
    rcases hw with rfl | rfl
    · exact Or.inr (Or.inl ⟨rfl, rfl⟩)
    · exact Or.inr (Or.inr (Or.inl ⟨rfl, rfl⟩))
  | reclaimStaleSend grace =>
    cases of_decide_eq_true hw
    exact Or.inr (Or.inr (Or.inr ⟨rfl, rfl⟩))
  | _ => exact Or.inl rfl

end Writes

/-- Neither claimed nor fenced so far. -/
def Untaken (T : TxID) (h : List Event) : Prop := ∀ e ∈ h, e.claimTime = none ∧ e ≠ .fenced T

/-- What the history of a txid never shows. -/
structure Exclusive (T : TxID) (h : List Event) : Prop where
  claim_or_fence : (∃ time, .claimed T time ∈ h) → .fenced T ∉ h
  fence_last : h.Pairwise fun a b => a = .fenced T → ∀ time, b ≠ .reclaimed T time
  apart : h.Pairwise fun a b => ∀ time time', a.claimTime = some time → b.claimTime = some time' →
    time + resendGrace ≤ time'

/-- The claims to send `T` exclude each other. -/
structure SendInv (T : TxID) (now : Time) (L : Life) : Prop where
  unknown : L.row = none → Untaken T L.history
  waiting : ∀ k, L.row = some k → k.status ∉ ProvenTxReqStatus.neverRequeue → Untaken T L.history
  sending : ∀ k, L.row = some k → k.status = .sending → .fenced T ∉ L.history
    ∧ ∀ e ∈ L.history, ∀ time, e.claimTime = some time → time ≤ k.updatedAt
  past : ∀ e ∈ L.history, ∀ time, e.claimTime = some time → time ≤ now
  exclusive : Exclusive T L.history

section Histories

variable {T : TxID} {now : Time} {h : List Event}

theorem Untaken.append {es : List Event} (hh : Untaken T h) (hes : Untaken T es) :
    Untaken T (h ++ es) := fun e he =>
  (List.mem_append.mp he).elim (hh e) (hes e)

theorem Untaken.not_fenced (hh : Untaken T h) : .fenced T ∉ h := fun hm => (hh _ hm).2 rfl

theorem Untaken.not_claimed (hh : Untaken T h) (time : Time) : .claimed T time ∉ h := fun hm => by
  cases (hh _ hm).1

/-- An event that is neither a claim nor a fence may come at any time. -/
theorem Exclusive.append_other {e : Event} (hx : Exclusive T h) (hc : e.claimTime = none)
    (hf : e ≠ .fenced T) : Exclusive T (h ++ [e]) where
  claim_or_fence := by
    rintro ⟨time, hm⟩ hm'
    simp only [List.mem_append, List.mem_singleton] at hm hm'
    refine hx.claim_or_fence ⟨time, hm.resolve_right fun he => ?_⟩
      (hm'.resolve_right fun he => hf he.symm)
    rw [← he] at hc
    cases hc
  fence_last := by
    refine List.pairwise_append.mpr ⟨hx.fence_last, List.pairwise_singleton _ _, ?_⟩
    rintro a - b hb - time rfl
    rw [← List.mem_singleton.mp hb] at hc
    cases hc
  apart := by
    refine List.pairwise_append.mpr ⟨hx.apart, List.pairwise_singleton _ _, ?_⟩
    intro a _ b hb time time' _ hb'
    rw [List.mem_singleton.mp hb, hc] at hb'
    cases hb'

theorem Exclusive.append_first {e : Event} (hx : Exclusive T h) (hh : Untaken T h) :
    Exclusive T (h ++ [e]) where
  claim_or_fence := by
    rintro ⟨time, hm⟩ hm'
    simp only [List.mem_append, List.mem_singleton] at hm hm'
    have he := hm.resolve_left (hh.not_claimed time)
    have he' := hm'.resolve_left hh.not_fenced
    rw [← he'] at he
    cases he
  fence_last := by
    refine List.pairwise_append.mpr ⟨hx.fence_last, List.pairwise_singleton _ _, ?_⟩
    intro a ha b _ hf
    exact absurd hf (hh a ha).2
  apart := by
    refine List.pairwise_append.mpr ⟨hx.apart, List.pairwise_singleton _ _, ?_⟩
    intro a ha b _ time time' hc
    rw [(hh a ha).1] at hc
    cases hc

theorem Exclusive.append_reclaimed (hx : Exclusive T h) (hf : .fenced T ∉ h)
    (hc : ∀ e ∈ h, ∀ time, e.claimTime = some time → time + resendGrace ≤ now) :
    Exclusive T (h ++ [.reclaimed T now]) where
  claim_or_fence := by
    rintro - hm
    simp only [List.mem_append, List.mem_singleton] at hm
    exact hf (hm.resolve_right (by simp))
  fence_last := by
    refine List.pairwise_append.mpr ⟨hx.fence_last, List.pairwise_singleton _ _, ?_⟩
    rintro a ha b - rfl
    exact absurd ha hf
  apart := by
    refine List.pairwise_append.mpr ⟨hx.apart, List.pairwise_singleton _ _, ?_⟩
    intro a ha b hb time time' hca hcb
    rw [List.mem_singleton.mp hb] at hcb
    cases hcb
    exact hc a ha time hca

theorem past_append {e : Event} (hp : ∀ e ∈ h, ∀ time, e.claimTime = some time → time ≤ now)
    (he : ∀ time, e.claimTime = some time → time ≤ now) :
    ∀ e' ∈ h ++ [e], ∀ time, e'.claimTime = some time → time ≤ now := by
  intro e' he' time hc
  rcases List.mem_append.mp he' with hm | hm
  · exact hp e' hm time hc
  · rw [List.mem_singleton.mp hm] at hc
    exact he time hc

end Histories

section Steps

variable {T : TxID} {now : Time} {L L' : Life} {h : List Event} {k k' : KnownTx}

theorem SendInv.note {e : Event} (hi : SendInv T now L) (hc : e.claimTime = none)
    (hf : e ≠ .fenced T) : SendInv T now { L with history := L.history ++ [e] } := by
  have hu : Untaken T [e] := by
    intro e' he'
    rw [List.mem_singleton.mp he']
    exact ⟨hc, hf⟩
  refine ⟨fun hr => (hi.unknown hr).append hu, fun k hk hs => (hi.waiting k hk hs).append hu, ?_,
    past_append hi.past (by simp [hc]), hi.exclusive.append_other hc hf⟩
  intro k hk hs
  obtain ⟨h1, h2⟩ := hi.sending k hk hs
  refine ⟨fun hm => ?_, past_append h2 (by simp [hc])⟩
  simp only [List.mem_append, List.mem_singleton] at hm
  exact h1 (hm.resolve_right fun he => hf he.symm)

/-- A write that the audit does not record. -/
theorem SendInv.silent (hi : SendInv T now ⟨some k, h⟩)
    (hwait : k'.status ∉ ProvenTxReqStatus.neverRequeue → k.status ∉ ProvenTxReqStatus.neverRequeue)
    (hsend : k'.status = .sending → k.status = .sending)
    (hu : k'.updatedAt = now ∨ k'.updatedAt = k.updatedAt) : SendInv T now ⟨some k', h⟩ := by
  refine ⟨nofun, ?_, ?_, hi.past, hi.exclusive⟩
  · rintro _ ⟨⟩ hs
    exact hi.waiting k rfl (hwait hs)
  · rintro _ ⟨⟩ hs
    obtain ⟨h1, h2⟩ := hi.sending k rfl (hsend hs)
    refine ⟨h1, fun e he time hc => ?_⟩
    rcases hu with hu | hu <;> rw [hu]
    · exact hi.past e he time hc
    · exact h2 e he time hc

theorem SendInv.claimed (hi : SendInv T now ⟨some k, h⟩) (hu : Untaken T h)
    (hk : k'.status = .sending) (hk' : k'.updatedAt = now) :
    SendInv T now ⟨some k', h ++ [.claimed T now]⟩ := by
  have hp := past_append (e := .claimed T now) hi.past fun time hc => by
    cases hc; exact Int.le_refl _
  refine ⟨nofun, ?_, ?_, hp, hi.exclusive.append_first hu⟩
  · rintro _ ⟨⟩ hs
    rw [hk] at hs
    exact absurd (by decide) hs
  · rintro _ ⟨⟩ -
    rw [hk']
    refine ⟨fun hm => ?_, hp⟩
    simp only [List.mem_append, List.mem_singleton] at hm
    exact hu.not_fenced (hm.resolve_right (by simp))

theorem SendInv.fenced (hi : SendInv T now ⟨some k, h⟩) (hu : Untaken T h)
    (hk : k'.status = .aborted) : SendInv T now ⟨some k', h ++ [.fenced T]⟩ := by
  refine ⟨nofun, ?_, ?_, past_append hi.past nofun, hi.exclusive.append_first hu⟩
  · rintro _ ⟨⟩ hs
    rw [hk] at hs
    exact absurd (by decide) hs
  · rintro _ ⟨⟩ hs
    rw [hk] at hs
    cases hs

theorem SendInv.reclaimed (hi : SendInv T now ⟨some k, h⟩) (hs : k.status = .sending)
    (hg : k.updatedAt ≤ now - resendGrace) (hk : k'.status = .sending) (hk' : k'.updatedAt = now) :
    SendInv T now ⟨some k', h ++ [.reclaimed T now]⟩ := by
  obtain ⟨hf, hc⟩ := hi.sending k rfl hs
  have hp := past_append (e := .reclaimed T now) hi.past fun time hc => by
    cases hc
    exact Int.le_refl _
  refine ⟨nofun, ?_, ?_, hp, hi.exclusive.append_reclaimed hf fun e he time hce => ?_⟩
  · rintro _ ⟨⟩ hs
    rw [hk] at hs
    exact absurd (by decide) hs
  · rintro _ ⟨⟩ -
    rw [hk']
    refine ⟨fun hm => ?_, hp⟩
    simp only [List.mem_append, List.mem_singleton] at hm
    exact hf (hm.resolve_right (by simp))
  · exact Int.add_le_of_le_sub_right ((hc e he time hce).trans hg)

/-- A row that enters the statuses before the broadcast was not taken before. -/
theorem SendInv.stored (hi : SendInv T now L) (hu : Untaken T L.history)
    (hk : k'.status ∈ ProvenTxReqStatus.preBroadcast) :
    SendInv T now ⟨some k', L.history ++ [.stored T]⟩ := by
  have hu' : Untaken T [.stored T] := by
    intro e he
    rw [List.mem_singleton.mp he]
    exact ⟨rfl, nofun⟩
  refine ⟨nofun, fun _ _ _ => hu.append hu', ?_, past_append hi.past nofun,
    hi.exclusive.append_other rfl nofun⟩
  rintro _ ⟨⟩ hs
  rw [hs] at hk
  exact absurd hk (by decide)

theorem SendInv.credited (hi : SendInv T now L) (hk : k'.status.wasBroadcastStatus = true) :
    SendInv T now ⟨some k', L.history⟩ := by
  refine ⟨nofun, ?_, ?_, hi.past, hi.exclusive⟩
  · rintro _ ⟨⟩ hs
    rw [ProvenTxReqStatus.wasBroadcastStatus_iff] at hk
    exact absurd (List.mem_append_left _ hk) hs
  · rintro _ ⟨⟩ hs
    rw [hs] at hk
    cases hk

theorem SendInv.write {w : KnownWrite} (hi : SendInv T now ⟨some k, h⟩) (hw : w.lawful = true)
    (hg : w.guard now k = true) : SendInv T now ⟨some (w.edit now k), h ++ w.events now T⟩ := by
  rcases events_cases now T hw with he | ⟨rfl, -⟩ | ⟨rfl, -⟩ | ⟨rfl, -⟩
  · rw [he, List.append_nil]
    refine hi.silent (status_of_edit_not_mem hw hg) (fun hs => ?_) (updatedAt_edit w now k)
    rcases status_of_edit_sending hw hs with rfl | hs
    · cases he
    · exact hs
  all_goals simp only [KnownWrite.guard, Bool.and_eq_true, decide_eq_true_eq] at hg
  · exact hi.claimed (hi.waiting k rfl (ProvenTxReqStatus.not_mem_of_preBroadcast hg.1)) rfl rfl
  · exact hi.fenced (hi.waiting k rfl (ProvenTxReqStatus.not_mem_of_preBroadcast hg.1)) rfl
  · exact hi.reclaimed hg.1.1 hg.2 hg.1.1 rfl

theorem SendInv.step {A : LifeOp → Prop} (hA : ∀ o, A o → o.Lawful) (hs : Life.Step T A now L L')
    (hi : SendInv T now L) : SendInv T now L' := by
  cases hs with
  | note ha he =>
    have hn := hA _ ha
    rename_i e
    cases e <;> first | (cases hn; done) | exact hi.note rfl (by simp)
  | write ha _ hg => exact hi.write (hA _ ha) hg
  | storeNew ha => exact hi.stored (hi.unknown rfl) (hA _ ha)
  | store ha _ hs => exact hi.stored (hi.waiting _ rfl hs) (hA _ ha)
  | creditNew ha => exact hi.credited (status_internalized T _)
  | credit ha => exact hi.credited (status_internalized T _)

theorem SendInv.wait {now' : Time} (hle : now ≤ now') (hi : SendInv T now L) : SendInv T now' L :=
  ⟨hi.unknown, hi.waiting, hi.sending, fun e he time hc => (hi.past e he time hc).trans hle,
    hi.exclusive⟩

end Steps

theorem sendInv_exec (p : Provider) (env : Env) (t : Task) (s : Shared) (T : TxID)
    (h : SendInv T s.now (s.db.metadata.life T)) :
    SendInv T (t.exec p env s).1.now ((t.exec p env s).1.db.metadata.life T) :=
  (exec_life p env t s T).invariant SendInv.wait (SendInv.step fun _ ho => ho.lawful) h

theorem sendInv_initial (T : TxID) : SendInv T 0 (Metadata.empty.life T) := by
  rw [life_empty]
  exact ⟨by simp [Untaken], by simp, by simp, by simp, by simp, .nil, .nil⟩

theorem sendInv_runs (p : Provider) (ls : List Step) (T : TxID) :
    SendInv T ((wallet p).runs System.initial ls).shared.now
      (((wallet p).runs System.initial ls).shared.db.metadata.life T) :=
  Code.runs_shared (J := fun d => SendInv T d.now (d.db.metadata.life T))
    (fun env t d hd => sendInv_exec p env t d T hd) ls System.initial (sendInv_initial T)

/-- In every run of the wallet, a txid that was claimed for sending was not aborted, a claim is not
renewed after an abort, and two claims are at least the resend grace apart. -/
theorem claims_exclude_aborts (p : Provider) (ls : List Step) (T : TxID) :
    let history := (((wallet p).runs System.initial ls).shared.db.metadata.life T).history
    ¬ ((∃ time, .claimed T time ∈ history) ∧ .fenced T ∈ history)
      ∧ (history.Pairwise fun a b => a = .fenced T → ∀ time, b ≠ .reclaimed T time)
      ∧ history.Pairwise fun a b => ∀ time time', a.claimTime = some time →
          b.claimTime = some time' → time + resendGrace ≤ time' :=
  have h := (sendInv_runs p ls T).exclusive
  ⟨fun hc => h.claim_or_fence hc.1 hc.2, h.fence_last, h.apart⟩

end ArcadeToolbox
