import ArcadeToolbox.Aerostore.Pulls
import ArcadeToolbox.Aerostore.Store

/-!
# Where candidates come from

A candidate that `take` hands out was returned by a probe of its claim key, perhaps long ago, and
its value passes the call's filter. So what holds of every record that a probe of a key returns
holds of the candidates for it. A call that runs alone returns after at most seven steps.
-/

namespace ArcadeToolbox.Aerostore

open Txn

theorem mem_preferredMatches {pred : ℕ → Bool} {prefer : Option (ℕ → ℕ → Bool)}
    {cands : List Record} {want : ℕ} {c : Record}
    (h : c ∈ preferredMatches cands pred prefer want) : c ∈ cands ∧ pred c.sats = true := by
  unfold preferredMatches at h
  have h := List.mem_of_mem_take h
  cases prefer with
  | none => exact List.mem_filter.mp h
  | some p => exact List.mem_filter.mp ((List.mem_insertionSort _).mp h)

namespace CacheState

variable {P : String → Record → Prop} {s : CacheState} {i : ℕ} {t : TakeCall}

/-- The bucket is one of the call's key. -/
def OfKey (s : CacheState) (t : TakeCall) (b : ℕ) : Prop := b < s.next ∧ (s.heap b).key = t.key

/-- The candidates are for the call. -/
def Fits (P : String → Record → Prop) (t : TakeCall) (out : List Record) : Prop :=
  ∀ c ∈ out, P t.key c ∧ t.pred c.sats = true

theorem Fits.append {out more : List Record} (h : Fits P t out) (h' : Fits P t more) :
    Fits P t (out ++ more) :=
  fun c hc => (List.mem_append.mp hc).elim (h c) (h' c)

theorem fits_pull {cs : List Record} (h : ∀ c ∈ cs, P t.key c) (n : ℕ) :
    Fits P t (pull t.pred t.prefer n cs).1 :=
  fun c hc => ⟨h c (mem_of_mem_pull (.inl hc)), (pull_perm n cs).2 c hc⟩

def PhaseFits (P : String → Record → Prop) (s : CacheState) (t : TakeCall) : Phase → Prop
  | .start | .filteredProbe _ | .returned none _ => True
  | .fast b => OfKey s t b
  | .tryLock b out | .waiting b out | .gate b out | .waited b out | .locked b
      out | .probing b out _ _
  | .unlock b out _ _ => OfKey s t b ∧ Fits P t out
  | .returned (some out) _ => Fits P t out

/-- What is cached under a key and what the calls have is as the probes of the key return it. -/
structure Sourced (P : String → Record → Prop) (s : CacheState) : Prop where
  cached : ∀ b < s.next, ∀ c ∈ (s.heap b).cands, P (s.heap b).key c
  calls : ∀ i t, s.takes i = some t → PhaseFits P s t t.phase
  lru_lt : ∀ b ∈ s.lru, b < s.next

theorem PhaseFits.frame {s' : CacheState} {ph : Phase} (h : PhaseFits P s t ph)
    (hnext : s.next ≤ s'.next)
    (hkey : ∀ b < s.next, (s'.heap b).key = (s.heap b).key) : PhaseFits P s' t ph := by
  have hb : ∀ b, OfKey s t b → OfKey s' t b :=
    fun b hb => ⟨hb.1.trans_le hnext, (hkey b hb.1).trans hb.2⟩
  cases ph with
  | start => trivial
  | filteredProbe probe => trivial
  | fast b => exact hb b h
  | returned result since =>
    cases result with
    | none => trivial
    | some out => exact h
  | _ => exact ⟨hb _ h.1, h.2⟩

theorem Sourced.setBucket (h : Sourced P s) {b : ℕ} {f : ClaimBucket → ClaimBucket}
    (hkey : ∀ x, (f x).key = x.key)
    (hc : ∀ c ∈ (f (s.heap b)).cands, b < s.next → P (s.heap b).key c) :
    Sourced P (s.setBucket b f) := by
  have hheap : ∀ b', ((s.setBucket b f).heap b').key = (s.heap b').key := fun b' => by
    by_cases he : b' = b
    · subst he
      simp [CacheState.setBucket, hkey]
    · simp [CacheState.setBucket, Function.update_of_ne he]
  refine ⟨fun b' hb' c hc' => ?_, fun j t hj => (h.calls j t hj).frame le_rfl fun b' _ =>
      hheap b', h.lru_lt⟩
  rw [hheap]
  by_cases he : b' = b
  · subst he
    simp only [CacheState.setBucket, Function.update_self] at hc'
    exact hc c hc' hb'
  · simp only [CacheState.setBucket, Function.update_of_ne he] at hc'
    exact h.cached b' hb' c hc'

theorem Sourced.setPhase (h : Sourced P s) {ph : Phase} (hph : PhaseFits P s t ph) :
    Sourced P (s.setPhase i t ph) := by
  refine ⟨h.cached, fun j t' hj => ?_, h.lru_lt⟩
  simp only [CacheState.setPhase] at hj
  by_cases he : j = i
  · subst he
    rw [Function.update_self] at hj
    cases hj
    exact hph
  · rw [Function.update_of_ne he] at hj
    exact h.calls j t' hj

theorem Sourced.bucket (h : Sourced P s) (cfg : CacheConfig) (key : String) :
    Sourced P (s.bucket cfg key).2 ∧ (s.bucket cfg key).1 < (s.bucket cfg key).2.next
      ∧ ((s.bucket cfg key).2.heap (s.bucket cfg key).1).key = key := by
  unfold CacheState.bucket
  rcases hl : s.lookup key with _ | b
  · refine ⟨⟨fun b hb c hc => ?_, fun j t hj => ?_, fun b hb => ?_⟩, Nat.lt_succ_self _,
      by simp [addBucket, ClaimBucket.new]⟩
    · rcases Nat.lt_succ_iff_lt_or_eq.mp hb with hlt | rfl
      · rw [heap_addBucket cfg key hlt] at hc ⊢
        exact h.cached b hlt c hc
      · simp [addBucket, ClaimBucket.new] at hc
    · exact (h.calls j t hj).frame (Nat.le_succ _) fun b hb => by rw [heap_addBucket cfg key hb]
    · rcases List.mem_cons.mp ((evict_sublist cfg _).subset hb) with rfl | hb
      · exact Nat.lt_succ_self _
      · exact (h.lru_lt b hb).trans (Nat.lt_succ_self _)
  · obtain ⟨hmem, hkey⟩ := lookup_eq_some hl
    refine ⟨⟨h.cached, fun j t hj => (h.calls j t hj).frame le_rfl fun _ _ => rfl,
        fun b' hb' => ?_⟩,
      h.lru_lt b hmem, hkey⟩
    exact h.lru_lt b' ((List.perm_cons_erase hmem).mem_iff.mpr hb')

/-- The call takes candidates out of its bucket. -/
theorem Sourced.pulled (h : Sourced P s) {b : ℕ} (hb : OfKey s t b) (n : ℕ) :
    Sourced P (s.setBucket b fun x =>
      { x with cands := (pull t.pred t.prefer n (s.heap b).cands).2 })
      ∧ Fits P t (pull t.pred t.prefer n (s.heap b).cands).1 := by
  refine ⟨h.setBucket (fun _ => rfl) fun c hc hlt => h.cached b hlt c (mem_of_mem_pull (.inr hc)),
      fits_pull ?_ n⟩
  exact fun c hc => hb.2 ▸ h.cached b hb.1 c hc

theorem ofKey_setBucket {b b' : ℕ} {f : ClaimBucket → ClaimBucket} (hkey : ∀ x, (f x).key = x.key)
    (h : OfKey s t b') : OfKey (s.setBucket b f) t b' := by
  refine ⟨h.1, ?_⟩
  by_cases he : b' = b
  · subst he
    simpa [CacheState.setBucket, hkey] using h.2
  · simpa [CacheState.setBucket, Function.update_of_ne he] using h.2

theorem Sourced.locks (h : Sourced P s) (b : ℕ) (r : Option ℕ) :
    Sourced P (s.setBucket b fun x => { x with refiller := r }) :=
  h.setBucket (fun _ => rfl) fun c hc hlt => h.cached b hlt c hc

/-- Nothing changes that the candidates are taken by. -/
structure Aside (s s' : CacheState) : Prop where
  next : s'.next = s.next
  lru : s'.lru = s.lru
  takes : s'.takes = s.takes
  heap : ∀ b, (s'.heap b).key = (s.heap b).key ∧ (s'.heap b).cands = (s.heap b).cands
    ∧ (s'.heap b).refiller = (s.heap b).refiller

theorem Sourced.aside (h : Sourced P s) {s' : CacheState} (ha : Aside s s') : Sourced P s' := by
  refine ⟨fun b hb c hc => ?_, fun j t hj => ?_, fun b hb => ?_⟩
  · rw [(ha.heap b).1]
    exact h.cached b (ha.next ▸ hb) c ((ha.heap b).2.1 ▸ hc)
  · exact (h.calls j t (ha.takes ▸ hj)).frame ha.next.ge fun b _ => (ha.heap b).1
  · exact ha.next ▸ h.lru_lt b (ha.lru ▸ hb)

theorem aside_of_eq {s' : CacheState} (hheap : s'.heap = s.heap) (hnext : s'.next = s.next)
    (hlru : s'.lru = s.lru)
    (htakes : s'.takes = s.takes) : Aside s s' :=
  ⟨hnext, hlru, htakes, fun b => by rw [hheap]; exact ⟨rfl, rfl, rfl⟩⟩

theorem aside_mark (s : CacheState) (cfg : CacheConfig) (key₀ : String) (j : ℕ) (key : String) :
    Aside s (s.step cfg key₀ (.mark j key)) := by
  simp only [CacheState.step, CacheState.apply]
  split <;> exact aside_of_eq rfl rfl rfl rfl

theorem aside_runMark (s : CacheState) (cfg : CacheConfig) (key₀ : String) (j : ℕ) :
    Aside s (s.step cfg key₀ (.runMark j)) := by
  simp only [CacheState.step, CacheState.apply]
  split
  · exact aside_of_eq rfl rfl rfl rfl
  · rename_i m _
    rcases m with _ | ⟨_ | b, key, time⟩ | _
    · exact aside_of_eq rfl rfl rfl rfl
    · exact aside_of_eq rfl rfl rfl rfl
    · refine ⟨rfl, rfl, rfl, fun b' => ?_⟩
      by_cases he : b' = b
      · subst he
        simp [CacheState.runMark, CacheState.setBucket]
      · simp [CacheState.runMark, CacheState.setBucket, Function.update_of_ne he]
    · exact aside_of_eq rfl rfl rfl rfl

theorem sourced_initial (P : String → Record → Prop) (now : Time) : Sourced P (initial now) where
  cached _ h := absurd h (Nat.not_lt_zero _)
  calls _ _ h := by cases h
  lru_lt _ h := by cases h

end CacheState

/-- How many steps a call has still to go if it need not wait. -/
def Phase.left : Phase → ℕ
  | .start => 7
  | .fast _ => 6
  | .tryLock _ _ => 5
  | .locked _ _ => 4
  | .probing _ _ _ _ => 3
  | .unlock _ _ _ _ => 2
  | .filteredProbe _ => 1
  | .waiting _ _ | .gate _ _ | .waited _ _ | .returned _ _ => 0

namespace CacheState

variable {s : CacheState} {i : ℕ} {t : TakeCall}

/-- The call is alone: nobody refills but itself. -/
def Alone (s : CacheState) : Phase → Prop
  | .start | .fast _ | .tryLock _ _ | .filteredProbe _ | .returned (some _) _ =>
    ∀ b, (s.heap b).refiller = none
  | .locked b _ | .probing b _ _ _ | .unlock b _ false _ => ∀ b' ≠ b, (s.heap b').refiller = none
  | _ => False

theorem refiller_bucket (cfg : CacheConfig) (key : String)
    (h : ∀ b, (s.heap b).refiller = none) (b : ℕ) :
    ((s.bucket cfg key).2.heap b).refiller = none := by
  unfold bucket
  rcases s.lookup key with _ | b'
  · by_cases he : b = s.next
    · simp [addBucket, ClaimBucket.new, he]
    · simpa [addBucket, Function.update_of_ne he] using h b
  · exact h b

theorem refiller_setBucket (b' : ℕ) {f : ClaimBucket → ClaimBucket}
    (hf : ∀ x, (f x).refiller = x.refiller) (b : ℕ) :
    ((s.setBucket b' f).heap b).refiller = (s.heap b).refiller := by
  by_cases he : b = b'
  · subst he
    simp [setBucket, hf]
  · simp [setBucket, Function.update_of_ne he]

/-- What is left of the call, and that it is still alone. -/
def Nearer (s' : CacheState) (i : ℕ) (t : TakeCall) : Prop :=
  ∃ ph, s'.takes i = some { t with phase := ph } ∧ s'.Alone ph ∧ ph.left ≤ t.phase.left - 1

theorem nearer_setPhase {ph : Phase} (h : s.Alone ph) (hl : ph.left ≤ t.phase.left - 1) :
    (s.setPhase i t ph).Nearer i t := by
  refine ⟨ph, Function.update_self _ _ _, ?_, hl⟩
  cases ph with
  | returned result since => cases result <;> exact h
  | unlock b out failed empty => cases failed <;> exact h
  | _ => exact h

variable {P : String → Record → Prop}

/-- The call is a step nearer to its end, and nothing is changed for the others. -/
def Moved (P : String → Record → Prop) (s : CacheState) (i : ℕ) (t : TakeCall)
    (s' : CacheState) : Prop :=
  Sourced P s' ∧ s'.Nearer i t ∧ ∀ j ≠ i, s'.takes j = s.takes j

theorem moved_setPhase {s' : CacheState} {ph : Phase} (h : Sourced P s')
    (htakes : s'.takes = s.takes)
    (hfits : PhaseFits P s' t ph) (halone : s'.Alone ph) (hl : ph.left ≤ t.phase.left - 1) :
    Moved P s i t (s'.setPhase i t ph) :=
  ⟨h.setPhase hfits, nearer_setPhase halone hl, fun j hj =>
      (Function.update_of_ne hj _ _).trans (congrFun htakes j)⟩

/-- The step of a call that need not wait for another one. -/
theorem Sourced.runTake (h : Sourced P s) (cfg : CacheConfig) (ht : s.takes i = some t)
    (halone : s.Alone t.phase) {cands : List Record} (hans : ∀ c ∈ cands, P t.key c) :
    Moved P s i t (s.runTake cfg i t (some cands)) := by
  have hfits := h.calls i t ht
  unfold CacheState.runTake
  cases hphase : t.phase with
  | start =>
    rw [hphase] at halone
    simp only
    split_ifs with hwant hnone
    · exact moved_setPhase h rfl (fun _ hc => by cases hc) halone (Nat.zero_le _)
    · cases hnone
    · obtain ⟨hb, hlt, hkey⟩ := h.bucket cfg t.key
      exact moved_setPhase hb (bucket_frame cfg t.key).2.1 ⟨hlt,
          hkey⟩ (refiller_bucket cfg t.key halone)
        (by rw [hphase]; exact le_rfl)
  | fast b =>
    rw [hphase] at hfits halone
    obtain ⟨hs, hout⟩ := h.pulled hfits t.want
    have hidle := fun rest b' => (refiller_setBucket (s := s) b (f := fun x =>
        { x with cands := rest })
      (fun _ => rfl) b').trans (halone b')
    simp only
    split_ifs
    · exact moved_setPhase hs rfl hout (hidle _) (Nat.zero_le _)
    · exact moved_setPhase hs rfl ⟨ofKey_setBucket (fun _ => rfl) hfits,
        hout⟩ (hidle _) (by rw [hphase]; exact le_rfl)
  | tryLock b out =>
    rw [hphase] at hfits halone
    simp only
    rw [if_pos (halone b)]
    refine moved_setPhase (h.locks b _) rfl ⟨ofKey_setBucket (fun _ => rfl) hfits.1,
        hfits.2⟩ (fun b' he => ?_)
      (by rw [hphase]; exact le_rfl)
    exact (congrArg ClaimBucket.refiller (Function.update_of_ne he _ _)).trans (halone b')
  | locked b out =>
    rw [hphase] at hfits halone
    exact moved_setPhase h rfl hfits halone (by rw [hphase]; exact le_rfl)
  | probing b out gen probe =>
    rw [hphase] at hfits halone
    refine moved_setPhase (h.setBucket (fun x => by split_ifs <;> rfl) fun c hc _ => ?_) rfl
      ⟨ofKey_setBucket (fun x => by split_ifs <;> rfl) hfits.1, hfits.2.append (fits_pull hans _)⟩
          (fun b' he => ?_)
      (by rw [hphase]; exact le_rfl)
    · have hc : c ∈ (pull t.pred t.prefer (t.want - out.length) cands).2 := by
        split_ifs at hc <;> exact hc
      rw [hfits.1.2]
      exact hans c (mem_of_mem_pull (.inr hc))
    · rw [refiller_setBucket]
      · exact halone b' he
      · exact fun x => by split_ifs <;> rfl
  | unlock b out failed empty =>
    rw [hphase] at hfits halone
    cases failed with
    | true => exact halone.elim
    | false =>
      have hidle : ∀ b', ((s.setBucket b fun x => { x with refiller := none }).heap b').refiller
          = none := fun b' => by
        by_cases he : b' = b
        · simp [CacheState.setBucket, he]
        · simpa [CacheState.setBucket, Function.update_of_ne he] using halone b' he
      simp only [Bool.false_eq_true, if_false]
      unfold CacheState.afterRefill
      split_ifs
      · exact moved_setPhase (h.locks b _) rfl hfits.2 hidle (Nat.zero_le _)
      · exact moved_setPhase (h.locks b _) rfl trivial hidle (by rw [hphase]; exact le_rfl)
  | filteredProbe probe =>
    rw [hphase] at halone
    refine moved_setPhase h rfl (fun c hc => ?_) halone (Nat.zero_le _)
    obtain ⟨hc, hp⟩ := mem_preferredMatches hc
    exact ⟨hans c hc, hp⟩
  | returned result since =>
    exact ⟨h, ⟨t.phase, ht, halone, by rw [hphase]; exact le_rfl⟩, fun _ _ => rfl⟩
  | waiting | gate | waited =>
    rw [hphase] at halone
    exact halone.elim

end CacheState

namespace Backend

open CacheState

variable {P : String → Record → Prop} {index : ℕ → List Record → List Record} {cfg : CacheConfig}
  {refill : ℕ}
  {bound : Bound} {i : ℕ} {b : Backend} {t : TakeCall}

variable {claimKey : String}

theorem mem_probe (hindex : ∀ n l, index n l ⊆ l) {filter : Option Bound} {maxRecords : ℕ}
    {c : Record} (h : c ∈ b.probe index claimKey filter maxRecords) :
    c ∈ b.server ∧ c.claimKey = some claimKey := by
  obtain ⟨hc, hsel⟩ := Table.mem_select.mp (hindex _ _ (List.mem_of_mem_take h))
  simp only [Query.selects, Bool.and_eq_true, decide_eq_true_eq] at hsel
  exact ⟨hc, hsel.1⟩

/-- The next step of a call: it gets an answer if it is a probe. -/
theorem advance_eq (hindex : ∀ n l, index n l ⊆ l) (cfg : CacheConfig) (refill : ℕ) (bound : Bound)
    (ht : b.cache.takes i = some t) :
    ∃ cands, (∀ c ∈ cands, c ∈ b.server ∧ c.claimKey = some t.key)
      ∧ (b.advance index cfg refill bound i).cache = b.cache.step cfg t.key
        (.runTake i (some cands))
      ∧ (b.advance index cfg refill bound i).server = b.server
      ∧ (b.advance index cfg refill bound i).calls = b.calls := by
  unfold advance
  rw [ht]
  simp only
  split
  · exact ⟨_, fun c hc => mem_probe hindex hc, rfl, rfl, rfl⟩
  · exact ⟨_, fun c hc => mem_probe hindex hc, rfl, rfl, rfl⟩
  · exact ⟨[], fun c hc => (List.not_mem_nil hc).elim, rfl, rfl, rfl⟩

/-- The call is under way: what its key promises holds of all candidates. -/
structure Underway (P : String → Record → Prop) (server : Server) (claimKey : String)
    (bound : Bound) (i : ℕ)
    (b : Backend) : Prop where
  server : b.server = server
  calls : b.calls = i + 1
  sourced : Sourced P b.cache
  call : ∃ t, b.cache.takes i = some t ∧ t.key = claimKey ∧ t.pred = bound.pred
      ∧ b.cache.Alone t.phase
  fresh : ∀ j, i < j → b.cache.takes j = none

section Lone

variable (hindex : ∀ n l, index n l ⊆ l) {server : Server}
  (hP : ∀ r ∈ server, ∀ k, r.claimKey = some k → P k r)
  (cfg : CacheConfig) (refill : ℕ)

include hindex hP in
theorem Underway.advance (h : Underway P server claimKey bound i b) {n : ℕ}
    (hn : ∀ t, b.cache.takes i = some t → t.phase.left ≤ n + 1) :
    Underway P server claimKey bound i (b.advance index cfg refill bound i)
      ∧ ∀ t, (b.advance index cfg refill bound i).cache.takes i = some t → t.phase.left ≤ n := by
  obtain ⟨t, ht, hkey, hpred, halone⟩ := h.call
  obtain ⟨cands, hcands, hcache, hserver, hcalls⟩ := advance_eq hindex cfg refill bound ht
  obtain ⟨hs, ⟨ph, hph, halone, hleft⟩, hothers⟩ := h.sourced.runTake cfg ht halone fun c hc =>
    hP c (h.server ▸ (hcands c hc).1) _ (hcands c hc).2
  have hcache : (b.advance index cfg refill bound i).cache
      = { b.cache.runTake cfg i t (some cands) with tick := b.cache.tick + 1 } := by
    rw [hcache]
    simp only [CacheState.step, CacheState.apply, ht]
  refine ⟨⟨hserver.trans h.server, hcalls.trans h.calls, ?_, ?_, fun j hj => ?_⟩, fun t' ht' => ?_⟩
  · exact hcache ▸ hs.aside (aside_of_eq rfl rfl rfl rfl)
  · exact hcache ▸ ⟨_, hph, hkey, hpred, halone⟩
  · exact hcache ▸ (hothers j hj.ne').trans (h.fresh j hj)
  · rw [hcache] at ht'
    obtain rfl := Option.some.inj (hph.symm.trans ht')
    exact hleft.trans (Nat.sub_le_of_le_add (hn t ht))

include hindex hP in
theorem Underway.iterate (n : ℕ) (h : Underway P server claimKey bound i b)
    (hn : ∀ t, b.cache.takes i = some t → t.phase.left ≤ n) :
    Underway P server claimKey bound i ((Backend.advance index cfg refill bound i)^[n] b)
      ∧ ∀ t, ((Backend.advance index cfg refill bound i)^[n] b).cache.takes i = some t →
        t.phase.left ≤ 0 := by
  induction n generalizing b with
  | zero => exact ⟨h, hn⟩
  | succ n ih =>
    obtain ⟨h, hn⟩ := h.advance hindex hP cfg refill hn
    exact ih h hn

/-- A call that is not on its way any more has returned. -/
theorem returned_of_alone {s : CacheState} {ph : Phase} (h : s.Alone ph) (hleft : ph.left ≤ 0) :
    ∃ out since, ph = .returned (some out) since := by
  cases ph with
  | returned result since =>
    cases result with
    | none => exact h.elim
    | some out => exact ⟨out, since, rfl⟩
  | waiting | gate | waited => exact h.elim
  | _ => exact absurd hleft (by simp [Phase.left])

end Lone

/-- Between the calls. -/
structure Ready (P : String → Record → Prop) (b : Backend) : Prop where
  sourced : Sourced P b.cache
  idle : ∀ k, (b.cache.heap k).refiller = none
  fresh : ∀ i, b.calls ≤ i → b.cache.takes i = none

theorem Ready.underway (h : Ready P b) (cfg : CacheConfig) (now : Time) (claimKey : String)
    (bound : Bound)
    (want : ℕ) : Underway P b.server claimKey bound b.calls (b.begin cfg now claimKey bound want)
      ∧ ∀ t, (b.begin cfg now claimKey bound want).cache.takes b.calls = some t →
        t.phase.left ≤ 7 := by
  have hcache : (b.begin cfg now claimKey bound want).cache
      = { { b.cache with now := now }.setPhase b.calls ⟨claimKey, some bound.valueFilter,
            bound.pred, bound.prefer, want, b.cache.tick, b.cache.marked, .start⟩ .start with
          tick := b.cache.tick + 1 } := by
    simp only [begin, CacheState.step, CacheState.apply, h.fresh b.calls le_rfl]
    rfl
  have hs : Sourced P { b.cache with now := now } := h.sourced.aside (aside_of_eq rfl rfl rfl rfl)
  refine ⟨⟨rfl, rfl, ?_, ?_, fun j hj => ?_⟩, fun t ht => ?_⟩
  · exact hcache ▸ (hs.setPhase (show PhaseFits P _ _ .start from trivial)).aside
      (aside_of_eq rfl rfl rfl rfl)
  · exact hcache ▸ ⟨_, Function.update_self _ _ _, rfl, rfl, h.idle⟩
  · exact hcache ▸ (Function.update_of_ne hj.ne' _ _).trans (h.fresh j hj.le)
  · rw [hcache] at ht
    cases (Function.update_self _ _ _).symm.trans ht
    exact le_rfl

theorem take_returns (hindex : ∀ n l, index n l ⊆ l) (h : Ready P b)
    (hP : ∀ r ∈ b.server, ∀ k, r.claimKey = some k → P k r) (cfg : CacheConfig)
    (refill : ℕ) (now : Time) (claimKey : String) (bound : Bound) (want : ℕ) :
    (b.take index cfg refill now claimKey bound want).2.server = b.server
      ∧ Ready P (b.take index cfg refill now claimKey bound want).2
      ∧ ∀ c ∈ (b.take index cfg refill now claimKey bound want).1, P claimKey c
        ∧ bound.pred c.sats = true := by
  obtain ⟨hu, hleft⟩ := h.underway cfg now claimKey bound want
  obtain ⟨hu, hleft⟩ := hu.iterate hindex hP cfg refill 7 hleft
  obtain ⟨t, ht, hkey, hpred, halone⟩ := hu.call
  have hfits := hu.sourced.calls b.calls t ht
  obtain ⟨out, since, hphase⟩ := returned_of_alone halone (hleft t ht)
  have hout : (b.take index cfg refill now claimKey bound want).1 = out := by
    unfold take taken
    simp only [ht, Option.map_some, hphase]
  rw [hphase] at hfits halone
  refine ⟨hu.server, ⟨hu.sourced, halone, fun i hi => hu.fresh i (hu.calls.symm.le.trans hi)⟩,
      fun c hc => ?_⟩
  rw [hout] at hc
  exact ⟨hkey ▸ (hfits c hc).1, hpred ▸ (hfits c hc).2⟩

theorem Ready.probed (h : Ready P b) (n : ℕ) : Ready P { b with probes := n } :=
  ⟨h.sourced, h.idle, h.fresh⟩

theorem claimCands_sourced (hindex : ∀ n l, index n l ⊆ l) (h : Ready P b)
    (hP : ∀ r ∈ b.server, ∀ k, r.claimKey = some k → P k r) (cfg : Config) (now : Time)
    (claimKey : String) (bound : Bound) (want : ℕ) :
    (b.claimCands index cfg now claimKey bound want).2.server = b.server
      ∧ Ready P (b.claimCands index cfg now claimKey bound want).2
      ∧ ∀ c ∈ (b.claimCands index cfg now claimKey bound want).1, P claimKey c
        ∧ bound.pred c.sats = true := by
  unfold claimCands
  cases cfg.cache with
  | none =>
    refine ⟨rfl, h.probed _, fun c hc => ?_⟩
    obtain ⟨hc, hpred⟩ := mem_preferredMatches hc
    obtain ⟨hmem, hkey⟩ := mem_probe hindex hc
    exact ⟨hP c hmem claimKey hkey, hpred⟩
  | some c => exact take_returns hindex h hP c cfg.refill now claimKey bound want

theorem Ready.aside (h : Ready P b) {s : CacheState} (ha : Aside b.cache s) :
    Ready P { b with cache := s } :=
  ⟨h.sourced.aside ha, fun k => (ha.heap k).2.2.trans (h.idle k), fun i hi =>
      ha.takes ▸ h.fresh i hi⟩

theorem markClaimable_ready (h : Ready P b) (cfg : Config) (claimKey : String) :
    Ready P (b.markClaimable cfg claimKey) := by
  unfold markClaimable
  cases cfg.cache with
  | none => exact h
  | some c =>
    have hmarked := ((h.aside (aside_mark _ c claimKey b.calls claimKey)).aside
      (aside_runMark _ c claimKey b.calls)).aside (aside_runMark _ c claimKey b.calls)
    exact ⟨hmarked.sourced, hmarked.idle, fun i hi => hmarked.fresh i (Nat.le_of_succ_le hi)⟩

theorem ready_initial (P : String → Record → Prop) (now : Time) : Ready P (initial now) :=
  ⟨sourced_initial P now, fun _ => rfl, fun _ _ => rfl⟩

end Backend

end ArcadeToolbox.Aerostore
