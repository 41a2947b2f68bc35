import ArcadeToolbox.Aerostore.Records
import ArcadeToolbox.Lib.Runs
import Mathlib.Data.List.Sort
import Mathlib.Logic.Function.Basic

/-!
# The claim cache

Claims take their candidates from a cache. It has a bucket for each claim key, with the records that
the last probe of the index returned, and for some time the verdict of a probe that returned none.
Whoever makes a coin claimable marks the bucket afterwards, which withdraws the verdict, also the
one of a probe that is on its way. One call at a time probes a bucket; the others wait for it and
take what it left.

The calls run concurrently. A step is what a call does under one lock, or the end of a probe.
-/

namespace ArcadeToolbox.Aerostore

open Txn

/-- How many buckets are kept, and for how long one counts as empty. -/
structure CacheConfig where
  /-- at most so many buckets are kept, if it is not `0` -/
  maxBuckets : ℕ
  /-- how long an empty probe counts; never, if it is not positive -/
  emptyTTL : Time

/-- The records cached under one claim key. -/
structure ClaimBucket where
  key : String
  cands : List Record
  probedEmpty : Bool
  probedAt : Time
  gen : ℕ
  /-- the call that holds `refillMu` -/
  refiller : Option ℕ
  deriving DecidableEq, Repr

namespace ClaimBucket

def new (key : String) : ClaimBucket := ⟨key, [], false, 0, 0, none⟩

def knownEmpty (b : ClaimBucket) (now emptyTTL : Time) : Bool :=
  b.probedEmpty && b.cands = [] && 0 < emptyTTL && now - b.probedAt < emptyTTL

end ClaimBucket

/-- The scan for the candidate to hand out, with the best one so far and its place. Without a
preference the first match is taken. -/
def scan (pred : ℕ → Bool) (prefer : Option (ℕ → ℕ → Bool)) : List Record → ℕ →
    Option (ℕ × Record) →
    Option (ℕ × Record)
  | [], _, best => best
  | c :: cs, i, best =>
    if pred c.sats then
      match best, prefer with
      | none, none => some (i, c)
      | none, some _ => scan pred prefer cs (i + 1) (some (i, c))
      | some (j, d), some p =>
        scan pred prefer cs (i + 1) (if p c.sats d.sats then some (i, c) else some (j, d))
      | some b, none => some b
    else scan pred prefer cs (i + 1) best

/-- The last element takes the place of the one that goes. -/
def swapRemove (i : ℕ) (cs : List Record) : List Record :=
  match cs.getLast? with
  | none => []
  | some last => (cs.set i last).dropLast

/-- `pullLocked`: up to so many matching candidates, and what is left. -/
def pull (pred : ℕ → Bool) (prefer : Option (ℕ → ℕ → Bool)) : ℕ → List Record →
    List Record × List Record
  | 0, cs => ([], cs)
  | n + 1, cs =>
    match scan pred prefer cs 0 none with
    | none => ([], cs)
    | some (i, c) =>
      let (out, rest) := pull pred prefer n (swapRemove i cs)
      (c :: out, rest)

def preferredMatches (cands : List Record) (pred : ℕ → Bool) (prefer : Option (ℕ → ℕ → Bool))
    (want : ℕ) :
    List Record :=
  let out := cands.filter fun c => pred c.sats
  (match prefer with
    | none => out
    | some p => out.insertionSort fun a b => p b.sats a.sats = false).take want

theorem preferredMatches_ne_nil {cands : List Record} {pred : ℕ → Bool}
    {prefer : Option (ℕ → ℕ → Bool)}
    {want : ℕ} (hwant : 0 < want) {c : Record} (hc : c ∈ cands) (hp : pred c.sats = true) :
    preferredMatches cands pred prefer want ≠ [] := by
  have hmem : c ∈ cands.filter fun c => pred c.sats := List.mem_filter.mpr ⟨hc, hp⟩
  have hne : (match prefer with
      | none => cands.filter fun c => pred c.sats
      | some p =>
        (cands.filter fun c => pred c.sats).insertionSort fun a b =>
            p b.sats a.sats = false) ≠ [] := by
    cases prefer with
    | none => exact List.ne_nil_of_mem hmem
    | some p => exact List.ne_nil_of_mem ((List.mem_insertionSort _).mpr hmem)
  unfold preferredMatches
  rw [ne_eq, List.take_eq_nil_iff, not_or]
  exact ⟨hwant.ne', hne⟩

/-- Where a call of `take` is. It has a bucket `b` and what it pulled so far. The calls of other
goroutines may have the same bucket, and it may have been evicted. -/
inductive Phase where
  | start
  | fast (b : ℕ)
  | tryLock (b : ℕ) (out : List Record)
  /-- waits for the refill of another call -/
  | waiting (b : ℕ) (out : List Record)
  | gate (b : ℕ) (out : List Record)
  | waited (b : ℕ) (out : List Record)
  /-- has `refillMu` -/
  | locked (b : ℕ) (out : List Record)
  /-- probes the whole bucket, since the time `probe`; `gen` is what it read before -/
  | probing (b : ℕ) (out : List Record) (gen probe : ℕ)
  /-- the bucket is refilled; the probe failed, or it returned nothing or something -/
  | unlock (b : ℕ) (out : List Record) (failed empty : Bool)
  /-- asks the server for matching coins only -/
  | filteredProbe (probe : ℕ)
  /-- the candidates, or a failure; and since when the coin was claimable at that time -/
  | returned (result : Option (List Record)) (since : Option ℕ)
  deriving DecidableEq, Repr

/-- A call of `take` on its way. -/
structure TakeCall where
  key : String
  valueFilter : Option (ℕ → Bool)
  pred : ℕ → Bool
  prefer : Option (ℕ → ℕ → Bool)
  want : ℕ
  /-- when it began -/
  began : ℕ
  /-- when the last of the `markClaimable` calls for the coin that had returned by then was made -/
  marked : Option ℕ
  phase : Phase

/-- A call of `markClaimable` and when it was made; then the bucket that it found, if it did. -/
inductive MarkCall where
  | called (key : String) (time : ℕ)
  | found (bucket : Option ℕ) (key : String) (time : ℕ)
  | returned
  deriving DecidableEq, Repr

/-- The cache, the calls, and the coin in question: its claim key and since when it has been
claimable. Times are numbers of steps; `now` is the clock. -/
structure CacheState where
  heap : ℕ → ClaimBucket
  next : ℕ
  /-- the buckets in the map, the last used one first -/
  lru : List ℕ
  now : Time
  takes : ℕ → Option TakeCall
  marks : ℕ → Option MarkCall
  tick : ℕ
  since : Option ℕ
  marked : Option ℕ

namespace CacheState

def initial (now : Time) : CacheState :=
  ⟨fun _ => .new "", 0, [], now, fun _ => none, fun _ => none, 0, none, none⟩

/-- The coin has been claimable since then. -/
def Steady (s : CacheState) (time : ℕ) : Prop := ∃ t ∈ s.since, t ≤ time

instance (s : CacheState) (time : ℕ) : Decidable (s.Steady time) :=
  decidable_of_iff (s.since.any fun t => t ≤ time) (by simp [Steady, Option.any_eq_true])

def lookup (s : CacheState) (key : String) : Option ℕ := s.lru.find? fun b => (s.heap b).key = key

/-- The buckets that have not been used for the longest time go. -/
def evict (cfg : CacheConfig) (lru : List ℕ) : List ℕ :=
  if 0 < cfg.maxBuckets then lru.take cfg.maxBuckets else lru

def addBucket (cfg : CacheConfig) (key : String) (s : CacheState) : CacheState :=
  { s with heap := Function.update s.heap s.next (.new key), next := s.next + 1
           lru := evict cfg (s.next :: s.lru) }

/-- The bucket of the key, which is created if there is none. -/
def bucket (cfg : CacheConfig) (key : String) (s : CacheState) : ℕ × CacheState :=
  match s.lookup key with
  | some b => (b, { s with lru := b :: s.lru.erase b })
  | none => (s.next, s.addBucket cfg key)

def setBucket (s : CacheState) (b : ℕ) (f : ClaimBucket → ClaimBucket) : CacheState :=
  { s with heap := Function.update s.heap b (f (s.heap b)) }

def setPhase (s : CacheState) (i : ℕ) (t : TakeCall) (phase : Phase) : CacheState :=
  { s with takes := Function.update s.takes i (some { t with phase := phase }) }

/-- The call returns. -/
def finish (s : CacheState) (i : ℕ) (t : TakeCall) (result : Option (List Record)) : CacheState :=
  s.setPhase i t (.returned result s.since)

/-- Back in `take` after the refill: what there is is returned, unless nothing matched in a bucket
that is not empty. -/
def afterRefill (s : CacheState) (i : ℕ) (t : TakeCall) (out : List Record) (empty : Bool) :
    CacheState :=
  if out ≠ [] ∨ empty ∨ t.valueFilter = none then s.finish i t (some out)
  else s.setPhase i t (.filteredProbe s.tick)

/-- The next step of a call. `answer` is what the probe returns, if it is one; no answer is a
failure, or a cancelled context. -/
def runTake (cfg : CacheConfig) (s : CacheState) (i : ℕ) (t : TakeCall)
    (answer : Option (List Record)) :
    CacheState :=
  match t.phase with
  | .start =>
    if t.want = 0 then s.finish i t (some [])
    else if answer = none then s.finish i t none
    else (s.bucket cfg t.key).2.setPhase i t (.fast (s.bucket cfg t.key).1)
  | .fast b =>
    let (out, rest) := pull t.pred t.prefer t.want (s.heap b).cands
    let s := s.setBucket b fun x => { x with cands := rest }
    if t.want ≤ out.length ∨ (s.heap b).knownEmpty s.now cfg.emptyTTL then s.finish i t (some out)
    else s.setPhase i t (.tryLock b out)
  | .tryLock b out =>
    if (s.heap b).refiller = none then
      (s.setBucket b fun x => { x with refiller := some i }).setPhase i t (.locked b out)
    else s.setPhase i t (.waiting b out)
  | .waiting b out =>
    if (s.heap b).refiller = none then
      (s.setBucket b fun x => { x with refiller := some i }).setPhase i t (.gate b out)
    else s
  | .gate b out => (s.setBucket b fun x => { x with refiller := none }).setPhase i t (.waited b out)
  | .waited b out =>
    if answer = none then s.finish i t none
    else
      let (more, rest) := pull t.pred t.prefer (t.want - out.length) (s.heap b).cands
      let s := s.setBucket b fun x => { x with cands := rest }
      s.afterRefill i t (out ++ more) ((s.heap b).knownEmpty s.now cfg.emptyTTL)
  | .locked b out => s.setPhase i t (.probing b out (s.heap b).gen s.tick)
  | .probing b out gen _ =>
    match answer with
    | none =>
      let (more, rest) := pull t.pred t.prefer (t.want - out.length) (s.heap b).cands
      (s.setBucket b fun x => { x with cands := rest }).setPhase i t
          (.unlock b (out ++ more) true false)
    | some probed =>
      let (more, rest) := pull t.pred t.prefer (t.want - out.length) probed
      -- an empty probe counts only if nothing was made claimable meanwhile
      (s.setBucket b fun x =>
        if probed ≠ [] then { x with cands := rest, probedEmpty := false }
        else if x.gen = gen then { x with cands := rest, probedEmpty := true, probedAt := s.now }
        else { x with cands := rest }).setPhase i t (.unlock b (out ++ more) false (probed = []))
  | .unlock b out failed empty =>
    let s := s.setBucket b fun x => { x with refiller := none }
    if failed then s.finish i t none else s.afterRefill i t out empty
  | .filteredProbe _ =>
    match answer with
    | none => s.finish i t none
    | some cands => s.finish i t (some (preferredMatches cands t.pred t.prefer t.want))
  | .returned _ _ => s

/-- The next step of a call of `markClaimable`. The coin's key is `key₀`. -/
def runMark (key₀ : String) (s : CacheState) (j : ℕ) : MarkCall → CacheState
  | .called key time =>
    { s with marks := Function.update s.marks j (some (.found (s.lookup key) key time)) }
  | .found bucket key time =>
    let s := match bucket with
      | none => s
      | some b => s.setBucket b fun x => { x with gen := x.gen + 1, probedEmpty := false }
    { s with marks := Function.update s.marks j (some .returned)
             marked := if key = key₀ then max s.marked (some time) else s.marked }
  | .returned => s

inductive CacheEvent where
  /-- `take` is called -/
  | take (i : ℕ) (key : String) (valueFilter : Option (ℕ → Bool)) (pred : ℕ → Bool)
      (prefer : Option (ℕ → ℕ → Bool)) (want : ℕ)
  | runTake (i : ℕ) (answer : Option (List Record))
  /-- `markClaimable` is called -/
  | mark (j : ℕ) (key : String)
  | runMark (j : ℕ)
  /-- the coin becomes claimable, or stops being so -/
  | claimable (b : Bool)
  | wait (d : ℕ)

def apply (cfg : CacheConfig) (key₀ : String) (s : CacheState) : CacheEvent → CacheState
  | .take i key valueFilter pred prefer want =>
    match s.takes i with
    | none => { s with takes := Function.update s.takes i
                        (some ⟨key, valueFilter, pred, prefer, want, s.tick, s.marked, .start⟩) }
    | some _ => s
  | .runTake i answer =>
    match s.takes i with
    | none => s
    | some t => s.runTake cfg i t answer
  | .mark j key =>
    match s.marks j with
    | none => { s with marks := Function.update s.marks j (some (.called key s.tick)) }
    | some _ => s
  | .runMark j =>
    match s.marks j with
    | none => s
    | some m => s.runMark key₀ j m
  | .claimable true => { s with since := s.since.or (some s.tick) }
  | .claimable false => { s with since := none }
  | .wait d => { s with now := s.now + d }

def step (cfg : CacheConfig) (key₀ : String) (s : CacheState) (e : CacheEvent) : CacheState :=
  { s.apply cfg key₀ e with tick := s.tick + 1 }

end CacheState

/-- The coin is for this call: it has the call's key, and its value passes both filters. -/
def TakeCall.Suits (t : TakeCall) (key₀ : String) (sats : ℕ) : Prop :=
  t.key = key₀ ∧ t.pred sats = true ∧ t.valueFilter.any (fun f => f sats) = true

instance (t : TakeCall) (key₀ : String) (sats : ℕ) : Decidable (t.Suits key₀ sats) :=
  inferInstanceAs (Decidable (_ ∧ _ ∧ _))

namespace CacheState

/-- A probe of the coin's key returns something if the coin was claimable all the while; with a
filter that the coin passes it returns something that passes. -/
def honest (key₀ : String) (sats : ℕ) (s : CacheState) : CacheEvent → Bool
  | .runTake i (some cands) =>
    match s.takes i with
    | none => true
    | some t =>
      match t.phase with
      | .probing _ _ _ probe => !(decide (t.key = key₀) && decide (s.Steady probe)) || cands ≠ []
      | .filteredProbe probe =>
        !(decide (t.Suits key₀ sats) && decide (s.Steady probe)) || cands.any fun c => t.pred c.sats
      | _ => true
  | _ => true

/-- The bucket is not known to be empty, and no probe that is on its way can make it so. -/
structure Unhidden (s : CacheState) (b : ℕ) : Prop where
  verdict : (s.heap b).probedEmpty = false
  probes : ∀ i t out gen probe, s.takes i = some t → t.phase = .probing b out gen probe →
    gen = (s.heap b).gen → s.Steady probe

variable (key₀ : String) (sats : ℕ)

/-- The coin was marked, and has been claimable since that call was made. -/
def Hopes (s : CacheState) (t : TakeCall) : Prop := t.key = key₀ ∧ ∃ c ∈ t.marked, s.Steady c

/-- What a call that may hope for the coin can rely on. -/
def PhaseOk (s : CacheState) (t : TakeCall) : Phase → Prop
  | .start => True
  | .fast b | .tryLock b _ | .waiting b _ | .gate b _ | .waited b _ | .locked b _ =>
    b < s.next ∧ (s.heap b).key = t.key ∧ (Hopes key₀ s t → Unhidden s b)
  | .probing b _ gen probe =>
    b < s.next ∧ (s.heap b).key = t.key ∧ gen ≤ (s.heap b).gen
      ∧ (Hopes key₀ s t → Unhidden s b ∧ s.Steady probe)
  | .unlock b _ failed empty =>
    b < s.next ∧ (s.heap b).key = t.key ∧ (Hopes key₀ s t → Unhidden s b
        ∧ (failed = false → empty = false))
  | .filteredProbe probe => Hopes key₀ s t → s.Steady probe
  | .returned (some out) since =>
    t.Suits key₀ sats → 0 < t.want → ∀ c ∈ t.marked, ∀ t₀ ∈ since, t₀ ≤ c → out ≠ []
  | .returned none _ => True

structure Inv (n : ℕ) (s : CacheState) : Prop where
  since_lt : ∀ t ∈ s.since, t < n
  marked_lt : ∀ c ∈ s.marked, c < n
  lru_lt : ∀ b ∈ s.lru, b < s.next
  lru_keys : (s.lru.map fun b => (s.heap b).key).Nodup
  takes : ∀ i t, s.takes i = some t → PhaseOk key₀ sats s t t.phase ∧ ∀ c ∈ t.marked,
      ∃ c' ∈ s.marked, c ≤ c'
  called_lt : ∀ j key c, s.marks j = some (.called key c) → c < n
  found_lt : ∀ j b key c, s.marks j = some (.found b key c) → c < n
  found : ∀ j b c, s.marks j = some (.found b key₀ c) → s.Steady c →
    ∀ b' ∈ s.lru, (s.heap b').key = key₀ → b = some b' ∨ Unhidden s b'
  current : ∀ c ∈ s.marked, s.Steady c → ∀ b ∈ s.lru, (s.heap b).key = key₀ → Unhidden s b

variable {key₀ sats} {n : ℕ} {s s' : CacheState} {i : ℕ} {t : TakeCall} {ph : Phase}

/-- From one state to the next, with the coin as claimable as it was: no verdict on a bucket of the
coin's key appears, and none can. -/
structure Moves (key₀ : String) (s s' : CacheState) : Prop where
  next_le : s.next ≤ s'.next
  since : s'.since = s.since
  key : ∀ b < s.next, (s'.heap b).key = (s.heap b).key
  gen_le : ∀ b < s.next, (s.heap b).gen ≤ (s'.heap b).gen
  unhidden : ∀ b < s.next, (s.heap b).key = key₀ → (∃ c, s.Steady c) → Unhidden s b → Unhidden s' b

theorem Moves.steady (h : Moves key₀ s s') {c : ℕ} : s'.Steady c ↔ s.Steady c := by
  unfold Steady
  rw [h.since]

theorem Moves.hopes (h : Moves key₀ s s') : Hopes key₀ s' t ↔ Hopes key₀ s t := by
  simp only [Hopes, h.steady]

theorem Moves.unhidden_of_hopes (h : Moves key₀ s s') {b : ℕ} (hb : b < s.next)
    (hkey : (s.heap b).key = t.key)
    (hold : Hopes key₀ s t → Unhidden s b) (hh : Hopes key₀ s' t) : Unhidden s' b := by
  obtain ⟨ht, c, hm, hc⟩ := h.hopes.mp hh
  exact h.unhidden b hb (hkey.trans ht) ⟨c, hc⟩ (hold ⟨ht, c, hm, hc⟩)

theorem PhaseOk.moves (hm : Moves key₀ s s') (h : PhaseOk key₀ sats s t ph) :
    PhaseOk key₀ sats s' t ph := by
  have hholds : ∀ b, (b < s.next ∧ (s.heap b).key = t.key ∧ (Hopes key₀ s t → Unhidden s b)) →
      b < s'.next ∧ (s'.heap b).key = t.key ∧ (Hopes key₀ s' t → Unhidden s' b) :=
    fun b ⟨hb, hkey, hu⟩ => ⟨hb.trans_le hm.next_le, (hm.key b hb).trans hkey,
        hm.unhidden_of_hopes hb hkey hu⟩
  cases ph with
  | start => trivial
  | fast b => exact hholds b h
  | tryLock b out => exact hholds b h
  | waiting b out => exact hholds b h
  | gate b out => exact hholds b h
  | waited b out => exact hholds b h
  | locked b out => exact hholds b h
  | probing b out gen probe =>
    obtain ⟨hb, hkey, hgen, hu⟩ := h
    obtain ⟨hb', hkey', hu'⟩ := hholds b ⟨hb, hkey, fun hh => (hu hh).1⟩
    exact ⟨hb', hkey', hgen.trans (hm.gen_le b hb), fun hh =>
      ⟨hu' hh, hm.steady.mpr (hu (hm.hopes.mp hh)).2⟩⟩
  | unlock b out failed empty =>
    obtain ⟨hb, hkey, hu⟩ := h
    obtain ⟨hb', hkey', hu'⟩ := hholds b ⟨hb, hkey, fun hh => (hu hh).1⟩
    exact ⟨hb', hkey', fun hh => ⟨hu' hh, (hu (hm.hopes.mp hh)).2⟩⟩
  | filteredProbe probe => exact fun hh => hm.steady.mpr (h (hm.hopes.mp hh))
  | returned result since =>
    cases result with
    | none => trivial
    | some out => exact h

/-- The state is as before, but for the candidates of the buckets and their locks. -/
structure Quiet (s s' : CacheState) : Prop where
  next : s'.next = s.next
  since : s'.since = s.since
  lru : s'.lru = s.lru
  marks : s'.marks = s.marks
  marked : s'.marked = s.marked
  takes : s'.takes = s.takes
  tick : s'.tick = s.tick
  heap : ∀ b, (s'.heap b).key = (s.heap b).key ∧ (s'.heap b).gen = (s.heap b).gen
    ∧ (s'.heap b).probedEmpty = (s.heap b).probedEmpty

theorem Quiet.refl (s : CacheState) : Quiet s s :=
  ⟨rfl, rfl, rfl, rfl, rfl, rfl, rfl, fun _ => ⟨rfl, rfl, rfl⟩⟩

theorem quiet_setBucket {b : ℕ} {f : ClaimBucket → ClaimBucket}
    (hf : ∀ x, (f x).key = x.key ∧ (f x).gen = x.gen ∧ (f x).probedEmpty = x.probedEmpty) :
    Quiet s (s.setBucket b f) := by
  refine ⟨rfl, rfl, rfl, rfl, rfl, rfl, rfl, fun b' => ?_⟩
  unfold setBucket
  by_cases he : b' = b
  · subst he
    simp only [Function.update_self]
    exact hf _
  · simp only [Function.update_of_ne he, and_self]

theorem update_eq_some {β : Type} {f : ℕ → Option β} {i j : ℕ} {b c : β}
    (h : Function.update f i (some b) j = some c) : j = i ∧ c = b ∨ j ≠ i ∧ f j = some c := by
  by_cases he : j = i
  · rw [he, Function.update_self] at h
    exact .inl ⟨he, (Option.some.inj h).symm⟩
  · rw [Function.update_of_ne he] at h
    exact .inr ⟨he, h⟩

/-- A probe that the call starts has the coin claimable. -/
theorem Quiet.moves (hq : Quiet s s') (hph : ∀ b out gen probe, ph = .probing b out gen probe →
      (∃ c, s.Steady c) → s.Steady probe) : Moves key₀ s (s'.setPhase i t ph) where
  next_le := hq.next.ge
  since := hq.since
  key b _ := (hq.heap b).1
  gen_le b _ := (hq.heap b).2.1.ge
  unhidden b _ _ hc hu := by
    have hsteady : ∀ p, s.Steady p → (s'.setPhase i t ph).Steady p := fun p hp => by
      rwa [Steady, show (s'.setPhase i t ph).since = s.since from hq.since]
    refine ⟨(hq.heap b).2.2.trans hu.verdict, fun j t' out gen probe hj hphase hgen =>
        hsteady probe ?_⟩
    simp only [setPhase, hq.takes] at hj
    rcases update_eq_some hj with ⟨rfl, rfl⟩ | ⟨-, hj⟩
    · exact hph b out gen probe hphase hc
    · exact hu.probes j t' out gen probe hj hphase (hgen.trans (hq.heap b).2.1)

/-- Nothing that the invariant speaks of has changed, or a call has begun. -/
theorem moves_same (hnext : s'.next = s.next) (hsince : s'.since = s.since)
    (hheap : s'.heap = s.heap)
    (htakes : ∀ j t, s'.takes j = some t → s.takes j = some t ∨ t.phase = .start) :
    Moves key₀ s s' where
  next_le := hnext.ge
  since := hsince
  key b _ := by rw [hheap]
  gen_le b _ := by rw [hheap]
  unhidden b _ _ _ hu := by
    refine ⟨by rw [hheap]; exact hu.verdict, fun j t out gen probe hj hphase hgen => ?_⟩
    rw [hheap] at hgen
    rcases htakes j t hj with hj | hstart
    · have hp := hu.probes j t out gen probe hj hphase hgen
      rwa [Steady, hsince]
    · cases hstart.symm.trans hphase

/-- Calls of `take` go on or begin, and calls of `markClaimable`. -/
theorem Inv.aside {m : ℕ} (hi : Inv key₀ sats n s) (hnm : n ≤ m) (hm : Moves key₀ s s')
    (hlru : s'.lru.Perm s.lru)
    (htakes : ∀ j t, s'.takes j = some t → s.takes j = some t
      ∨ PhaseOk key₀ sats s' t t.phase ∧ ∀ c ∈ t.marked, ∃ c' ∈ s.marked, c ≤ c')
    (hmarked : ∀ c ∈ s.marked, ∃ c' ∈ s'.marked, c ≤ c') (hlt : ∀ c ∈ s'.marked, c < m)
    (hcalled : ∀ j key c, s'.marks j = some (.called key c) → c < m)
    (hfoundlt : ∀ j b key c, s'.marks j = some (.found b key c) → c < m)
    (hfound : ∀ j b c, s'.marks j = some (.found b key₀ c) → s.Steady c →
      ∀ b' ∈ s.lru, (s.heap b').key = key₀ → b = some b' ∨ Unhidden s b')
    (hcurrent : ∀ c ∈ s'.marked, s.Steady c → ∀ b ∈ s.lru, (s.heap b).key = key₀ → c ∈ s.marked
      ∨ Unhidden s' b) :
    Inv key₀ sats m s' where
  since_lt c hc := (hi.since_lt c (hm.since ▸ hc)).trans_le hnm
  marked_lt := hlt
  lru_lt b hb := (hi.lru_lt b (hlru.mem_iff.mp hb)).trans_le hm.next_le
  lru_keys := by
    rw [(hlru.map _).nodup_iff, List.map_congr_left fun b hb => hm.key b (hi.lru_lt b hb)]
    exact hi.lru_keys
  takes j t hj := by
    have hmono : ∀ c, (∃ c' ∈ s.marked, c ≤ c') → ∃ c' ∈ s'.marked, c ≤ c' :=
      fun c ⟨c1, hc1, hle1⟩ =>
      (hmarked c1 hc1).imp fun _ h => ⟨h.1, hle1.trans h.2⟩
    rcases htakes j t hj with hj | ⟨hok, hbefore⟩
    · exact ⟨(hi.takes j t hj).1.moves hm, fun c hc => hmono c ((hi.takes j t hj).2 c hc)⟩
    · exact ⟨hok, fun c hc => hmono c (hbefore c hc)⟩
  called_lt := hcalled
  found_lt := hfoundlt
  found j b c hj hc b' hb' hkey := by
    have hb' := hlru.mem_iff.mp hb'
    have hlt := hi.lru_lt b' hb'
    have hc := hm.steady.mp hc
    rw [hm.key b' hlt] at hkey
    exact (hfound j b c hj hc b' hb' hkey).imp_right (hm.unhidden b' hlt hkey ⟨c, hc⟩)
  current c hc hs b hb hkey := by
    have hb := hlru.mem_iff.mp hb
    have hs := hm.steady.mp hs
    rw [hm.key b (hi.lru_lt b hb)] at hkey
    rcases hcurrent c hc hs b hb hkey with hc | hu
    · exact hm.unhidden b (hi.lru_lt b hb) hkey ⟨c, hs⟩ (hi.current c hc hs b hb hkey)
    · exact hu

theorem Inv.moved {m : ℕ} (hi : Inv key₀ sats n s) (hnm : n ≤ m) (hm : Moves key₀ s s')
    (hlru : s'.lru.Perm s.lru) (hmarks : s'.marks = s.marks) (hmarked : s'.marked = s.marked)
    (htakes : ∀ j t, s'.takes j = some t → s.takes j = some t
      ∨ PhaseOk key₀ sats s' t t.phase ∧ ∀ c ∈ t.marked, ∃ c' ∈ s.marked, c ≤ c') : Inv key₀
        sats m s' := by
  refine hi.aside hnm hm hlru htakes ?_ ?_ ?_ ?_ ?_ ?_ <;> simp only [hmarks, hmarked]
  · exact fun c hc => ⟨c, hc, le_rfl⟩
  · exact fun c hc => (hi.marked_lt c hc).trans_le hnm
  · exact fun j key c hj => (hi.called_lt j key c hj).trans_le hnm
  · exact fun j b key c hj => (hi.found_lt j b key c hj).trans_le hnm
  · exact hi.found
  · exact fun c hc _ _ _ _ => .inl hc

/-- The step of a call. -/
theorem Inv.advanced (hi : Inv key₀ sats n s) (ht : s.takes i = some t) (hm : Moves key₀ s s')
    (hlru : s'.lru = s.lru) (hmarks : s'.marks = s.marks) (hmarked : s'.marked = s.marked)
    (htakes : s'.takes = Function.update s.takes i (some { t with phase := ph }))
    (hok : PhaseOk key₀ sats s' t ph) : Inv key₀ sats (n + 1) s' := by
  refine hi.moved (Nat.le_succ n) hm (hlru ▸ .refl _) hmarks hmarked fun j t' hj => ?_
  rw [htakes] at hj
  rcases update_eq_some hj with ⟨rfl, rfl⟩ | ⟨-, hj⟩
  · exact .inr ⟨hok, (hi.takes j t ht).2⟩
  · exact .inl hj

theorem Inv.steady_tick (hi : Inv key₀ sats s.tick s) {c : ℕ} (hc : s.Steady c) :
    s.Steady s.tick := by
  obtain ⟨t0, ht0, -⟩ := hc
  exact ⟨t0, ht0, (hi.since_lt t0 ht0).le⟩

/-- A quiet step of a call. -/
theorem Inv.act (hi : Inv key₀ sats s.tick s) (ht : s.takes i = some t) (hq : Quiet s s')
    (hph : ∀ b out gen probe, ph = .probing b out gen probe → probe = s.tick)
    (hok : Moves key₀ s (s'.setPhase i t ph) → PhaseOk key₀ sats (s'.setPhase i t ph) t ph) :
    Inv key₀ sats (s.tick + 1) (s'.setPhase i t ph) := by
  have hm : Moves key₀ s (s'.setPhase i t ph) := hq.moves fun b out gen probe he ⟨c, hc⟩ => by
    rw [hph b out gen probe he]
    exact hi.steady_tick hc
  refine hi.advanced ht hm hq.lru hq.marks hq.marked ?_ (hok hm)
  simp only [setPhase, hq.takes]

/-- The call returns something that the coin suits only if it is not empty. -/
theorem Inv.finish (hi : Inv key₀ sats s.tick s) (ht : s.takes i = some t) (hq : Quiet s s')
    {result : Option (List Record)}
    (h : ∀ out ∈ result, t.Suits key₀ sats → 0 < t.want → Hopes key₀ s t → out ≠ []) :
    Inv key₀ sats (s.tick + 1) (s'.finish i t result) := by
  refine hi.act ht hq (fun b out gen probe he => by cases he) fun _ => ?_
  cases result with
  | none => trivial
  | some out =>
    intro hsuits hwant c hc t0 ht0 hle
    rw [hq.since] at ht0
    exact h out rfl hsuits hwant ⟨hsuits.1, c, hc, t0, ht0, hle⟩

theorem Inv.afterRefill (hi : Inv key₀ sats s.tick s) (ht : s.takes i = some t) (hq : Quiet s s')
    {out : List Record} {empty : Bool} (hempty : Hopes key₀ s t → empty = false) :
    Inv key₀ sats (s.tick + 1) (s'.afterRefill i t out empty) := by
  unfold CacheState.afterRefill
  split_ifs with hret
  · refine hi.finish ht hq fun out' he hsuits _ hh => ?_
    cases he
    rcases hret with hne | he | hnone
    · exact hne
    · exact absurd he (by simp [hempty hh])
    · have := hsuits.2.2
      simp [hnone] at this
  · refine hi.act ht hq (fun b out gen probe he => by cases he) fun hm hh => ?_
    obtain ⟨-, c, -, hc⟩ := hm.hopes.mp hh
    rw [hq.tick]
    exact hm.steady.mpr (hi.steady_tick hc)

/-- The bucket of a call that has one. -/
theorem Inv.hold (hi : Inv key₀ sats s.tick s) (ht : s.takes i = some t) (hq : Quiet s s') {b : ℕ}
    (hb : b < s.next ∧ (s.heap b).key = t.key ∧ (Hopes key₀ s t → Unhidden s b))
    (hok : ∀ s'' : CacheState, b < s''.next ∧ (s''.heap b).key = t.key
      ∧ (Hopes key₀ s'' t → Unhidden s'' b) →
      PhaseOk key₀ sats s'' t ph)
    (hph : ∀ b out gen probe, ph ≠ .probing b out gen probe) :
    Inv key₀ sats (s.tick + 1) (s'.setPhase i t ph) :=
  hi.act ht hq (fun b out gen probe he => absurd he (hph b out gen probe)) fun hm =>
    have hfast : PhaseOk key₀ sats s t (.fast b) := hb
    hok _ (hfast.moves hm)

theorem knownEmpty_eq_false {b : ClaimBucket} (h : b.probedEmpty = false) (now ttl : Time) :
    b.knownEmpty now ttl = false := by
  simp [ClaimBucket.knownEmpty, h]

theorem lookup_eq_some {key : String} {b : ℕ} (h : s.lookup key = some b) :
    b ∈ s.lru ∧ (s.heap b).key = key :=
  ⟨List.mem_of_find?_eq_some h, by simpa using List.find?_some h⟩

theorem lookup_eq_none {key : String} (h : s.lookup key = none) : ∀ b ∈ s.lru,
    (s.heap b).key ≠ key := by
  simpa [lookup, List.find?_eq_none] using h

theorem Inv.used (hi : Inv key₀ sats n s) {lru : List ℕ} (hp : lru.Perm s.lru) :
    Inv key₀ sats n { s with lru := lru } :=
  hi.moved le_rfl (moves_same rfl rfl rfl fun _ _ h => .inl h) hp rfl rfl fun _ _ h => .inl h

theorem evict_sublist (cfg : CacheConfig) (lru : List ℕ) : (evict cfg lru).Sublist lru := by
  unfold evict
  split_ifs
  exacts [List.take_sublist _ _, List.Sublist.refl _]

theorem heap_addBucket (cfg : CacheConfig) (key : String) {b : ℕ} (hb : b < s.next) :
    (s.addBucket cfg key).heap b = s.heap b :=
  Function.update_of_ne hb.ne _ _

theorem moves_addBucket (cfg : CacheConfig) (key : String) :
    Moves key₀ s (s.addBucket cfg key) := by
  refine ⟨Nat.le_succ _, rfl, fun b hb => ?_, fun b hb => ?_, fun b hb _ _ hu => ⟨?_, ?_⟩⟩
  · rw [heap_addBucket cfg key hb]
  · rw [heap_addBucket cfg key hb]
  · rw [heap_addBucket cfg key hb]
    exact hu.verdict
  · intro j t out gen probe hj hphase hgen
    rw [heap_addBucket cfg key hb] at hgen
    exact hu.probes j t out gen probe hj hphase hgen

theorem Inv.unhidden_new (hi : Inv key₀ sats n s) (cfg : CacheConfig) (key : String) :
    Unhidden (s.addBucket cfg key) s.next := by
  refine ⟨by simp [addBucket, ClaimBucket.new], fun j t out gen probe hj hphase _ => ?_⟩
  have hok := (hi.takes j t hj).1
  rw [hphase] at hok
  exact absurd hok.1 (lt_irrefl _)

theorem Inv.addBucket (hi : Inv key₀ sats n s) (cfg : CacheConfig) {key : String}
    (hnew : ∀ b ∈ s.lru, (s.heap b).key ≠ key) : Inv key₀ sats n (s.addBucket cfg key) := by
  have hm : Moves key₀ s (s.addBucket cfg key) := moves_addBucket cfg key
  have hfresh := hi.unhidden_new cfg key
  have hmem : ∀ b ∈ (s.addBucket cfg key).lru, b = s.next ∨ b ∈ s.lru :=
    fun b hb => List.mem_cons.mp ((evict_sublist cfg _).subset hb)
  refine ⟨hi.since_lt, hi.marked_lt, fun b hb => ?_, ?_, fun j t hj => ?_, hi.called_lt,
      hi.found_lt, ?_, ?_⟩
  · rcases hmem b hb with rfl | hb
    · exact Nat.lt_succ_self _
    · exact (hi.lru_lt b hb).trans (Nat.lt_succ_self _)
  · refine List.Nodup.sublist ((evict_sublist cfg _).map _) ?_
    rw [List.map_cons, List.nodup_cons, List.map_congr_left fun b hb => hm.key b (hi.lru_lt b hb)]
    refine ⟨fun hk => ?_, hi.lru_keys⟩
    obtain ⟨b, hb, hkey⟩ := List.mem_map.mp hk
    exact hnew b hb (hkey.trans (by simp [CacheState.addBucket, ClaimBucket.new]))
  · exact ⟨(hi.takes j t hj).1.moves hm, (hi.takes j t hj).2⟩
  · intro j b c hj hc b' hb' hkey
    rcases hmem b' hb' with rfl | hb'
    · exact .inr hfresh
    · have hlt := hi.lru_lt b' hb'
      rw [hm.key b' hlt] at hkey
      exact (hi.found j b c hj hc b' hb' hkey).imp_right (hm.unhidden b' hlt hkey ⟨c, hc⟩)
  · intro c hc hs b hb hkey
    rcases hmem b hb with rfl | hb
    · exact hfresh
    · have hlt := hi.lru_lt b hb
      rw [hm.key b hlt] at hkey
      exact hm.unhidden b hlt hkey ⟨c, hs⟩ (hi.current c hc hs b hb hkey)

/-- The bucket that a call gets is in the map. If the coin was marked, it does not hide it. -/
theorem Inv.bucket (hi : Inv key₀ sats n s) (cfg : CacheConfig) (key : String) :
    Inv key₀ sats n (s.bucket cfg key).2 ∧ (s.bucket cfg key).1 < (s.bucket cfg key).2.next
      ∧ ((s.bucket cfg key).2.heap (s.bucket cfg key).1).key = key
      ∧ (key = key₀ → ∀ c ∈ s.marked, s.Steady c →
        Unhidden (s.bucket cfg key).2 (s.bucket cfg key).1) := by
  unfold CacheState.bucket
  rcases hl : s.lookup key with _ | b
  · exact ⟨hi.addBucket cfg (lookup_eq_none hl), Nat.lt_succ_self _, by
      simp [CacheState.addBucket, ClaimBucket.new],
      fun _ _ _ _ => hi.unhidden_new cfg key⟩
  · obtain ⟨hmem, hkey⟩ := lookup_eq_some hl
    have hinv := hi.used (List.perm_cons_erase hmem).symm
    exact ⟨hinv, hi.lru_lt b hmem, hkey, fun he c hc hs =>
      hinv.current c hc hs b List.mem_cons_self (hkey.trans he)⟩

theorem quiet_cands (b : ℕ) (rest : List Record) :
    Quiet s (s.setBucket b fun x => { x with cands := rest }) :=
  quiet_setBucket fun _ => ⟨rfl, rfl, rfl⟩

theorem quiet_refiller (b : ℕ) (r : Option ℕ) :
    Quiet s (s.setBucket b fun x => { x with refiller := r }) :=
  quiet_setBucket fun _ => ⟨rfl, rfl, rfl⟩

theorem Inv.mono (hi : Inv key₀ sats n s) {m : ℕ} (h : n ≤ m) : Inv key₀ sats m s :=
  hi.moved h (moves_same rfl rfl rfl fun _ _ h => .inl h) (.refl _) rfl rfl fun _ _ h => .inl h

theorem bucket_frame (cfg : CacheConfig) (key : String) : (s.bucket cfg key).2.tick = s.tick
    ∧ (s.bucket cfg key).2.takes = s.takes ∧ (s.bucket cfg key).2.since = s.since := by
  unfold CacheState.bucket
  rcases s.lookup key with _ | b <;> exact ⟨rfl, rfl, rfl⟩

theorem Inv.begin (hi : Inv key₀ sats s.tick s) (cfg : CacheConfig) (ht : s.takes i = some t) :
    Inv key₀ sats (s.tick + 1)
      ((s.bucket cfg t.key).2.setPhase i t (.fast (s.bucket cfg t.key).1)) := by
  obtain ⟨hinv, hlt, hkey, hu⟩ := hi.bucket cfg t.key
  obtain ⟨htick, htakes, hsince⟩ := bucket_frame (s := s) cfg t.key
  rw [← htick] at hinv ⊢
  refine hinv.hold (htakes ▸ ht) (.refl _) ⟨hlt, hkey, fun ⟨he, c, hc, t0, ht0, hle⟩ =>
      ?_⟩ (fun _ h => h)
    fun b out gen probe he => by cases he
  obtain ⟨c', hc', hcc'⟩ := (hi.takes i t ht).2 c hc
  exact hu he c' hc' ⟨t0, hsince ▸ ht0, hle.trans hcc'⟩

theorem Inv.refilled (hi : Inv key₀ sats s.tick s) (ht : s.takes i = some t) {b : ℕ}
    {out : List Record}
    {gen probe : ℕ} (hphase : t.phase = .probing b out gen probe) {probed : List Record}
    (hans : t.key = key₀ → s.Steady probe → probed ≠ []) {f : ClaimBucket → ClaimBucket}
    (hf : ∀ x, (f x).key = x.key ∧ (f x).gen = x.gen
      ∧ ((f x).probedEmpty = true → probed = [] ∧ (x.probedEmpty = true ∨ x.gen = gen))) (out' :
    List Record) :
    Inv key₀ sats (s.tick + 1)
      ((s.setBucket b f).setPhase i t (.unlock b out' false (probed = []))) := by
  have hok := (hi.takes i t ht).1
  rw [hphase] at hok
  obtain ⟨hlt, hkey, -, hhopes⟩ := hok
  have hself : (s.setBucket b f).heap b = f (s.heap b) := Function.update_self _ _ _
  have hother : ∀ b' ≠ b, (s.setBucket b f).heap b' = s.heap b' :=
    fun b' he => Function.update_of_ne he _ _
  have hm : Moves key₀ s ((s.setBucket b f).setPhase i t (.unlock b out' false (probed = []))) := by
    have hsame : ∀ b', ((s.setBucket b f).heap b').key = (s.heap b').key
        ∧ ((s.setBucket b f).heap b').gen = (s.heap b').gen := fun b' => by
      by_cases he : b' = b
      · rw [he, hself]
        exact ⟨(hf _).1, (hf _).2.1⟩
      · rw [hother b' he]
        exact ⟨rfl, rfl⟩
    refine ⟨le_rfl, rfl, fun b' _ => (hsame b').1, fun b' _ => (hsame b').2.ge,
        fun b' _ hk _ hu => ⟨?_, ?_⟩⟩
    · show ((s.setBucket b f).heap b').probedEmpty = false
      by_cases he : b' = b
      · subst he
        rw [hself]
        by_contra hv
        -- a verdict would be one of this probe, during which the coin was claimable
        obtain ⟨hnil, hv | hgen⟩ := (hf _).2.2 (Bool.not_eq_false _ ▸ hv)
        · exact absurd (hv.symm.trans hu.verdict) (by decide)
        · exact hans (hkey.symm.trans hk) (hu.probes i t out gen probe ht hphase hgen.symm) hnil
      · rw [hother b' he]
        exact hu.verdict
    · intro j t' out1 gen1 probe₁ hj hphase1 hgen1
      rcases update_eq_some hj with ⟨-, rfl⟩ | ⟨-, hj⟩
      · cases hphase1
      · exact hu.probes j t' out1 gen1 probe₁ hj hphase1 (hgen1.trans (hsame b').2)
  refine hi.advanced ht hm rfl rfl rfl rfl ⟨hlt, (hm.key b hlt).trans hkey, fun hh =>
      ⟨?_, fun _ => ?_⟩⟩
  · exact hm.unhidden_of_hopes hlt hkey (fun hh => (hhopes hh).1) hh
  · have hh := hm.hopes.mp hh
    simpa using hans hh.1 (hhopes hh).2

theorem Inv.runTake (hi : Inv key₀ sats s.tick s) (cfg : CacheConfig) (ht : s.takes i = some t)
    (answer : Option (List Record)) (hans : s.honest key₀ sats (.runTake i answer) = true) :
    Inv key₀ sats (s.tick + 1) (s.runTake cfg i t answer) := by
  have hok := (hi.takes i t ht).1
  unfold CacheState.runTake
  cases hphase : t.phase with
  | start =>
    dsimp only
    split_ifs with hw ha
    · exact hi.finish ht (.refl s) fun out _ _ hwant _ => absurd hw hwant.ne'
    · exact hi.finish ht (.refl s) fun out he => by cases he
    · exact hi.begin cfg ht
  | fast b =>
    rw [hphase] at hok
    dsimp only
    split_ifs with hret
    · refine hi.finish ht (quiet_cands b _) fun out he _ hwant hh => ?_
      cases he
      rcases hret with hlen | hknown
      · exact List.ne_nil_of_length_pos (hwant.trans_le hlen)
      · rw [knownEmpty_eq_false (((quiet_cands b _).heap b).2.2.trans (hok.2.2 hh).verdict)]
          at hknown
        cases hknown
    · exact hi.hold ht (quiet_cands b _) hok (fun _ h => h) fun b out gen probe he => by cases he
  | tryLock b out =>
    rw [hphase] at hok
    dsimp only
    split_ifs
    · exact hi.hold ht (quiet_refiller b _) hok (fun _ h => h) fun b out gen probe he => by cases he
    · exact hi.hold ht (.refl s) hok (fun _ h => h) fun b out gen probe he => by cases he
  | waiting b out =>
    rw [hphase] at hok
    dsimp only
    split_ifs
    · exact hi.hold ht (quiet_refiller b _) hok (fun _ h => h) fun b out gen probe he => by cases he
    · exact hi.mono (Nat.le_succ _)
  | gate b out =>
    rw [hphase] at hok
    exact hi.hold ht (quiet_refiller b _) hok (fun _ h => h) fun b out gen probe he => by cases he
  | waited b out =>
    rw [hphase] at hok
    dsimp only
    split_ifs
    · exact hi.finish ht (.refl s) fun out he => by cases he
    · exact hi.afterRefill ht (quiet_cands b _) fun hh =>
        knownEmpty_eq_false (((quiet_cands b _).heap b).2.2.trans (hok.2.2 hh).verdict) _ _
  | locked b out =>
    rw [hphase] at hok
    refine hi.act ht (.refl s) (fun b out gen probe he => by cases he; rfl) fun hm => ?_
    obtain ⟨hlt, hkey, hu⟩ := hok
    refine ⟨hlt, hkey, le_rfl, fun hh => ⟨hm.unhidden_of_hopes hlt hkey hu hh, ?_⟩⟩
    obtain ⟨-, c, -, hc⟩ := hm.hopes.mp hh
    exact hm.steady.mpr (hi.steady_tick hc)
  | probing b out gen probe =>
    dsimp only
    rcases answer with _ | probed
    · rw [hphase] at hok
      obtain ⟨hlt, hkey, -, hu⟩ := hok
      refine hi.act ht (quiet_cands b _) (fun b out gen probe he => by cases he) fun hm => ?_
      exact ⟨hlt, (hm.key b hlt).trans hkey, fun hh =>
        ⟨hm.unhidden_of_hopes hlt hkey (fun hh => (hu hh).1) hh, fun hf => by cases hf⟩⟩
    · refine hi.refilled ht hphase (fun hkey hs => ?_) (fun x => ?_) _
      · simpa [honest, ht, hphase, hkey, hs] using hans
      · split_ifs with hne hgen
        · exact ⟨rfl, rfl, fun hv => by cases hv⟩
        · exact ⟨rfl, rfl, fun _ => ⟨not_not.mp hne, .inr hgen⟩⟩
        · exact ⟨rfl, rfl, fun hv => ⟨not_not.mp hne, .inl hv⟩⟩
  | unlock b out failed empty =>
    rw [hphase] at hok
    dsimp only
    split_ifs with hf
    · exact hi.finish ht (quiet_refiller b _) fun out he => by cases he
    · exact hi.afterRefill ht (quiet_refiller b _) fun hh =>
        (hok.2.2 hh).2 (Bool.not_eq_true _ ▸ hf)
  | filteredProbe probe =>
    rw [hphase] at hok
    dsimp only
    rcases answer with _ | cands
    · exact hi.finish ht (.refl s) fun out he => by cases he
    · refine hi.finish ht (.refl s) fun out he hsuits hwant hh => ?_
      cases he
      have hs : s.Steady probe := hok hh
      simp only [honest, ht, hphase, hsuits, hs, decide_true, Bool.and_true, Bool.not_true,
          Bool.false_or] at hans
      obtain ⟨c, hc, hp⟩ := List.any_eq_true.mp hans
      exact preferredMatches_ne_nil hwant hc hp
  | returned result since => exact hi.mono (Nat.le_succ _)

theorem Inv.take (hi : Inv key₀ sats s.tick s) (hstart : t.phase = .start)
    (hmarked : t.marked = s.marked) :
    Inv key₀ sats (s.tick + 1) { s with takes := Function.update s.takes i (some t) } := by
  have htakes : ∀ j t', Function.update s.takes i (some t) j = some t' →
      s.takes j = some t' ∨ t' = t :=
    fun j t' hj => (update_eq_some hj).elim (fun h => .inr h.2) fun h => .inl h.2
  refine hi.moved (Nat.le_succ _) (moves_same rfl rfl rfl fun j t' hj => ?_) (.refl _) rfl rfl
      fun j t' hj => ?_
  · exact (htakes j t' hj).imp_right fun (he : t' = t) => he ▸ hstart
  · refine (htakes j t' hj).imp_right fun he => ?_
    rw [he, hstart, hmarked]
    exact ⟨trivial, fun c hc => ⟨c, hc, le_rfl⟩⟩

/-- A call of `markClaimable` is made, or looks its bucket up. -/
theorem Inv.marks (hi : Inv key₀ sats s.tick s) {j : ℕ} {m : MarkCall}
    (hcalled : ∀ key c, m = .called key c → c < s.tick + 1)
    (hfound : ∀ b key c, m = .found b key c → c < s.tick + 1 ∧ b = s.lookup key) :
    Inv key₀ sats (s.tick + 1) { s with marks := Function.update s.marks j (some m) } := by
  have hm : Moves key₀ s { s with marks := Function.update s.marks j (some m) } :=
    moves_same rfl rfl rfl fun j t hj => .inl hj
  refine hi.aside (Nat.le_succ _) hm (.refl _) (fun j t hj => .inl hj) (fun c hc => ⟨c, hc, le_rfl⟩)
    (hi.mono (Nat.le_succ _)).marked_lt (fun k key c hk => ?_) (fun k b key c hk => ?_)
    (fun k b c hk hs b' hb' hkey => ?_) fun c hc _ _ _ _ => .inl hc
  · rcases update_eq_some hk with ⟨-, he⟩ | ⟨-, hk⟩
    · exact hcalled key c he.symm
    · exact (hi.called_lt k key c hk).trans (Nat.lt_succ_self _)
  · rcases update_eq_some hk with ⟨-, he⟩ | ⟨-, hk⟩
    · exact (hfound b key c he.symm).1
    · exact (hi.found_lt k b key c hk).trans (Nat.lt_succ_self _)
  · rcases update_eq_some hk with ⟨-, he⟩ | ⟨-, hk⟩
    · -- the map has one bucket for the key, and that is the one which was found
      rw [(hfound b key₀ c he.symm).2]
      refine .inl ?_
      rcases hl : s.lookup key₀ with _ | b''
      · exact absurd hkey (lookup_eq_none hl b' hb')
      · obtain ⟨hb'', hkey''⟩ := lookup_eq_some hl
        exact congrArg some (List.inj_on_of_nodup_map hi.lru_keys hb'' hb' (hkey''.trans hkey.symm))
    · exact hi.found k b c hk hs b' hb' hkey

/-- A call of `markClaimable` withdraws the verdict on the bucket, and no probe on its way gives
one. -/
theorem Inv.unhidden_marked (hi : Inv key₀ sats n s) (b : ℕ) :
    Unhidden (s.setBucket b fun x => { x with gen := x.gen + 1, probedEmpty := false }) b := by
  have hself : (s.setBucket b fun x => { x with gen := x.gen + 1, probedEmpty := false }).heap b
      = { s.heap b with gen := (s.heap b).gen + 1, probedEmpty := false } :=
        Function.update_self _ _ _
  refine ⟨by rw [hself], fun j t out gen probe hj hphase hgen => ?_⟩
  have hok := (hi.takes j t hj).1
  rw [hphase] at hok
  rw [hself] at hgen
  have hgen : (s.heap b).gen + 1 = gen := hgen.symm ▸ rfl
  have hle := hok.2.2.1
  omega

theorem Inv.moves_marked (hi : Inv key₀ sats n s) (b : ℕ) :
    Moves key₀ s (s.setBucket b fun x => { x with gen := x.gen + 1, probedEmpty := false }) := by
  have hself : (s.setBucket b fun x => { x with gen := x.gen + 1, probedEmpty := false }).heap b
      = { s.heap b with gen := (s.heap b).gen + 1, probedEmpty := false } :=
        Function.update_self _ _ _
  have hother : ∀ b' ≠ b, (s.setBucket b fun x =>
      { x with gen := x.gen + 1, probedEmpty := false }).heap b'
      = s.heap b' := fun b' he => Function.update_of_ne he _ _
  refine ⟨le_rfl, rfl, fun b' _ => ?_, fun b' _ => ?_, fun b' _ _ _ hu => ?_⟩
  · by_cases he : b' = b
    · rw [he, hself]
    · rw [hother b' he]
  · by_cases he : b' = b
    · rw [he, hself]
      exact Nat.le_succ _
    · rw [hother b' he]
  · by_cases he : b' = b
    · rw [he]
      exact hi.unhidden_marked b
    · refine ⟨by rw [hother b' he]; exact hu.verdict, fun j t out gen probe hj hphase hgen => ?_⟩
      rw [hother b' he] at hgen
      exact hu.probes j t out gen probe hj hphase hgen

theorem Moves.with_marks (h : Moves key₀ s s') (marks : ℕ → Option MarkCall) (marked : Option ℕ) :
    Moves key₀ s { s' with marks := marks, marked := marked } :=
  ⟨h.next_le, h.since, h.key, h.gen_le, fun b hb hk hc hu =>
    ⟨(h.unhidden b hb hk hc hu).verdict, (h.unhidden b hb hk hc hu).probes⟩⟩

theorem mem_max_some {o : Option ℕ} {c time : ℕ} (h : c ∈ max o (some time)) :
    c ∈ o ∨ c = time := by
  rcases o with _ | a
  · exact .inr (Option.some.inj h).symm
  · have h : max a time = c := Option.some.inj h
    rcases le_total a time with hle | hle
    · exact .inr (h.symm.trans (max_eq_right hle))
    · exact .inl (congrArg some ((max_eq_left hle).symm.trans h))

theorem exists_le_max_some {o : Option ℕ} {c time : ℕ} (h : c ∈ o) :
    ∃ c' ∈ max o (some time), c ≤ c' := by
  rcases o with _ | a
  · cases h
  · have h : a = c := Option.some.inj h
    exact ⟨max a time, rfl, h ▸ le_max_left a time⟩

/-- A call of `markClaimable` returns. -/
theorem Inv.marked (hi : Inv key₀ sats s.tick s) {j : ℕ} {bucket : Option ℕ}
    {key : String} {time : ℕ}
    (hj : s.marks j = some (.found bucket key time)) (hm : Moves key₀ s s') (hlru : s'.lru = s.lru)
    (htakes : s'.takes = s.takes) (hmarks : s'.marks = s.marks) (hmarked : s'.marked = s.marked)
    (hbucket : ∀ b ∈ bucket, Unhidden s' b) :
    Inv key₀ sats (s.tick + 1) { s' with
      marks := Function.update s'.marks j (some .returned)
      marked := if key = key₀ then max s'.marked (some time) else s'.marked } := by
  rw [hmarks, hmarked]
  have hcases : ∀ c ∈ (if key = key₀ then max s.marked (some time) else s.marked),
      c ∈ s.marked ∨ key = key₀ ∧ c = time := fun c hc => by
    split_ifs at hc with he
    · exact (mem_max_some hc).imp_right fun hc => ⟨he, hc⟩
    · exact .inl hc
  have hold : ∀ k m, Function.update s.marks j (some .returned) k = some m → m ≠ .returned →
      s.marks k = some m :=
    fun k m hk hne => (update_eq_some hk).elim (fun h => absurd h.2 hne) And.right
  refine hi.aside (Nat.le_succ _) (hm.with_marks _ _) (hlru ▸ .refl _) (fun k t hk =>
      .inl (htakes ▸ hk)) (fun c hc => ?_) (fun c hc => ?_)
    (fun k key' c hk => ?_) (fun k b key' c hk => ?_) (fun k b c hk =>
        ?_) fun c hc hs b hb hkey => ?_
  · show ∃ c' ∈ (if key = key₀ then max s.marked (some time) else s.marked), c ≤ c'
    split_ifs
    · exact exists_le_max_some hc
    · exact ⟨c, hc, le_rfl⟩
  · rcases hcases c hc with hc | ⟨-, rfl⟩
    · exact (hi.marked_lt c hc).trans (Nat.lt_succ_self _)
    · exact (hi.found_lt j bucket key c hj).trans (Nat.lt_succ_self _)
  · exact (hi.called_lt k key' c (hold k _ hk (by simp))).trans (Nat.lt_succ_self _)
  · exact (hi.found_lt k b key' c (hold k _ hk (by simp))).trans (Nat.lt_succ_self _)
  · exact hi.found k b c (hold k _ hk (by simp))
  · rcases hcases c hc with hc | ⟨rfl, rfl⟩
    · exact .inl hc
    · have hunhidden : Unhidden s' b := (hi.found j bucket c hj hs b hb hkey).elim (hbucket b)
        (hm.unhidden b (hi.lru_lt b hb) hkey ⟨c, hs⟩)
      exact .inr ⟨hunhidden.verdict, hunhidden.probes⟩

theorem Inv.runMark (hi : Inv key₀ sats s.tick s) {j : ℕ} {m : MarkCall} (hj : s.marks j = some m) :
    Inv key₀ sats (s.tick + 1) (s.runMark key₀ j m) := by
  cases m with
  | called key time =>
    refine hi.marks (fun key' c he => by cases he) fun b key' c he => ?_
    cases he
    exact ⟨(hi.called_lt j key time hj).trans (Nat.lt_succ_self _), rfl⟩
  | found bucket key time =>
    rcases bucket with _ | b
    · exact hi.marked hj (moves_same rfl rfl rfl fun _ _ h => .inl h) rfl rfl rfl rfl fun b hb => by
        cases hb
    · refine hi.marked hj (hi.moves_marked b) rfl rfl rfl rfl fun b' hb' => ?_
      cases hb'
      exact hi.unhidden_marked b
  | returned => exact hi.mono (Nat.le_succ _)

theorem Inv.turned (hi : Inv key₀ sats s.tick s) {since : Option ℕ}
    (hsince : ∀ t ∈ since, t = s.tick) :
    Inv key₀ sats (s.tick + 1) { s with since := since } := by
  have hno : ∀ c < s.tick, ¬({ s with since := since } : CacheState).Steady c := by
    rintro c hc ⟨t0, ht0, hle⟩
    have := hsince t0 ht0
    omega
  have hhopes : ∀ j t, s.takes j = some t → ¬Hopes key₀ { s with since := since } t := by
    rintro j t hj ⟨-, c, hc, hs⟩
    obtain ⟨c', hc', hle⟩ := (hi.takes j t hj).2 c hc
    exact hno c (hle.trans_lt (hi.marked_lt c' hc')) hs
  refine ⟨fun t ht => ?_, (hi.mono (Nat.le_succ _)).marked_lt, hi.lru_lt, hi.lru_keys,
      fun j t hj => ?_,
    (hi.mono (Nat.le_succ _)).called_lt, (hi.mono (Nat.le_succ _)).found_lt, ?_, ?_⟩
  · exact (hsince t ht).trans_lt (Nat.lt_succ_self _)
  · obtain ⟨hok, hmarked⟩ := hi.takes j t hj
    refine ⟨?_, hmarked⟩
    have hnot := hhopes j t hj
    cases hphase : t.phase with
    | start => trivial
    | probing b out gen probe =>
      rw [hphase] at hok
      exact ⟨hok.1, hok.2.1, hok.2.2.1, fun hh => absurd hh hnot⟩
    | filteredProbe probe => exact fun hh => absurd hh hnot
    | returned result since' =>
      rw [hphase] at hok
      cases result with
      | none => trivial
      | some out => exact hok
    | _ =>
      rw [hphase] at hok
      exact ⟨hok.1, hok.2.1, fun hh => absurd hh hnot⟩
  · exact fun j b c hj hc => absurd hc (hno c (hi.found_lt j b key₀ c hj))
  · exact fun c hc hs => absurd hs (hno c (hi.marked_lt c hc))

theorem Inv.apply (hi : Inv key₀ sats s.tick s) (cfg : CacheConfig) (e : CacheEvent)
    (hans : s.honest key₀ sats e = true) : Inv key₀ sats (s.tick + 1) (s.apply cfg key₀ e) := by
  cases e with
  | take i key valueFilter pred prefer want =>
    simp only [CacheState.apply]
    split
    · exact hi.take rfl rfl
    · exact hi.mono (Nat.le_succ _)
  | runTake i answer =>
    simp only [CacheState.apply]
    split
    · exact hi.mono (Nat.le_succ _)
    · rename_i t ht
      exact hi.runTake cfg ht answer hans
  | mark j key =>
    simp only [CacheState.apply]
    split
    · refine hi.marks (fun key' c he => ?_) fun b key' c he => by cases he
      cases he
      exact Nat.lt_succ_self _
    · exact hi.mono (Nat.le_succ _)
  | runMark j =>
    simp only [CacheState.apply]
    split
    · exact hi.mono (Nat.le_succ _)
    · rename_i m hm
      exact hi.runMark hm
  | claimable b =>
    cases b with
    | false => exact hi.turned fun t ht => by cases ht
    | true =>
      simp only [CacheState.apply]
      rcases hs : s.since with _ | t0
      · exact hi.turned fun t ht => (Option.some.inj ht).symm
      · rw [Option.some_or, ← hs]
        exact hi.mono (Nat.le_succ _)
  | wait d =>
    exact hi.moved (Nat.le_succ _) (moves_same rfl rfl rfl fun _ _ h => .inl h) (.refl _) rfl rfl
        fun _ _ h => .inl h

theorem Inv.ticked (hi : Inv key₀ sats n s) (k : ℕ) : Inv key₀ sats n { s with tick := k } :=
  hi.moved le_rfl (moves_same rfl rfl rfl fun _ _ h => .inl h) (.refl _) rfl rfl fun _ _ h => .inl h

theorem inv_initial (key₀ : String) (sats : ℕ) (now : Time) : Inv key₀ sats 0 (initial now) where
  since_lt _ h := by cases h
  marked_lt _ h := by cases h
  lru_lt _ h := by cases h
  lru_keys := List.nodup_nil
  takes _ _ h := by cases h
  called_lt _ _ _ h := by cases h
  found_lt _ _ _ _ h := by cases h
  found _ _ _ h := by cases h
  current _ h := by cases h

theorem inv_run (cfg : CacheConfig) (key₀ : String) (sats : ℕ) (now : Time) {es : List CacheEvent}
    (h : AllowedRun (step cfg key₀) (fun s e => s.honest key₀ sats e = true) (initial now) es) :
    Inv key₀ sats (es.foldl (step cfg key₀) (initial now)).tick
      (es.foldl (step cfg key₀) (initial now)) := by
  refine h.invariant (I := fun s => Inv key₀ sats s.tick s) (fun s e hans hi =>
      ?_) (inv_initial key₀ sats now)
  exact (hi.apply cfg e hans).ticked (s.tick + 1)

/-- A call of `take` that wants something and begins after a `markClaimable` for the coin has
returned does not come back empty-handed if the coin suits it and stays claimable from that call of
`markClaimable` on. -/
theorem take_finds_marked_coin (cfg : CacheConfig) (key₀ : String) (sats : ℕ) (now : Time)
    (es : List CacheEvent)
    (h : AllowedRun (step cfg key₀) (fun s e => s.honest key₀ sats e = true) (initial now) es)
    (i : ℕ) (t : TakeCall) (ht : (es.foldl (step cfg key₀) (initial now)).takes i = some t)
    (out : List Record) (since : Option ℕ) (hr : t.phase = .returned (some out) since)
    (hsuits : t.Suits key₀ sats) (hwant : 0 < t.want)
    (hmark : ∃ c ∈ t.marked, ∃ t₀ ∈ since, t₀ ≤ c) : out ≠ [] := by
  have hok := ((inv_run cfg key₀ sats now h).takes i t ht).1
  rw [hr] at hok
  obtain ⟨c, hc, t₀, ht₀, hle⟩ := hmark
  exact hok hsuits hwant c hc t₀ ht₀ hle

/-- A call for a coin of at least 900 satoshis in a bucket of coins of 512 to 1023. -/
def askCoin (i : ℕ) : CacheEvent := .take i "7|default|3|9" (some (900 ≤ ·)) (900 ≤ ·) none 1

/-- The call finds the bucket empty, which is remembered. -/
def probeEmpty (i : ℕ) : List CacheEvent := askCoin i :: List.replicate 6 (.runTake i (some []))

def markCoin (j : ℕ) : List CacheEvent := [.mark j "7|default|3|9", .runMark j, .runMark j]

def cachedCoin : Record := mintedRecord 1 ⟨⟨"a", 0⟩, 7, "default", 1000, 107, .mined⟩

/-- The coin is marked after it has become claimable, and the probe returns it. -/
def markedRun : List CacheEvent :=
  probeEmpty 0 ++ .claimable true :: markCoin 0 ++ askCoin 1 :: List.replicate 4
      (.runTake 1 (some []))
    ++ [.runTake 1 (some [cachedCoin]), .runTake 1 (some [])]

/-- The second call of this run when it has returned. -/
def answeredCall : TakeCall :=
  ⟨"7|default|3|9", some (900 ≤ ·), (900 ≤ ·), none, 1, 11, some 8,
      .returned (some [cachedCoin]) (some 7)⟩

theorem take_finds_marked_coin_probed :
    AllowedRun (step ⟨0, 10⟩ "7|default|3|9") (fun s e => s.honest "7|default|3|9" 1000 e = true)
      (initial 0) markedRun
      ∧ (markedRun.foldl (step ⟨0, 10⟩ "7|default|3|9") (initial 0)).takes 1 = some answeredCall
      ∧ [cachedCoin] ≠ [] := by
  have hrun : AllowedRun (step ⟨0, 10⟩ "7|default|3|9") (fun s e => s.honest "7|default|3|9" 1000 e
      = true) (initial 0)
      markedRun := by decide
  have hcall : (markedRun.foldl (step ⟨0, 10⟩ "7|default|3|9") (initial 0)).takes 1
      = some answeredCall := rfl
  refine ⟨hrun, hcall, ?_⟩
  exact take_finds_marked_coin ⟨0, 10⟩ "7|default|3|9" 1000 0 markedRun hrun 1 answeredCall hcall
      [cachedCoin] (some 7)
    rfl (by decide) (by decide) ⟨8, rfl, 7, rfl, by decide⟩

/-- The coin becomes claimable after the call of `markClaimable`, for instance in another process:
the verdict of the probe before stands, and the second call returns nothing. -/
def unmarkedRun : List CacheEvent :=
  markCoin 0 ++ probeEmpty 0 ++ .claimable true :: askCoin 1 :: List.replicate 2
      (.runTake 1 (some []))

theorem take_misses_coin :
    ∃ (cfg : CacheConfig) (key₀ : String) (sats : ℕ) (now : Time) (es : List CacheEvent) (i : ℕ)
      (t : TakeCall)
      (since : Option ℕ),
      AllowedRun (step cfg key₀) (fun s e => s.honest key₀ sats e = true) (initial now) es
        ∧ (es.foldl (step cfg key₀) (initial now)).takes i = some t ∧ t.phase = .returned
          (some []) since
        ∧ t.Suits key₀ sats ∧ 0 < t.want ∧ t.marked.isSome ∧ ∃ t₀ ∈ since, t₀ ≤ t.began := by
  refine ⟨⟨0, 10⟩, "7|default|3|9", 1000, 0, unmarkedRun, 1, ?_⟩
  exact ⟨⟨"7|default|3|9", some (900 ≤ ·), (900 ≤ ·), none, 1, 11, some 0,
      .returned (some []) (some 10)⟩, some 10,
    by decide, rfl, rfl, by decide, by decide, rfl, 10, rfl, by decide⟩

end CacheState

end ArcadeToolbox.Aerostore
