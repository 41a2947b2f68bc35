import ArcadeToolbox.Lib.Runs
import Mathlib.Data.List.Infix
import Mathlib.Data.Nat.Notation
import Mathlib.Logic.Function.Basic

/-!
# The header cache and reorgs

`HeaderByHeight` looks into the cache, fetches the header from ChainTracks if it is not there, and
fills the cache with it. A reorg evicts what is cached at or above its fork. A call that has fetched
its header by then fills the cache afterwards with a header of the orphaned branch.

`at_` and `reorgs` are ghosts: when a header was fetched, and which reorgs the client has processed
and when.
-/

namespace ArcadeToolbox.Headers

open Txn

/-- A block's header. -/
structure Header where
  version : Int32
  prevBlock : String
  merkleRoot : String
  timestamp : UInt32
  bits : UInt32
  nonce : UInt32
  height : UInt32
  hash : String
  deriving DecidableEq, Repr

/-- A reorganisation as it is told on the wire. -/
structure WireReorg where
  commonAncestor : Option Header
  newTip : Option Header
  deriving DecidableEq, Repr

/-- What comes back from ChainTracks: a transport failure, or a status and a body. -/
inductive Response where
  | failed
  | http (status : ℕ) (body : Header)
  deriving DecidableEq, Repr

/-- The header of the response, or the call fails. -/
def Response.header : Response → Option Header
  | .failed => none
  | .http status body => if status = 404 ∨ status < 200 ∨ 299 < status then none else some body

/-- What was fetched, and when. -/
structure Fetched where
  header : Header
  at_ : ℕ
  deriving DecidableEq, Repr

/-- A call past its look into the cache. -/
structure Call where
  height : UInt32
  got : Option Fetched
  deriving DecidableEq, Repr

/-- The cache, the tip and the calls on their way. -/
structure Client where
  cache : UInt32 → Option Fetched
  tipHeight : UInt32
  calls : ℕ → Option Call
  clock : ℕ
  reorgs : List (UInt32 × ℕ)

/-- What can happen to the client. -/
inductive Event where
  | call (id : ℕ) (height : UInt32)
  | answer (id : ℕ) (r : Response)
  | fill (id : ℕ)
  | tip (height : UInt32)
  | reorg (w : WireReorg)
  deriving DecidableEq, Repr

namespace Client

def initial : Client := ⟨fun _ => none, 0, fun _ => none, 0, []⟩

def cacheGet (c : Client) (height : UInt32) : Option Fetched := c.cache height

/-- The tip must be known and the header deep enough below it; the sum is one of 32 bits. -/
def caches (cacheDepth : UInt32) (c : Client) (height : UInt32) : Prop :=
  ¬ (c.tipHeight = 0 ∨ height + cacheDepth > c.tipHeight)

instance (cacheDepth : UInt32) (c : Client) (height : UInt32) :
    Decidable (caches cacheDepth c height) :=
  inferInstanceAs (Decidable (¬ _))

def maybeCache (cacheDepth : UInt32) (c : Client) (height : UInt32) (f : Fetched) : Client :=
  if caches cacheDepth c height then { c with cache := Function.update c.cache height (some f) }
      else c

/-- Forget what is at or above the fork. -/
def evictFrom (c : Client) (forkHeight : UInt32) : Client :=
  { c with cache := fun h => if forkHeight ≤ h then none else c.cache h }

def setCall (c : Client) (id : ℕ) (call : Option Call) : Client :=
  { c with calls := Function.update c.calls id call }

/-- A hit ends the call. An id that is in use stays with its call. -/
def headerByHeight (c : Client) (id : ℕ) (height : UInt32) : Client :=
  match c.cacheGet height, c.calls id with
  | none, none => c.setCall id (some ⟨height, none⟩)
  | _, _ => c

def receive (c : Client) (id : ℕ) (r : Response) : Client :=
  match c.calls id with
  | some ⟨height, none⟩ => c.setCall id (r.header.map fun h => ⟨height, some ⟨h, c.clock⟩⟩)
  | _ => c

def fill (cacheDepth : UInt32) (c : Client) (id : ℕ) : Client :=
  match c.calls id with
  | some ⟨height, some f⟩ => (c.maybeCache cacheDepth height f).setCall id none
  | _ => c

/-- Without an ancestor the fork is at height 0; an event without a new tip is skipped. -/
def processReorg (c : Client) (w : WireReorg) : Client :=
  match w.newTip with
  | none => c
  | some _ =>
    let forkHeight := (w.commonAncestor.map (·.height)).getD 0
    { c.evictFrom forkHeight with reorgs := (forkHeight, c.clock) :: c.reorgs }

def act (cacheDepth : UInt32) (c : Client) : Event → Client
  | .call id height => c.headerByHeight id height
  | .answer id r => c.receive id r
  | .fill id => c.fill cacheDepth id
  | .tip height => { c with tipHeight := height }
  | .reorg w => c.processReorg w

def step (cacheDepth : UInt32) (c : Client) (e : Event) : Client :=
  { c.act cacheDepth e with clock := c.clock + 1 }

def run (cacheDepth : UInt32) (es : List Event) : Client := es.foldl (step cacheDepth) initial

/-! ## Orphaned headers -/

/-- The header was fetched after every reorg that forks at or below the height. -/
def Fresh (c : Client) (height : UInt32) (f : Fetched) : Prop :=
  ∀ r ∈ c.reorgs, r.1 ≤ height → r.2 < f.at_

/-- No call is answered from the cache with a header from before a reorg at or below its height. -/
def AnswersFresh (c : Client) : Prop := ∀ height f, c.cacheGet height = some f → c.Fresh height f

/-- A call that is about to fill the cache fetched its header after the reorgs at or below its
height. -/
def Timely (cacheDepth : UInt32) (c : Client) (e : Event) : Prop :=
  ∀ id height f, e = .fill id → c.calls id = some ⟨height, some f⟩ → caches cacheDepth c height →
      c.Fresh height f

variable {cacheDepth : UInt32} {c c' : Client} {e : Event}

theorem AnswersFresh.of_same (h : c.AnswersFresh) (hcache : c'.cache = c.cache)
    (hreorgs : c'.reorgs = c.reorgs) :
    c'.AnswersFresh := by
  intro height f hf r hr
  rw [hreorgs] at hr
  exact h height f (by rw [cacheGet, ← hcache]; exact hf) r hr

theorem AnswersFresh.processReorg (h : c.AnswersFresh) (w : WireReorg) :
    (c.processReorg w).AnswersFresh := by
  unfold Client.processReorg
  split
  · exact h
  · intro height f hf r hr hle
    obtain ⟨hfork, hf⟩ := Option.ite_none_left_eq_some.mp hf
    rcases List.mem_cons.mp hr with rfl | hr
    · exact absurd hle hfork
    · exact h height f hf r hr hle

theorem answersFresh_fill_iff (h : c.AnswersFresh) (id : ℕ) :
    (c.fill cacheDepth id).AnswersFresh ↔ c.Timely cacheDepth (.fill id) := by
  unfold fill
  split
  case h_2 hcall =>
    exact ⟨fun _ id' height f he hc => by cases he; exact absurd hc (hcall height f), fun _ => h⟩
  case h_1 height f hcall =>
    by_cases hdeep : caches cacheDepth c height
    · have hget : ∀ h', ((c.maybeCache cacheDepth height f).setCall id none).cacheGet h'
          = if h' = height then some f else c.cacheGet h' := by
        intro h'
        simp only [maybeCache, hdeep, if_true, setCall, cacheGet, Function.update_apply]
      have hreorgs : ((c.maybeCache cacheDepth height f).setCall id none).reorgs = c.reorgs := by
        simp only [maybeCache, hdeep, if_true, setCall]
      constructor
      · intro hall id' height' f' he hc _ r hr
        cases he
        cases hcall.symm.trans hc
        exact hall height f (by rw [hget, if_pos rfl]) r (hreorgs ▸ hr)
      · intro ht h' f' hf' r hr
        rw [hget] at hf'
        rw [hreorgs] at hr
        split_ifs at hf' with he
        · cases hf'
          exact he ▸ ht id height f rfl hcall hdeep r hr
        · exact h h' f' hf' r hr
    · -- too close to the tip: nothing is written
      have hsame : ((c.maybeCache cacheDepth height f).setCall id none).AnswersFresh :=
        h.of_same (by simp only [maybeCache, hdeep, if_false, setCall]) (by simp only [maybeCache,
            hdeep, if_false, setCall])
      refine ⟨fun _ id' height' f' he hc hdeep' => ?_, fun _ => hsame⟩
      cases he
      cases hcall.symm.trans hc
      exact absurd hdeep' hdeep

theorem answersFresh_step_iff (h : c.AnswersFresh) : (c.step cacheDepth e).AnswersFresh
    ↔ c.Timely cacheDepth e := by
  have hact : (c.act cacheDepth e).AnswersFresh ↔ c.Timely cacheDepth e := by
    cases e with
    | fill id => exact answersFresh_fill_iff h id
    | call id height =>
      refine iff_of_true (h.of_same ?_ ?_) nofun
          <;> (dsimp only [act, headerByHeight]; split <;> rfl)
    | answer id r =>
      refine iff_of_true (h.of_same ?_ ?_) nofun <;> (dsimp only [act, receive]; split <;> rfl)
    | tip height => exact iff_of_true (h.of_same rfl rfl) nofun
    | reorg w => exact iff_of_true (h.processReorg w) nofun
  exact hact

/-- In a run, no call is ever answered from the cache with a header fetched before a reorg at or
below its height exactly if no call fills the cache with one. -/
theorem header_cache_fresh_iff (cacheDepth : UInt32) (es : List Event) :
    (∀ pre, pre <+: es → (run cacheDepth pre).AnswersFresh)
      ↔ AllowedRun (step cacheDepth) (fun c e => c.Timely cacheDepth e) initial es := by
  induction es using List.reverseRecOn with
  | nil => exact ⟨fun _ => trivial, fun _ pre hpre => by rw [List.prefix_nil.mp hpre]; exact nofun⟩
  | append_singleton es e ih =>
    have hlast : run cacheDepth (es ++ [e]) = (run cacheDepth es).step cacheDepth e :=
      List.foldl_concat ..
    rw [allowedRun_append, ← ih]
    simp only [List.prefix_concat_iff, AllowedRun, and_true]
    constructor
    · intro h
      have hpre : ∀ pre, pre <+: es → (run cacheDepth pre).AnswersFresh :=
        fun pre hp => h pre (.inr hp)
      refine ⟨hpre, (answersFresh_step_iff (hpre es List.prefix_rfl)).mp ?_⟩
      exact hlast ▸ h _ (.inl rfl)
    · rintro ⟨hpre, ht⟩ pre (rfl | hp)
      · rw [hlast]
        exact (answersFresh_step_iff (hpre es List.prefix_rfl)).mpr ht
      · exact hpre pre hp

def blockAt (height : UInt32) (hash : String) : Header := ⟨1, "", "", 0, 0, 0, height, hash⟩

/-- The tip is cached too. A call has fetched the header of block 100 when a reorg orphans it; the
call fills the cache, and the next one for block 100 gets the orphaned header from there. -/
theorem header_cache_serves_orphan :
    let es := [Event.tip 100, .call 1 100, .answer 1 (.http 200 (blockAt 100 "orphan")),
      .reorg ⟨some (blockAt 99 "ancestor"), some (blockAt 101 "tip")⟩, .fill 1]
    (run 0 es).cacheGet 100 = some ⟨blockAt 100 "orphan", 2⟩ ∧ (run 0 es).reorgs = [(99, 3)]
      ∧ ¬ (run 0 es).AnswersFresh := by
  have hget : (run 0 [Event.tip 100, .call 1 100, .answer 1 (.http 200 (blockAt 100 "orphan")),
      .reorg ⟨some (blockAt 99 "ancestor"), some (blockAt 101 "tip")⟩, .fill 1]).cacheGet 100
      = some ⟨blockAt 100 "orphan", 2⟩ := by decide
  have hreorgs : (run 0 [Event.tip 100, .call 1 100, .answer 1 (.http 200 (blockAt 100 "orphan")),
      .reorg ⟨some (blockAt 99 "ancestor"), some (blockAt 101 "tip")⟩, .fill 1]).reorgs
          = [(99, 3)] := by
    decide
  refine ⟨hget, hreorgs, fun h => ?_⟩
  have hlate : (3 : ℕ) < 2 := h 100 _ hget (99, 3) (hreorgs ▸ List.mem_singleton_self _) (by decide)
  omega

end Client

end ArcadeToolbox.Headers
