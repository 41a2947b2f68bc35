import ArcadeToolbox.Lib.Decimal
import ArcadeToolbox.Lib.Runs
import ArcadeToolbox.Storage.Provider

/-!
# The status stream and its replay cursor

The monitor reads the oracle's status events from a stream. The reader keeps the id of the last
event it delivered and resumes from it whenever it reconnects. The events go into a queue that an
applier drains in batches: an applied batch moves the cursor, a failed one freezes it until its
events have been applied. A new call of `StreamStatus` starts from the cursor.

So there are two positions, and only one of them knows of failures. A connection that `StreamStatus`
re-establishes on its own goes past failed events.
-/

namespace ArcadeToolbox.Monitor

open Storage Txn

/-! ## Event ids -/

/-- The id `a` is older than `b`. Ids are timestamps in decimal; a missing id or one that is no
number is not older than any other, and no other is older than it. -/
def cursorLess (a b : String) : Bool :=
  if a = "" ∨ b = "" then false
  else match parseInt a, parseInt b with
    | some an, some bn => an < bn
    | _, _ => false

example : cursorLess "9" "10" = true ∧ cursorLess "10" "9" = false
    ∧ cursorLess "x" "10" = false := by
  decide

/-- A status that the server sent. -/
structure StatusEvent where
  id : String
  record : TxRecord
  deriving DecidableEq, Repr

/-- The id of the last event of the batch that has one, in the order of arrival. -/
def newestEventID (batch : List StatusEvent) : String :=
  ((batch.reverse.find? fun ev => ev.id ≠ "").map (·.id)).getD ""

/-! ## The cursor tracker -/

def cursorFlushBatches : ℕ := 64

def cursorHoldMaxEvents : ℕ := 200000

/-- The cursor, and what holds it back. -/
structure CursorTracker where
  /-- the id the database holds -/
  durable : String
  /-- the id to be written next, or none -/
  pending : String
  batches : ℕ
  holding : Bool
  unapplied : List String
  held : ℕ
  untracked : ℕ
  deriving DecidableEq, Repr

namespace CursorTracker

def load (id : String) : CursorTracker :=
  ⟨id, "", 0, false, [], 0, 0⟩

def position (c : CursorTracker) : String := if c.pending ≠ "" then c.pending else c.durable

def release (c : CursorTracker) : CursorTracker :=
  { c with unapplied := [], holding := false, held := 0, untracked := 0 }

def releaseIfPastBound (c : CursorTracker) : CursorTracker :=
  if c.held < cursorHoldMaxEvents then c else c.release

/-- The key of a batch that carries no ids. -/
def untrackedKey (n : ℕ) : String := "\x00untracked-" ++ toString n

/-- The event ids of the batch, for those that have one. -/
def eventIDs (batch : List StatusEvent) : List String :=
  (batch.map (·.id)).filter (· ≠ "")

/-- The batch failed to apply. -/
def hold (c : CursorTracker) (batch : List StatusEvent) : CursorTracker :=
  let tracked :=
    { c with unapplied := (eventIDs batch).foldl (fun keys id => keys.insert id) c.unapplied }
  let c' := if eventIDs batch = [] then
      { tracked with untracked := c.untracked + 1
                     unapplied := tracked.unapplied.insert (untrackedKey (c.untracked + 1)) }
    else tracked
  releaseIfPastBound { c' with holding := true, held := c.held + batch.length }

/-- The pending id is written, unless the write fails; then both ids stay. -/
def flush (c : CursorTracker) (written : Bool) : CursorTracker :=
  if c.pending = "" ∨ c.pending = c.durable then { c with batches := 0 }
  else if written then { c with durable := c.pending, batches := 0 }
  else c

/-- The applied events leave the hold, which ends with the last of them or at the bound. -/
def settle (c : CursorTracker) (batch : List StatusEvent) : CursorTracker :=
  let c' := { c with unapplied := c.unapplied.filter fun id => id ∉ batch.map StatusEvent.id }
  if c'.holding then
    let c'' := { c' with held := c'.held + batch.length }
    if c''.unapplied = [] then c''.release else c''.releaseIfPastBound
  else c'

/-- The cursor moves to the newest id of an applied batch, never backwards. -/
def advance (c : CursorTracker) (newest : String) (written : Bool) : CursorTracker :=
  if newest = "" then c
  else if cursorLess newest c.position then c
  else
    let c' := { c with pending := newest, batches := c.batches + 1 }
    if c'.batches ≥ cursorFlushBatches then c'.flush written else c'

/-- The batch was applied in full. -/
def record (c : CursorTracker) (batch : List StatusEvent) (written : Bool) : CursorTracker :=
  let c' := c.settle batch
  if c'.holding then c' else c'.advance (newestEventID batch) written

/-- Where the next call of `StreamStatus` resumes. -/
def resume (c : CursorTracker) (written : Bool) : CursorTracker × String :=
  (c.flush written, (c.flush written).durable)

end CursorTracker

/-! ## The reader -/

inductive FrameData where
  | empty
  | malformed
  | record (r : TxRecord)
  deriving DecidableEq, Repr

structure Frame where
  id : String
  event : String
  data : FrameData
  deriving DecidableEq, Repr

/-- The event a frame delivers, if it does. -/
def Frame.delivers (f : Frame) : Option StatusEvent :=
  if f.event ≠ "" ∧ f.event ≠ "status" then none
  else match f.data with
    | .record r => if r.txid = "" then none else some ⟨f.id, r⟩
    | _ => none

/-- The event goes to the queue, and its id becomes the reader's position. -/
def dispatchFrame (f : Frame) (lastEventID : String) : Option StatusEvent × String :=
  match f.delivers with
  | none => (none, lastEventID)
  | some ev => (some ev, if f.id ≠ "" then f.id else lastEventID)

/-! ## The handler -/

def applyBatchMax : ℕ := 512

/-- The events that wait, and the cursor. -/
structure Handler where
  cursor : CursorTracker
  /-- the queue, with the batch that is being applied in front -/
  events : List StatusEvent
  /-- the reader's position, while a call of `StreamStatus` runs -/
  lastEventID : Option String
  /-- the ids of the delivered events whose batch failed, that have not been applied since and that
  were not left to the repair poll when the hold reached its bound -/
  failed : List String
  deriving DecidableEq, Repr

/-- What can happen to the handler. -/
inductive Event where
  /-- the handler calls `StreamStatus`, which connects; the cursor was flushed before -/
  | stream (written : Bool)
  /-- the connection was lost and the reader connects again -/
  | reconnect
  | frame (f : Frame)
  /-- `StreamStatus` returns; the arcade client's does so only when the handler is being stopped -/
  | returned
  /-- the next events were taken as a batch, and this became of it -/
  | batch (n : ℕ) (applied : Bool) (written : Bool)
  /-- the applier found the queue empty -/
  | idle (written : Bool)
  deriving DecidableEq, Repr

namespace Handler

def start (id : String) : Handler := ⟨CursorTracker.load id, [], none, []⟩

/-- The hold, if there is one once the batch is done, has lasted for too many events. -/
def boundReached (c : CursorTracker) (batch : List StatusEvent) (applied : Bool) : Bool :=
  (c.holding || !applied) && decide (cursorHoldMaxEvents ≤ c.held + batch.length)

/-- What is left of the failed events when the batch is done. -/
def failedAfter (c : CursorTracker) (failed : List String) (batch : List StatusEvent)
    (applied : Bool) :
    List String :=
  if boundReached c batch applied then []
  else if applied then failed.filter fun id => id ∉ batch.map StatusEvent.id
  else failed ++ CursorTracker.eventIDs batch

/-- A batch moves the cursor, or holds it. -/
def applyStatusBatch (h : Handler) (batch : List StatusEvent) (applied written : Bool) : Handler :=
  { h with cursor := if applied then h.cursor.record batch written else h.cursor.hold batch
           failed := failedAfter h.cursor h.failed batch applied }

def step (h : Handler) : Event → Handler
  | .stream written =>
    match h.lastEventID with
    | none => { h with cursor := (h.cursor.resume written).1
                       lastEventID := some (h.cursor.resume written).2 }
    | some _ => h
  | .reconnect => h
  | .frame f =>
    match h.lastEventID with
    | none => h
    | some last => { h with events := h.events ++ (dispatchFrame f last).1.toList
                            lastEventID := some (dispatchFrame f last).2 }
  | .returned => { h with lastEventID := none }
  | .batch n applied written =>
    if 0 < n ∧ n ≤ applyBatchMax ∧ n ≤ h.events.length then
      { h.applyStatusBatch (h.events.take n) applied written with events := h.events.drop n }
    else h
  | .idle written => if h.events = [] then { h with cursor := h.cursor.flush written } else h

def run (h : Handler) (es : List Event) : Handler := es.foldl step h

/-- The `Last-Event-ID` of the request that the event makes. The header is left out if it is
empty. -/
def sends (h : Handler) : Event → Option String
  | .stream written => if h.lastEventID = none then some (h.cursor.resume written).2 else none
  | .reconnect => h.lastEventID
  | _ => none

/-- The reader reconnects on its own only when no failed event waits to be applied, and the events
of a batch that fails are not older than what the cursor has reached. -/
def Orderly (h : Handler) : Event → Prop
  | .reconnect => h.failed = []
  | .batch n false _ => ∀ ev ∈ h.events.take n,
      cursorLess ev.id h.cursor.durable = false ∧ cursorLess ev.id h.cursor.pending = false
  | _ => True

instance decidableOrderly (h : Handler) : ∀ e, Decidable (h.Orderly e)
  | .reconnect => inferInstanceAs (Decidable (h.failed = []))
  | .batch n false _ => inferInstanceAs (Decidable (∀ ev ∈ h.events.take n,
      cursorLess ev.id h.cursor.durable = false ∧ cursorLess ev.id h.cursor.pending = false))
  | .batch _ true _ => isTrue trivial
  | .stream _ => isTrue trivial
  | .frame _ => isTrue trivial
  | .returned => isTrue trivial
  | .idle _ => isTrue trivial

end Handler

/-! ## What the tracker does -/

namespace CursorTracker

variable (c : CursorTracker) (batch : List StatusEvent) (written : Bool)

theorem flush_cases : (c.flush written).pending = c.pending ∧ (c.flush written).unapplied
    = c.unapplied
    ∧ (c.flush written).holding = c.holding
    ∧ ((c.flush written).durable = c.durable ∨ (c.flush written).durable = c.pending) := by
  unfold flush
  split_ifs <;> simp

theorem releaseIfPastBound_cases :
    (c.held < cursorHoldMaxEvents ∧ c.releaseIfPastBound = c)
      ∨ (cursorHoldMaxEvents ≤ c.held ∧ c.releaseIfPastBound = c.release) := by
  unfold releaseIfPastBound
  split_ifs with hb
  · exact .inl ⟨hb, rfl⟩
  · exact .inr ⟨by omega, rfl⟩

theorem mem_foldl_insert {id : String} {ids : List String} : ∀ {keys : List String},
    id ∈ ids.foldl (fun keys id => keys.insert id) keys ↔ id ∈ keys ∨ id ∈ ids := by
  induction ids with
  | nil => simp
  | cons x ids ih =>
    intro keys
    rw [List.foldl_cons, ih, List.mem_insert_iff, List.mem_cons]
    tauto

/-- A failed batch leaves the positions, and its ids are held unless the hold has reached its
bound. -/
theorem hold_cases : (c.hold batch).durable = c.durable ∧ (c.hold batch).pending = c.pending
    ∧ ((c.held + batch.length < cursorHoldMaxEvents ∧ (c.hold batch).holding = true
        ∧ ∀ id, id ∈ c.unapplied ∨ id ∈ eventIDs batch → id ∈ (c.hold batch).unapplied)
      ∨ (cursorHoldMaxEvents ≤ c.held + batch.length ∧ (c.hold batch).unapplied = [])) := by
  have hkeys : ∀ id, id ∈ c.unapplied ∨ id ∈ eventIDs batch →
      id ∈ (eventIDs batch).foldl (fun keys id => keys.insert id) c.unapplied :=
    fun id hid => mem_foldl_insert.mpr hid
  unfold hold
  dsimp only
  split_ifs with hids
  all_goals
    rcases releaseIfPastBound_cases _ with ⟨hb, he⟩ | ⟨hb, he⟩ <;> rw [he]
  · exact ⟨rfl, rfl, .inl ⟨hb, rfl, fun id hid => List.mem_insert_of_mem (hkeys id hid)⟩⟩
  · exact ⟨rfl, rfl, .inr ⟨hb, rfl⟩⟩
  · exact ⟨rfl, rfl, .inl ⟨hb, rfl, hkeys⟩⟩
  · exact ⟨rfl, rfl, .inr ⟨hb, rfl⟩⟩

/-- An applied batch leaves a hold that goes on, or there is none afterwards: its last event was
applied, or it reached its bound. -/
theorem settle_cases (hfrozen : c.holding = false → c.unapplied = []) :
    (c.settle batch).durable = c.durable ∧ (c.settle batch).pending = c.pending
    ∧ (((c.settle batch).holding = true
        ∧ (c.settle batch).unapplied = c.unapplied.filter fun id => id ∉ batch.map StatusEvent.id)
      ∨ ((c.settle batch).holding = false ∧ (c.settle batch).unapplied = []
        ∧ ((c.unapplied.filter fun id => id ∉ batch.map StatusEvent.id) = []
          ∨ (c.holding = true ∧ cursorHoldMaxEvents ≤ c.held + batch.length)))) := by
  unfold settle
  dsimp only
  split_ifs with hh hempty
  · exact ⟨rfl, rfl, .inr ⟨rfl, rfl, .inl hempty⟩⟩
  · rcases releaseIfPastBound_cases _ with ⟨hb, he⟩ | ⟨hb, he⟩ <;> rw [he]
    · exact ⟨rfl, rfl, .inl ⟨hh, rfl⟩⟩
    · exact ⟨rfl, rfl, .inr ⟨rfl, rfl, .inr ⟨hh, hb⟩⟩⟩
  · have hnone := hfrozen (Bool.eq_false_of_not_eq_true hh)
    refine ⟨rfl, rfl, .inr ⟨Bool.eq_false_of_not_eq_true hh, ?_, .inl ?_⟩⟩ <;> simp [hnone]

theorem advance_cases (newest : String) : (c.advance newest written).unapplied = c.unapplied
    ∧ (c.advance newest written).holding = c.holding
    ∧ ((c.advance newest written).pending = c.pending ∨ (c.advance newest written).pending = newest)
    ∧ ((c.advance newest written).durable = c.durable ∨ (c.advance newest written).durable
      = newest) := by
  unfold advance
  dsimp only
  split_ifs
  · exact ⟨rfl, rfl, .inl rfl, .inl rfl⟩
  · exact ⟨rfl, rfl, .inl rfl, .inl rfl⟩
  · obtain ⟨hp, hu, hh, hd⟩ := flush_cases { c with pending := newest,
                                                    batches := c.batches + 1 } written
    exact ⟨hu, hh, .inr hp, hd⟩
  · exact ⟨rfl, rfl, .inr rfl, .inl rfl⟩

end CursorTracker

/-! ## Where a connection resumes -/

namespace Handler

/-- The failed events are held, and neither position is past one of them. -/
structure Covered (c : CursorTracker) (failed : List String) : Prop where
  tracked : ∀ id ∈ failed, id ∈ c.unapplied
  frozen : c.holding = false → c.unapplied = []
  behind : ∀ id ∈ failed, cursorLess id c.durable = false ∧ cursorLess id c.pending = false

namespace Covered

variable {c : CursorTracker} {failed : List String} {batch : List StatusEvent}

theorem of_none (h : c.holding = false → c.unapplied = []) : Covered c [] :=
  ⟨fun _ hid => absurd hid List.not_mem_nil, h, fun _ hid => absurd hid List.not_mem_nil⟩

theorem flush (h : Covered c failed) (written : Bool) : Covered (c.flush written) failed := by
  obtain ⟨hp, hu, hh, hd⟩ := c.flush_cases written
  refine ⟨fun id hid => ?_, fun hn => ?_, fun id hid => ?_⟩
  · rw [hu]
    exact h.tracked id hid
  · rw [hu]
    exact h.frozen (hh ▸ hn)
  · rw [hp]
    refine ⟨?_, (h.behind id hid).2⟩
    rcases hd with hd | hd <;> rw [hd]
    exacts [(h.behind id hid).1, (h.behind id hid).2]

theorem hold (h : Covered c failed)
    (hok : ∀ ev ∈ batch, cursorLess ev.id c.durable = false ∧ cursorLess ev.id c.pending = false) :
    Covered (c.hold batch) (failedAfter c failed batch false) := by
  obtain ⟨hd, hp, ⟨hb, hh, hu⟩ | ⟨hb, hu⟩⟩ := c.hold_cases batch
  · rw [show failedAfter c failed batch false = failed ++ CursorTracker.eventIDs batch by
      simp [failedAfter, boundReached, hb]]
    refine ⟨fun id hid => ?_, fun hn => ?_, fun id hid => ?_⟩
    · exact hu id ((List.mem_append.mp hid).imp_left (h.tracked id))
    · exact absurd (hh.symm.trans hn) (by decide)
    · rw [hd, hp]
      rcases List.mem_append.mp hid with hid | hid
      · exact h.behind id hid
      · obtain ⟨ev, hev, rfl⟩ := List.mem_map.mp (List.mem_filter.mp hid).1
        exact hok ev hev
  · rw [show failedAfter c failed batch false = [] by simp [failedAfter, boundReached, hb]]
    exact of_none fun _ => hu

theorem record (h : Covered c failed) (batch : List StatusEvent) (written : Bool) :
    Covered (c.record batch written) (failedAfter c failed batch true) := by
  obtain ⟨hd, hp, ⟨hh, hu⟩ | ⟨hh, hu, hend⟩⟩ := c.settle_cases batch h.frozen
  · -- the hold goes on, so the cursor stays where it is
    rw [show c.record batch written = c.settle batch by simp [CursorTracker.record, hh]]
    have hfailed : ∀ id ∈ failedAfter c failed batch true,
        id ∈ failed ∧ id ∉ batch.map StatusEvent.id := by
      intro id hid
      unfold failedAfter at hid
      rw [if_pos rfl] at hid
      split_ifs at hid
      · exact absurd hid List.not_mem_nil
      · simpa using hid
    refine ⟨fun id hid => ?_, fun hn => ?_, fun id hid => ?_⟩
    · obtain ⟨hid, hnot⟩ := hfailed id hid
      rw [hu]
      exact List.mem_filter.mpr ⟨h.tracked id hid, by simpa using hnot⟩
    · exact absurd (hh.symm.trans hn) (by decide)
    · rw [hd, hp]
      exact h.behind id (hfailed id hid).1
  · -- no failed event is left
    have hfailed : failedAfter c failed batch true = [] := by
      rcases hend with hnone | ⟨hold, hb⟩
      · have : (failed.filter fun id => id ∉ batch.map StatusEvent.id) = [] := by
          rw [List.filter_eq_nil_iff] at hnone ⊢
          exact fun id hid => hnone id (h.tracked id hid)
        simp only [failedAfter, if_true, this, ite_self]
      · simp [failedAfter, boundReached, hold, hb]
    rw [hfailed]
    refine of_none fun _ => ?_
    simp [CursorTracker.record, hh, (CursorTracker.advance_cases _ _ _).1, hu]

end Covered

theorem covered_step {h : Handler} (e : Event) (hok : h.Orderly e)
    (hc : Covered h.cursor h.failed) :
    Covered (h.step e).cursor (h.step e).failed := by
  cases e with
  | stream written =>
    simp only [step]
    split
    · exact hc.flush written
    · exact hc
  | reconnect => exact hc
  | frame f =>
    simp only [step]
    split <;> exact hc
  | returned => exact hc
  | batch n applied written =>
    simp only [step]
    split_ifs
    · cases applied with
      | true => exact hc.record _ written
      | false => exact hc.hold hok
    · exact hc
  | idle written =>
    simp only [step]
    split_ifs
    · exact hc.flush written
    · exact hc

/-- In a run in which the reader reconnects on its own only while no failed event is left, and no
event fails that is older than what the cursor has reached, no connection resumes past a failed
event. -/
theorem resume_behind_failed (id : String) (es : List Event) (e : Event)
    (ha : AllowedRun step Orderly (start id) (es ++ [e])) (sent : String)
    (hsent : ((start id).run es).sends e = some sent) :
    ∀ failed ∈ ((start id).run es).failed, cursorLess failed sent = false := by
  obtain ⟨ha, hok, -⟩ := allowedRun_append.mp ha
  have hc : Covered ((start id).run es).cursor ((start id).run es).failed :=
    ha.invariant (I := fun h => Covered h.cursor h.failed) (fun _ e hok hc => covered_step e hok hc)
      (Covered.of_none fun _ => rfl)
  intro failed hf
  cases e with
  | stream written =>
    unfold sends at hsent
    split_ifs at hsent
    cases hsent
    exact ((hc.flush written).behind failed hf).1
  | reconnect =>
    have hnone : ((start id).run es).failed = [] := hok
    exact absurd (hnone ▸ hf) List.not_mem_nil
  | frame f => cases hsent
  | returned => cases hsent
  | batch n applied written => cases hsent
  | idle written => cases hsent

/-- A frame that says that a transaction was seen by the network. -/
def seenFrame (id : String) (txid : TxID) : Frame :=
  ⟨id, "status", .record ⟨txid, .seenOnNetwork, 200, "", [], none⟩⟩

/-- The batch of event 5 fails while event 6 is in the queue. A new call of `StreamStatus` resumes
from 4, where the cursor was. -/
theorem resume_behind_failed_returned :
    AllowedRun step Orderly (start "4") [.stream true, .frame (seenFrame "5" "a"),
      .frame (seenFrame "6" "b"),
        .batch 1 false true, .batch 1 true true, .returned, .stream true]
      ∧ ((start "4").run [.stream true, .frame (seenFrame "5" "a"), .frame (seenFrame "6" "b"),
        .batch 1 false true, .batch 1 true true, .returned]).failed = ["5"]
      ∧ ∀ failed ∈ ((start "4").run [.stream true, .frame (seenFrame "5" "a"),
        .frame (seenFrame "6" "b"),
        .batch 1 false true, .batch 1 true true, .returned]).failed,
          cursorLess failed "4" = false :=
  ⟨by decide, by decide, resume_behind_failed "4" [.stream true, .frame (seenFrame "5" "a"),
    .frame (seenFrame "6" "b"), .batch 1 false true, .batch 1 true true, .returned] (.stream true)
    (by decide) "4" (by decide)⟩

/-- Had the connection been lost instead, the reader would have resumed from 6, the last event that
it delivered. -/
theorem reconnect_passes_failed :
    ((start "4").run [.stream true, .frame (seenFrame "5" "a"), .frame (seenFrame "6" "b"),
        .batch 1 false true]).sends .reconnect = some "6"
      ∧ "5" ∈ ((start "4").run [.stream true, .frame (seenFrame "5" "a"),
        .frame (seenFrame "6" "b"),
        .batch 1 false true]).failed
      ∧ cursorLess "5" "6" = true := by
  decide

/-- The ids need not rise. When event 6 was applied before event 5 failed, the cursor itself is past
the failed event. -/
example :
    ((start "4").run [.stream true, .frame (seenFrame "6" "b"), .frame (seenFrame "5" "a"),
        .batch 1 true true, .batch 1 false true, .returned]).sends (.stream true) = some "6"
      ∧ "5" ∈ ((start "4").run [.stream true, .frame (seenFrame "6" "b"),
        .frame (seenFrame "5" "a"),
        .batch 1 true true, .batch 1 false true, .returned]).failed := by
  decide

end Handler

end ArcadeToolbox.Monitor
