import ArcadeToolbox.Monitor.StatusEvents

/-!
# The cursor as a low-water mark

Where every connection delivers the log in the order of its ids, from the position that the tracker
gave it, the tracker never leads. What the log has below an event of the queue was applied, or is
held, or stands before that event in the queue, and an applied batch moves the cursor only if
nothing is held. A restart forgets the hold and the queue together, and begins again at what the
database holds.
-/

namespace ArcadeToolbox.Monitor

open Txn

/-- A deployment from process to process: the handler that runs, the id in `key_values`, and the ids
of the events that were applied so far, which is a ghost. -/
structure Deployment where
  handler : Handler
  stored : String
  applied : List String

/-- What can happen to the deployment. -/
inductive Move where
  /-- the handler goes on; of a batch that fails, `ok` tells the events whose shard was applied -/
  | handles (e : Event) (ok : StatusEvent → Bool)
  /-- a flush on the way down, or one that comes after the batch it was due to -/
  | flushes (written : Bool)
  /-- a new process begins; reading the cursor may fail -/
  | restarts (loaded : Bool)

/-- The event that a connection delivers next. Without a position it begins with the log. -/
def nextInLog (log : List StatusEvent) (last : String) : Option StatusEvent :=
  log.find? fun ev => last = "" ∨ cursorLess last ev.id = true

def NotAbove (ev : StatusEvent) (position : String) : Prop :=
  position ≠ "" ∧ cursorLess position ev.id = false

namespace Handler

def takes (h : Handler) (n : ℕ) : Prop := 0 < n ∧ n ≤ applyBatchMax ∧ n ≤ h.events.length

instance decidableTakes (h : Handler) (n : ℕ) : Decidable (h.takes n) :=
  inferInstanceAs (Decidable (_ ∧ _ ∧ _))

def appliedBy (h : Handler) (ok : StatusEvent → Bool) : Event → List String
  | .batch n applied _ =>
    if h.takes n then ((h.events.take n).filter fun ev => applied || ok ev).map (·.id) else []
  | _ => []

/-- What comes over the connection is the log, and no hold reaches its bound. -/
def InOrder (log : List StatusEvent) (h : Handler) : Event → Prop
  | .frame f => ∀ last ∈ h.lastEventID, ∀ ev ∈ f.delivers, nextInLog log last = some ev
  | .batch n applied _ => h.takes n → boundReached h.cursor (h.events.take n) applied = false
  | _ => True

instance decidableInOrder (log : List StatusEvent) (h : Handler) : ∀ e, Decidable (h.InOrder log e)
  | .frame f => inferInstanceAs
      (Decidable (∀ last ∈ h.lastEventID, ∀ ev ∈ f.delivers, nextInLog log last = some ev))
  | .batch n applied _ => inferInstanceAs
      (Decidable (h.takes n → boundReached h.cursor (h.events.take n) applied = false))
  | .stream _ => isTrue trivial
  | .reconnect => isTrue trivial
  | .returned => isTrue trivial
  | .idle _ => isTrue trivial

end Handler

namespace Deployment

def fresh : Deployment := ⟨.start "", "", []⟩

/-- The tracker changes `durable` exactly when it has written an id. -/
def storedAfter (d : Deployment) (h : Handler) : String :=
  if h.cursor.durable = d.handler.cursor.durable then d.stored else h.cursor.durable

def goOn (d : Deployment) (h : Handler) (applied : List String) : Deployment :=
  ⟨h, d.storedAfter h, d.applied ++ applied⟩

def step (d : Deployment) : Move → Deployment
  | .handles e ok => d.goOn (d.handler.step e) (d.handler.appliedBy ok e)
  | .flushes written => d.goOn { d.handler with cursor := d.handler.cursor.flush written } []
  | .restarts loaded => ⟨.start (if loaded then d.stored else ""), d.stored, d.applied⟩

def run (ms : List Move) : Deployment := ms.foldl step fresh

def Allowed (log : List StatusEvent) (d : Deployment) : Move → Prop
  | .handles e _ => d.handler.InOrder log e
  | _ => True

instance decidableAllowed (log : List StatusEvent) (d : Deployment) :
    ∀ m, Decidable (d.Allowed log m)
  | .handles e _ => inferInstanceAs (Decidable (d.handler.InOrder log e))
  | .flushes _ => isTrue trivial
  | .restarts _ => isTrue trivial

end Deployment

theorem Frame.delivers_id {f : Frame} {ev : StatusEvent} (h : f.delivers = some ev) :
    ev.id = f.id := by
  unfold delivers at h
  split_ifs at h
  split at h
  · split_ifs at h
    cases h
    rfl
  · cases h

theorem cursorLess_asymm {a b : String} (h : cursorLess a b = true) : cursorLess b a = false := by
  unfold cursorLess at h ⊢
  split_ifs at h with hab
  rw [if_neg (fun hba => hab hba.symm)]
  rcases ha : parseInt a with _ | x <;> rcases hb : parseInt b with _ | y <;> simp_all
  omega

/-- Every event has an id, and the ids rise. -/
structure Rising (log : List StatusEvent) : Prop where
  ids : ∀ ev ∈ log, ev.id ≠ ""
  rise : log.Pairwise fun a b => cursorLess a.id b.id = true

/-- Everything in the log that is not above the position is among the ids. -/
def Covers (log : List StatusEvent) (position : String) (ids : List String) : Prop :=
  ∀ ev ∈ log, NotAbove ev position → ev.id ∈ ids

/-- What the log has below an event of the queue is among the ids, or stands before it. -/
def Queued (log : List StatusEvent) (ids : List String) (events : List StatusEvent) : Prop :=
  ∀ before ev after, events = before ++ ev :: after →
    ev ∈ log ∧ ∀ e ∈ log, cursorLess e.id ev.id = true → e.id ∈ ids ++ before.map (·.id)

section Log

variable {log : List StatusEvent} {position : String} {ids ids' : List String}
  {events : List StatusEvent}
  {ev : StatusEvent}

theorem covers_empty : Covers log "" ids := fun _ _ h => absurd rfl h.1

theorem Covers.mono (h : Covers log position ids) (hsub : ids ⊆ ids') : Covers log position ids' :=
  fun e he hp => hsub (h e he hp)

theorem Queued.mono (h : Queued log ids events) (hsub : ids ⊆ ids') : Queued log ids' events := by
  intro before ev after he
  obtain ⟨hev, hbelow⟩ := h before ev after he
  refine ⟨hev, fun e hel hlt => ?_⟩
  rcases List.mem_append.mp (hbelow e hel hlt) with hi | hb
  · exact List.mem_append_left _ (hsub hi)
  · exact List.mem_append_right _ hb

theorem Queued.mem (h : Queued log ids events) : ∀ ev ∈ events, ev ∈ log := by
  intro ev hev
  obtain ⟨before, after, he⟩ := List.append_of_mem hev
  exact (h before ev after he).1

theorem below_or_eq (hlog : Rising log) {e : StatusEvent} (hev : ev ∈ log)
    (he : e ∈ log) (h : cursorLess ev.id e.id = false) : e = ev ∨ cursorLess e.id ev.id = true := by
  obtain ⟨front, back, rfl⟩ := List.append_of_mem hev
  obtain ⟨-, hback, hfront⟩ := List.pairwise_append.mp hlog.rise
  rcases List.mem_append.mp he with he | he
  · exact .inr (hfront e he ev List.mem_cons_self)
  · rcases List.mem_cons.mp he with rfl | he
    · exact .inl rfl
    · cases h.symm.trans ((List.pairwise_cons.mp hback).1 e he)

/-- When the first events are taken off the queue, they are known of instead. -/
theorem Queued.drop (h : Queued log ids events) (n : ℕ) :
    Queued log (ids ++ (events.take n).map (·.id)) (events.drop n) := by
  intro before ev after he
  have hall : events = (events.take n ++ before) ++ ev :: after := by
    rw [List.append_assoc, ← he, List.take_append_drop]
  obtain ⟨hev, hbelow⟩ := h _ ev after hall
  exact ⟨hev, fun e hel hlt => by simpa using hbelow e hel hlt⟩

theorem Queued.take (h : Queued log ids events) (n : ℕ) : Queued log ids (events.take n) := by
  intro before ev after he
  refine h before ev (after ++ events.drop n) ?_
  rw [← List.cons_append, ← List.append_assoc, ← he, List.take_append_drop]

/-- The connection delivers the next event of the log. -/
theorem Queued.push (hlog : Rising log) (h : Queued log ids events)
    (hlast : Covers log position (ids ++ events.map (·.id)))
    (hnext : nextInLog log position = some ev) :
    Queued log ids (events ++ [ev]) ∧ Covers log ev.id (ids ++ (events ++ [ev]).map (·.id)) := by
  obtain ⟨-, front, back, hsplit, hfront⟩ := List.find?_eq_some_iff_append.mp hnext
  -- what comes before the event in the log is not above the position
  have hbefore : ∀ e ∈ front, e.id ∈ ids ++ events.map (·.id) := by
    intro e he
    have hnot := hfront e he
    simp only [Bool.not_eq_true', decide_eq_false_iff_not, not_or, Bool.not_eq_true] at hnot
    exact hlast e (hsplit ▸ List.mem_append_left _ he) hnot
  have hback : ∀ e ∈ back, cursorLess ev.id e.id = true :=
    (List.pairwise_cons.mp (List.pairwise_append.mp (hsplit ▸ hlog.rise)).2.1).1
  have hev : ev ∈ log := hsplit ▸ List.mem_append_right _ List.mem_cons_self
  have hcases : ∀ e ∈ log, e ∈ front ∨ e = ev ∨ e ∈ back := fun e he => by
    rw [hsplit] at he
    simpa using he
  refine ⟨fun before x after he => ?_, fun e hel hp => ?_⟩
  · rcases after.eq_nil_or_concat with rfl | ⟨after, y, rfl⟩
    · obtain ⟨rfl, hx⟩ := List.append_inj' he rfl
      cases hx
      refine ⟨hev, fun e hel hlt => ?_⟩
      rcases hcases e hel with he | rfl | he
      · exact hbefore e he
      · cases hlt.symm.trans (cursorLess_asymm hlt)
      · cases (cursorLess_asymm hlt).symm.trans (hback e he)
    · rw [List.concat_eq_append, ← List.cons_append, ← List.append_assoc] at he
      exact h before x after (List.append_inj' he rfl).1
  · rcases hcases e hel with he | rfl | he
    · rw [List.map_append, ← List.append_assoc]
      exact List.mem_append_left _ (hbefore e he)
    · simp
    · cases hp.2.symm.trans (hback e he)

/-- The newest id of a batch is above nothing that is not known of or in the batch. -/
theorem Queued.newest (hlog : Rising log) (h : Queued log ids events) :
    Covers log (newestEventID events) (ids ++ events.map (·.id)) := by
  rcases events.eq_nil_or_concat with rfl | ⟨front, ev, rfl⟩
  · exact covers_empty
  rw [List.concat_eq_append] at h ⊢
  obtain ⟨hev, hbelow⟩ := h front ev [] rfl
  have hnewest : newestEventID (front ++ [ev]) = ev.id := by
    simp [newestEventID, hlog.ids ev hev]
  rw [hnewest, List.map_append, ← List.append_assoc]
  intro e hel hp
  by_cases he : e = ev
  · simp [he]
  have hlt : cursorLess e.id ev.id = true := (below_or_eq hlog hev hel hp.2).resolve_left he
  exact List.mem_append_left _ (hbelow e hel hlt)

end Log

namespace Deployment

variable {log : List StatusEvent} {d : Deployment}

/-- What was applied, or is noted as not applied. -/
def known (d : Deployment) : List String := d.applied ++ d.handler.cursor.unapplied

/-- All that is below a cursor was applied. -/
structure Behind (log : List StatusEvent) (d : Deployment) : Prop where
  stored : Covers log d.stored d.applied
  durable : Covers log d.handler.cursor.durable d.applied
  pending : Covers log d.handler.cursor.pending d.applied
  frozen : d.handler.cursor.holding = false → d.handler.cursor.unapplied = []
  queue : Queued log d.known d.handler.events
  reader : ∀ last ∈ d.handler.lastEventID, Covers log last (d.known ++ d.handler.events.map (·.id))

theorem behind_start {stored id : String} {applied : List String} (hs : Covers log stored applied)
    (h : Covers log id applied) : Behind log ⟨.start id, stored, applied⟩ where
  stored := hs
  durable := h
  pending := covers_empty
  frozen _ := rfl
  queue before _ _ he := by cases before <;> cases he
  reader _ hlast := by cases hlast

theorem Behind.goOn (hd : Behind log d) {h : Handler} {more : List String}
    (hdurable : Covers log h.cursor.durable (d.applied ++ more))
    (hpending : Covers log h.cursor.pending (d.applied ++ more))
    (hfrozen : h.cursor.holding = false → h.cursor.unapplied = [])
    (hqueue : Queued log (d.applied ++ more ++ h.cursor.unapplied) h.events)
    (hreader : ∀ last ∈ h.lastEventID,
      Covers log last (d.applied ++ more ++ h.cursor.unapplied ++ h.events.map (·.id))) :
    Behind log (d.goOn h more) := by
  refine ⟨?_, hdurable, hpending, hfrozen, hqueue, hreader⟩
  change Covers log (d.storedAfter h) (d.applied ++ more)
  unfold storedAfter
  split_ifs
  · exact hd.stored.mono (List.subset_append_left _ _)
  · exact hdurable

/-- No batch is applied: the cursor stays as it is, or is flushed. -/
theorem Behind.aside (hd : Behind log d) {h : Handler}
    (hc : h.cursor = d.handler.cursor ∨ ∃ written, h.cursor = d.handler.cursor.flush written)
    (hqueue : Queued log d.known h.events)
    (hreader : ∀ last ∈ h.lastEventID, last = h.cursor.durable
      ∨ Covers log last (d.known ++ h.events.map (·.id))) :
    Behind log (d.goOn h []) := by
  have hcursor : h.cursor.pending = d.handler.cursor.pending ∧ h.cursor.unapplied
      = d.handler.cursor.unapplied
      ∧ h.cursor.holding = d.handler.cursor.holding
      ∧ (h.cursor.durable = d.handler.cursor.durable
          ∨ h.cursor.durable = d.handler.cursor.pending) := by
    rcases hc with hc | ⟨written, hc⟩ <;> rw [hc]
    · exact ⟨rfl, rfl, rfl, .inl rfl⟩
    · exact d.handler.cursor.flush_cases written
  obtain ⟨hp, hu, hh, hdur⟩ := hcursor
  have hdurable : Covers log h.cursor.durable d.applied := by
    rcases hdur with he | he <;> rw [he]
    exacts [hd.durable, hd.pending]
  refine hd.goOn ?_ ?_ ?_ ?_ fun last hlast => ?_
  · rwa [List.append_nil]
  · rw [List.append_nil, hp]
    exact hd.pending
  · rw [hh, hu]
    exact hd.frozen
  · rwa [List.append_nil, hu]
  · rw [List.append_nil, hu]
    rcases hreader last hlast with rfl | hr
    · exact hdurable.mono fun id hi => List.mem_append_left _ (List.mem_append_left _ hi)
    · exact hr

/-- What a batch leaves of the tracker, if the hold has not reached its bound. -/
theorem Behind.cursor (hlog : Rising log) {c : CursorTracker} {done more : List String}
    {batch : List StatusEvent}
    {applied : Bool} (written : Bool) (hdurable : Covers log c.durable done)
    (hpending : Covers log c.pending done) (hfrozen : c.holding = false → c.unapplied = [])
    (hqueue : Queued log (done ++ c.unapplied) batch)
    (hb : Handler.boundReached c batch applied = false)
    (hmore : applied = true → ∀ ev ∈ batch, ev.id ∈ more) {c' : CursorTracker}
    (hc' : c' = if applied then c.record batch written else c.hold batch) :
    (Covers log c'.durable (done ++ more) ∧ Covers log c'.pending (done ++ more))
      ∧ (c'.holding = false → c'.unapplied = [])
      ∧ done ++ c.unapplied ++ batch.map (·.id) ⊆ done ++ more ++ c'.unapplied := by
  have hsub : done ⊆ done ++ more := List.subset_append_left _ _
  cases applied with
  | false =>
    rw [if_neg (by decide)] at hc'
    obtain ⟨hd, hp, ⟨-, hh, hu⟩ | ⟨hbound, -⟩⟩ := c.hold_cases batch
    · rw [hc', hd, hp, hh]
      refine ⟨⟨hdurable.mono hsub, hpending.mono hsub⟩, (fun h => by cases h), fun id hi => ?_⟩
      simp only [List.mem_append, or_assoc] at hi ⊢
      rcases hi with hi | hi | hi
      · exact .inl hi
      · exact .inr (.inr (hu id (.inl hi)))
      · obtain ⟨ev, hev, rfl⟩ := List.mem_map.mp hi
        refine .inr (.inr (hu _ (.inr (List.mem_filter.mpr ⟨hi, ?_⟩))))
        simpa using hlog.ids ev (hqueue.mem ev hev)
    · simp [Handler.boundReached, hbound] at hb
  | true =>
    rw [if_pos rfl] at hc'
    have hids : ∀ id ∈ batch.map (·.id), id ∈ more := by
      intro id hi
      obtain ⟨ev, hev, rfl⟩ := List.mem_map.mp hi
      exact hmore rfl ev hev
    obtain ⟨hd, hp, ⟨hh, hu⟩ | ⟨hh, hu, hend⟩⟩ := c.settle_cases batch hfrozen
    · -- the hold goes on, without the events that were applied
      rw [hc', show c.record batch written = c.settle batch by simp [CursorTracker.record, hh],
          hd, hp, hh, hu]
      refine ⟨⟨hdurable.mono hsub, hpending.mono hsub⟩, (fun h => by cases h), fun id hi => ?_⟩
      simp only [List.mem_append, or_assoc] at hi ⊢
      rcases hi with hi | hi | hi
      · exact .inl hi
      · by_cases hm : id ∈ batch.map StatusEvent.id
        · exact .inr (.inl (hids id hm))
        · exact .inr (.inr (List.mem_filter.mpr ⟨hi, by simpa using hm⟩))
      · exact .inr (.inl (hids id hi))
    · -- nothing is held, so everything below the batch was applied
      have hnone : ∀ id ∈ c.unapplied, id ∈ batch.map StatusEvent.id := by
        rcases hend with hnone | ⟨hold, hbound⟩
        · intro id hi
          simpa using List.filter_eq_nil_iff.mp hnone id hi
        · simp [Handler.boundReached, hold, hbound] at hb
      have hsub' : done ++ c.unapplied ++ batch.map (·.id) ⊆ done ++ more := by
        intro id hi
        simp only [List.mem_append, or_assoc] at hi ⊢
        rcases hi with hi | hi | hi
        · exact .inl hi
        · exact .inr (hids id (hnone id hi))
        · exact .inr (hids id hi)
      have hnewest := (hqueue.newest hlog).mono hsub'
      obtain ⟨hu', hh', hp', hd'⟩ := (c.settle batch).advance_cases written (newestEventID batch)
      rw [hc', show c.record batch written = (c.settle batch).advance
          (newestEventID batch) written by
        simp [CursorTracker.record, hh], hu', hu, List.append_nil]
      refine ⟨⟨?_, ?_⟩, fun _ => rfl, hsub'⟩
      · rcases hd' with he | he <;> rw [he]
        · exact hd ▸ hdurable.mono hsub
        · exact hnewest
      · rcases hp' with he | he <;> rw [he]
        · exact hp ▸ hpending.mono hsub
        · exact hnewest

theorem Behind.step (hlog : Rising log) (hd : Behind log d) (m : Move) (hm : d.Allowed log m) :
    Behind log (d.step m) := by
  have hself : ∀ last ∈ d.handler.lastEventID, last = d.handler.cursor.durable
      ∨ Covers log last (d.known ++ d.handler.events.map (·.id)) :=
        fun last hlast => .inr (hd.reader last hlast)
  cases m with
  | handles e ok =>
    change Behind log (d.goOn (d.handler.step e) (d.handler.appliedBy ok e))
    cases e with
    | stream written =>
      simp only [Handler.step, Handler.appliedBy]
      split
      · refine hd.aside (.inr ⟨written, rfl⟩) hd.queue fun last hlast => ?_
        cases hlast
        exact .inl rfl
      · exact hd.aside (.inl rfl) hd.queue hself
    | reconnect => exact hd.aside (.inl rfl) hd.queue hself
    | frame f =>
      simp only [Handler.step, Handler.appliedBy]
      split
      · exact hd.aside (.inl rfl) hd.queue hself
      · rename_i last hlast
        have hreader := hd.reader last hlast
        unfold dispatchFrame
        rcases hf : f.delivers with _ | ev
        · exact hd.aside (.inl rfl) (by simpa using hd.queue) fun last' hl => by
            cases hl
            exact .inr (by simpa using hreader)
        · have hnext := hm last hlast ev hf
          obtain ⟨hqueue, hev⟩ := hd.queue.push hlog hreader hnext
          refine hd.aside (.inl rfl) hqueue fun last' hl => .inr ?_
          cases hl
          rw [show f.id = ev.id from (Frame.delivers_id hf).symm]
          rwa [if_pos (hlog.ids ev (List.mem_of_find?_eq_some hnext))]
    | returned => exact hd.aside (.inl rfl) hd.queue fun last hlast => by cases hlast
    | batch n applied written =>
      by_cases ht : d.handler.takes n
      · have hmore : applied = true → ∀ ev ∈ d.handler.events.take n,
            ev.id ∈ d.handler.appliedBy ok (.batch n applied written) := by
          rintro rfl ev hev
          simp only [Handler.appliedBy, if_pos ht, Bool.true_or, List.filter_true]
          exact List.mem_map_of_mem hev
        rw [Handler.step, if_pos (show 0 < n ∧ n ≤ applyBatchMax
            ∧ n ≤ d.handler.events.length from ht)]
        obtain ⟨⟨hdurable, hpending⟩, hfrozen, hsub⟩ :=
          Behind.cursor hlog written hd.durable hd.pending hd.frozen
          (hd.queue.take n) (hm ht) hmore rfl
        refine hd.goOn hdurable hpending hfrozen ((hd.queue.drop n).mono hsub) fun last hlast => ?_
        refine (hd.reader last hlast).mono fun id hi => ?_
        rw [← d.handler.events.take_append_drop n, List.map_append, ← List.append_assoc] at hi
        rcases List.mem_append.mp hi with hi | hi
        · exact List.mem_append_left _ (hsub hi)
        · exact List.mem_append_right _ hi
      · rw [Handler.appliedBy, if_neg ht, Handler.step,
          if_neg (show ¬(0 < n ∧ n ≤ applyBatchMax ∧ n ≤ d.handler.events.length) from ht)]
        exact hd.aside (.inl rfl) hd.queue hself
    | idle written =>
      simp only [Handler.step, Handler.appliedBy]
      split_ifs
      · exact hd.aside (.inr ⟨written, rfl⟩) hd.queue fun last hlast => .inr (hd.reader last hlast)
      · exact hd.aside (.inl rfl) hd.queue hself
  | flushes written =>
    exact hd.aside (.inr ⟨written, rfl⟩) hd.queue fun last hlast => .inr (hd.reader last hlast)
  | restarts loaded =>
    refine behind_start hd.stored ?_
    cases loaded
    · exact covers_empty
    · exact hd.stored

/-- In every run in which the connections deliver the log from where they resume and no hold reaches
its bound, every event that is not above the stored cursor, or not above the position that a
connection would resume from, was applied. -/
theorem cursor_behind_applied (log : List StatusEvent) (hlog : Rising log) (ms : List Move)
    (h : AllowedRun step (Allowed log) fresh ms) (ev : StatusEvent) (hev : ev ∈ log) :
    (NotAbove ev (run ms).stored → ev.id ∈ (run ms).applied)
      ∧ ∀ written, NotAbove ev ((run ms).handler.cursor.resume written).2 →
        ev.id ∈ (run ms).applied := by
  have hd : Behind log (run ms) :=
    h.invariant (fun _ m hm hd => hd.step hlog m hm) (behind_start covers_empty covers_empty)
  refine ⟨hd.stored ev hev, fun written => ?_⟩
  obtain ⟨-, -, -, hdur⟩ := (run ms).handler.cursor.flush_cases written
  unfold CursorTracker.resume
  rcases hdur with he | he <;> rw [he]
  exacts [hd.durable ev hev, hd.pending ev hev]

def threeEvents : List StatusEvent :=
  ["5", "6", "7"].map fun id => ⟨id, ⟨"tx" ++ id, .seenOnNetwork, 200, "", [], none⟩⟩

/-- Event 6 fails and event 7 is applied; the handler connects again, from 5, and event 6 is
applied; the cursor is written, and the next process starts. -/
def heldMoves : List Move :=
  ([.stream true, .frame (Handler.seenFrame "5" "tx5"), .frame (Handler.seenFrame "6" "tx6"),
      .frame (Handler.seenFrame "7" "tx7"), .batch 1 true true, .batch 1 false true,
          .batch 1 true true, .returned,
      .stream true, .frame (Handler.seenFrame "6" "tx6"), .frame (Handler.seenFrame "7" "tx7"),
          .batch 2 true true,
      .idle true].map fun e => .handles e fun _ => false) ++ [.restarts true]

theorem cursor_behind_applied_held : (run heldMoves).stored = "7"
    ∧ "6" ∈ (run heldMoves).applied := by
  have hstored : (run heldMoves).stored = "7" := by decide
  refine ⟨hstored, ?_⟩
  refine (cursor_behind_applied threeEvents ⟨by decide, by decide⟩ heldMoves (by decide)
    ⟨"6", ⟨"tx6", .seenOnNetwork, 200, "", [], none⟩⟩ (by decide)).1 ?_
  rw [hstored]
  exact ⟨by decide, by decide⟩

end Deployment

end ArcadeToolbox.Monitor
