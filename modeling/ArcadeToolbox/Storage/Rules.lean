import ArcadeToolbox.Storage.Create
import ArcadeToolbox.Storage.Process

/-!
# Rules for the parts of a unit of work

The checks between the statements of a unit move nothing.
-/

namespace ArcadeToolbox

open Txn

namespace Storage

variable {α : Type} {R : Session Db → Session Db → Prop} [IsPreorder (Session Db) R]

theorem moves_liftFund (r : Except FundErr α) : Uow.Moves R (liftFund r) := by
  cases r
  · exact Uow.moves_throw _
  · exact Uow.moves_pure _

theorem moves_require (b : Bool) (e : Err) : Uow.Moves R (require b e) := by
  unfold require
  split
  · exact Uow.moves_pure _
  · exact Uow.moves_throw _

theorem moves_failOn (o : Option UtxoErr) : Uow.Moves R (failOn o) := by
  rcases o with _ | e
  · exact Uow.moves_pure _
  · exact Uow.moves_throw _

theorem moves_refuse (o : Option Err) : Uow.Moves R (refuse o) := by
  rcases o with _ | e
  · exact Uow.moves_pure _
  · exact Uow.moves_throw _

theorem moves_orThrow (o : Option α) (e : Err) : Uow.Moves R (orThrow o e) := by
  rcases o with _ | a
  · exact Uow.moves_throw _
  · exact Uow.moves_pure _

theorem tolerate_at {es : List Err} {x : Work Unit} {s : Session Db} (hx : R s (x s).2) :
    R s (tolerate es x s).2 := by
  refine Uow.bind_at hx fun r s' _ => ?_
  rcases r with e | a
  · dsimp only
    split <;> exact refl_of R s'
  · exact refl_of R s'

theorem moves_tolerate (es : List Err) {x : Work Unit} (hx : Uow.Moves R x) :
    Uow.Moves R (tolerate es x) := fun s => tolerate_at (hx s)

theorem moves_now : Uow.Moves R now := fun s => refl_of R s

variable {s s' : Session Db} {a : Unit}

theorem require_ok {b : Bool} {e : Err}
    (h : require b e s = (.ok a, s')) : b = true ∧ s' = s := by
  unfold require at h
  split at h
  · cases h
    exact ⟨‹_›, rfl⟩
  · cases h

theorem orThrow_ok {o : Option α} {e : Err} {a : α}
    (h : orThrow o e s = (.ok a, s')) : o = some a ∧ s' = s := by
  rcases o with _ | b
  · cases h
  · cases h
    exact ⟨rfl, rfl⟩

theorem bind_require_ok {β : Type} {b : Bool} {e : Err} {f : Unit → Work β} {c : β}
    (h : (require b e >>= f) s = (.ok c, s')) : b = true ∧ f () s = (.ok c, s') := by
  obtain ⟨_, s1, h1, h2⟩ := Uow.bind_ok h
  obtain ⟨hb, rfl⟩ := require_ok h1
  exact ⟨hb, h2⟩

theorem bind_orThrow_ok {β : Type} {o : Option α} {e : Err} {f : α → Work β} {c : β}
    (h : (orThrow o e >>= f) s = (.ok c, s')) : ∃ a, o = some a ∧ f a s = (.ok c, s') := by
  obtain ⟨a, s1, h1, h2⟩ := Uow.bind_ok h
  obtain ⟨ho, rfl⟩ := orThrow_ok h1
  exact ⟨a, ho, h2⟩

theorem failOn_ok {o : Option UtxoErr}
    (h : failOn o s = (.ok a, s')) : o = none ∧ s' = s := by
  rcases o with _ | b
  · cases h
    exact ⟨rfl, rfl⟩
  · cases h

theorem bind_failOn_ok {β : Type} {o : Option UtxoErr} {f : Unit → Work β} {c : β}
    (h : (failOn o >>= f) s = (.ok c, s')) : o = none ∧ f () s = (.ok c, s') := by
  obtain ⟨_, s1, h1, h2⟩ := Uow.bind_ok h
  obtain ⟨ho, rfl⟩ := failOn_ok h1
  exact ⟨ho, h2⟩

/-- A statement on the metadata ran its function, at the time it ended. -/
structure Wrote (f : Time → Metadata → Except Err α × Metadata) (r : Except Err α)
    (s s' : Session Db) : Prop where
  le : s.now ≤ s'.now
  answer : (f s'.now s.db.metadata).1 = r
  db : s'.db = { s.db with metadata := (f s'.now s.db.metadata).2 }

variable {f : Time → Metadata → Except Err α × Metadata} {r : Except Err α}

theorem Wrote.metadata
    (h : Wrote f r s s') : s'.db.metadata = (f s'.now s.db.metadata).2 := by
  rw [h.db]

theorem Wrote.utxo
    (h : Wrote f r s s') : s'.db.utxo = s.db.utxo := by
  rw [h.db]

theorem metaStmt_wrote
    (hr : r ≠ .error .io) (h : metaStmt f s = (r, s')) : Wrote f r s s' := by
  unfold metaStmt at h
  rcases Uow.stmt_run h with ⟨rfl, -⟩ | ⟨s1, hw, ha, rfl⟩
  · exact absurd rfl hr
  · refine ⟨hw.now, ?_, ?_⟩ <;> simp only [← hw.db]
    exact ha

theorem insertTx_ok {tx : NewTx} {id : TransactionID}
    (h : TransactionsRepo.insert tx s = (.ok id, s')) :
    s.now ≤ s'.now ∧ id = s.db.metadata.nextTransactionID
      ∧ (∀ r ∈ s.db.metadata.transactions, r.reference ≠ tx.reference)
      ∧ s'.db.metadata = (s.db.metadata.insertTx tx s'.now).2 := by
  have hw := metaStmt_wrote (by simp) h
  have ha := hw.answer
  refine ⟨hw.le, ?_, ?_, hw.metadata⟩ <;> unfold Metadata.insertTx at ha <;> split at ha
  · cases ha
  · exact (Except.ok.inj ha).symm
  · cases ha
  · rename_i hno
    intro r hr
    exact of_decide_eq_false (Table.any_eq_false.mp (Bool.eq_false_iff.mpr hno) r hr)

theorem tolerate_ok {es : List Err} {x : Work Unit}
    (h : tolerate es x s = (.ok a, s')) : ∃ r, x s = (r, s') ∧ ∀ e, r = .error e → e ∈ es := by
  obtain ⟨r, s1, h1, h⟩ := Uow.bind_ok h
  have h1 := Uow.attempt_ok h1
  rcases r with e | _
  · dsimp only at h
    split at h
    · cases h
      exact ⟨_, h1, by simpa using ‹_›⟩
    · cases h
  · cases h
    exact ⟨_, h1, by simp⟩

/-- A statement whose refusals are passed over. -/
theorem tolerate_wrote {es : List Err} (hes : Err.io ∉ es)
    {f : Time → Metadata → Except Err Unit × Metadata}
    (h : tolerate es (metaStmt f) s = (.ok a, s')) :
    ∃ r, Wrote f r s s' := by
  obtain ⟨r, hr, he⟩ := tolerate_ok h
  exact ⟨r, metaStmt_wrote (fun hio => hes (he _ hio)) hr⟩

theorem metaQuery_ok {f : Metadata → α} {a : α}
    (h : metaQuery f s = (.ok a, s')) : Uow.Waits s s' ∧ a = f s.db.metadata := by
  unfold metaQuery Uow.query at h
  obtain ⟨s1, hw, ha, rfl⟩ := Uow.stmt_ok h
  refine ⟨hw, ?_⟩
  rw [← hw.db]
  exact (Except.ok.inj ha).symm

theorem utxoStmt_ok {f : Time → Inventory → Except Err α × Inventory} {a : α}
    (h : utxoStmt f s = (.ok a, s')) : ∃ s1, Uow.Waits s s1 ∧ (f s1.now s1.db.utxo).1 = .ok a
      ∧ s' = { s1 with db := { s1.db with utxo := (f s1.now s1.db.utxo).2 } } := by
  unfold utxoStmt at h
  exact Uow.stmt_ok h

/-- A call that reached the store changes the inventory only, whatever its answer. -/
theorem utxoStmt_db {f : Time → Inventory → Except Err α × Inventory}
    (hr : r ≠ .error (.utxo .unavailable)) (h : utxoStmt f s = (r, s')) :
    ∃ t, (f t s.db.utxo).1 = r ∧ s'.db = { s.db with utxo := (f t s.db.utxo).2 } := by
  unfold utxoStmt at h
  rcases Uow.stmt_run h with ⟨rfl, -⟩ | ⟨s1, hw, ha, rfl⟩
  · exact absurd rfl hr
  · rw [hw.db] at ha
    refine ⟨s1.now, ha, ?_⟩
    simp only [hw.db]

theorem note_ok {e : Event} (h : note e s = (.ok a, s')) :
    s'.db = { s.db with metadata := s.db.metadata.record e } := by
  cases h
  rfl

theorem noteIf_ok {b : Bool} {e : Event} (h : noteIf b e s = (.ok a, s')) :
    s'.db.metadata.knownTxs = s.db.metadata.knownTxs
      ∧ s'.db.metadata.transactions = s.db.metadata.transactions
      ∧ (b = true → e ∈ s'.db.metadata.audit) := by
  unfold noteIf at h
  split at h
  · cases h
    exact ⟨rfl, rfl, fun _ => List.mem_append_right _ List.mem_cons_self⟩
  · cases h
    exact ⟨rfl, rfl, fun hb => absurd hb ‹_›⟩

/-- A unit that succeeds is its body. -/
theorem doUnit_ok {mode : Mode} {x : Work α} {a : α}
    (h : doUnit mode x s = (.ok a, s')) : x s = (.ok a, s') := by
  unfold doUnit Uow.atomically at h
  rcases hx : x s with ⟨e | b, s1⟩ <;> rw [hx] at h
  · cases h
  · exact h

theorem metadata_of_doUnit_error {mode : Mode} {x : Work α} {e : Err}
    (h : doUnit mode x s = (.error e, s')) : s'.db.metadata = s.db.metadata := by
  unfold doUnit Uow.atomically at h
  rcases hx : x s with ⟨e' | b, s1⟩ <;> rw [hx] at h <;> cases h
  cases mode <;> rfl

end Storage

end ArcadeToolbox
