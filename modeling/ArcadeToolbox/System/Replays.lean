import ArcadeToolbox.System.Verdicts

/-!
# Operations that are replayed

An operation of the outbox may run again at any later time, after the coin it names has changed
hands. The primitives that give a coin back look at the coin first: an unspend at its spender, a
release at its token. The unfreeze that goes with an unspend looks at nothing.
-/

namespace ArcadeToolbox

open Txn Uow

namespace Storage

/-- Every row that meets `P` is still there, as it was. -/
def Kept (P : Row → Prop) (s s' : Session Db) : Prop :=
  ∀ r ∈ s.db.utxo.rows, P r → r ∈ s'.db.utxo.rows

variable {α : Type} {P : Row → Prop}

instance : IsPreorder (Session Db) (Kept P) where
  refl _ _ hr _ := hr
  trans _ _ _ h h' r hr hP := h' r (h r hr hP) hP

theorem kept_waits {s s' : Session Db} (h : Waits s s') : Kept P s s' := by
  intro r hr _
  rwa [h.db]

theorem kept_utxoStmt {f : Time → Inventory → Except Err α × Inventory}
    (h : ∀ now i, ∀ r ∈ i.rows, P r → r ∈ (f now i).2.rows) : Moves (Kept P) (utxoStmt f) :=
  moves_stmt (fun _ _ => kept_waits) _ fun s => h s.now s.db.utxo

end Storage

/-- A change of selected rows keeps the rows it does not change. -/
theorem Inventory.mem_modify_of_fixed {i : Inventory} {q : Row → Bool} {f : Row → Row}
    {hf : ∀ r, (f r).outpoint = r.outpoint} {r : Row} (hr : r ∈ i.rows)
    (h : q r = true → f r = r) : r ∈ (i.modify q f hf).rows := by
  refine Inventory.mem_modify.mpr ⟨r, hr, ?_⟩
  split
  · exact (h ‹_›).symm
  · rfl

namespace Storage

variable {P : Row → Prop}

variable {ops : List Outpoint}

theorem kept_unspend {txid : TxID} (h : ∀ r, P r → r.spentBy ≠ some txid) :
    Moves (Kept P) (UtxoStore.unspend txid ops) := by
  refine kept_utxoStmt fun now i r hr hP => Inventory.mem_modify_of_fixed hr fun hq => ?_
  simp only [Bool.and_eq_true, decide_eq_true_eq] at hq
  exact absurd hq.2 (h r hP)

theorem kept_unfreeze (h : ∀ r, P r → r.outpoint ∈ ops → r.frozen = false) :
    Moves (Kept P) (UtxoStore.unfreeze ops) := by
  refine kept_utxoStmt fun now i r hr hP => Inventory.mem_modify_of_fixed hr fun hq => ?_
  have hf := h r hP (of_decide_eq_true hq)
  rw [← hf]

variable {reservation : Token}

theorem kept_releaseOutpoints (h : ∀ r, P r → r.reservedBy ≠ reservation) :
    Moves (Kept P) (UtxoStore.releaseOutpoints reservation ops) := by
  refine kept_utxoStmt fun now i r hr hP => ?_
  unfold Inventory.releaseOutpoints
  split
  · exact hr
  · refine Inventory.mem_modify_of_fixed hr fun hq => ?_
    simp only [Bool.and_eq_true, decide_eq_true_eq] at hq
    exact absurd hq.1.2 (h r hP)

theorem kept_unpin {u : UserID} (h : ∀ r, P r → ¬(r.userID = u ∧ r.reservedBy = reservation)) :
    Moves (Kept P) (UtxoStore.unpin u reservation) := by
  refine kept_utxoStmt fun now i r hr hP => ?_
  unfold Inventory.unpin Inventory.setPinned
  split
  · exact hr
  · refine Inventory.mem_modify_of_fixed hr fun hq => ?_
    simp only [Inventory.heldBy, Bool.and_eq_true, decide_eq_true_eq] at hq
    exact absurd hq.1.1 (h r hP)

theorem kept_releaseReservation {u : UserID}
    (h : ∀ r, P r → ¬(r.userID = u ∧ r.reservedBy = reservation)) :
    Moves (Kept P) (UtxoStore.releaseReservation u reservation) := by
  refine kept_utxoStmt fun now i r hr hP => ?_
  unfold Inventory.releaseReservation
  split
  · exact hr
  · refine Inventory.mem_modify_of_fixed hr fun hq => ?_
    simp only [Inventory.heldBy, Bool.and_eq_true, decide_eq_true_eq] at hq
    exact absurd hq.1.1 (h r hP)

theorem kept_doUnspend {txid : TxID} (hs : ∀ r, P r → r.spentBy ≠ some txid)
    (hf : ∀ r, P r → r.outpoint ∈ ops → r.frozen = false) :
    Moves (Kept P) (doUnspend txid ops) := by
  unfold doUnspend
  split
  · exact moves_pure _
  · exact moves_bind (kept_unspend hs) fun _ =>
      moves_bind (moves_attempt (kept_unfreeze hf)) fun _ =>
      moves_pure _

theorem kept_doReleaseOutpoints (h : ∀ r, P r → r.reservedBy ≠ reservation) :
    Moves (Kept P) (doReleaseOutpoints reservation ops) := by
  unfold doReleaseOutpoints
  split
  · exact moves_pure _
  · exact kept_releaseOutpoints h

/-- The operations that give back the inputs `ops` of a dead transaction. -/
inductive GivesBack (D : TxID) (refs : List Token) (ops : List Outpoint) : OutboxPayload → Prop
  | unspend : GivesBack D refs ops (.unspend D ops)
  | release {ref : Token} : ref ∈ refs → GivesBack D refs ops (.release ref ops)

/-- Neither spent by the dead transaction nor reserved under one of its references. -/
def Foreign (D : TxID) (refs : List Token) (r : Row) : Prop :=
  r.spentBy ≠ some D ∧ r.reservedBy ∉ refs

variable {D : TxID} {refs : List Token} {ops : List Outpoint} {i : Inventory}

theorem foreign_kept_of_unfrozen {payload : OutboxPayload} (hp : GivesBack D refs ops payload)
    (hf : payload.op = .unspend → ∀ r ∈ i.rows, r.outpoint ∈ ops → Foreign D refs r →
      r.frozen = false)
    (env : Env) (s : Session Db) (hs : s.db.utxo = i) :
    ∀ r ∈ i.rows, Foreign D refs r → r ∈ (executeOutboxOp env payload s).2.db.utxo.rows := by
  intro r hr hF
  rw [← hs] at hr
  cases hp with
  | unspend =>
    have hP : Moves (Kept fun r => Foreign D refs r ∧ (r.outpoint ∈ ops → r.frozen = false))
        (doUnspend D ops) := kept_doUnspend (fun r h => h.1.1) fun r h => h.2
    exact hP s r hr ⟨hF, fun hop => hf rfl r (hs ▸ hr) hop hF⟩
  | release href =>
    refine kept_doReleaseOutpoints (P := Foreign D refs) (fun r h he => h.2 ?_) s r hr hF
    rwa [he]

/-- An unspend on a calm store. -/
theorem doUnspend_calm (hops : ops ≠ []) (d : Db) (t : Time) :
    (doUnspend D ops ⟨d, t, [], []⟩).2.db.utxo = ((d.utxo.unspend D ops).2.unfreeze ops).2 := by
  unfold doUnspend
  rw [if_neg hops]
  rfl

theorem unfrozen_of_foreign_kept
    (h : ∀ s : Session Db, s.db.utxo = i → ∀ r ∈ i.rows, Foreign D refs r →
      r ∈ (executeOutboxOp Env.quiet (.unspend D ops) s).2.db.utxo.rows) :
    ∀ r ∈ i.rows, r.outpoint ∈ ops → Foreign D refs r → r.frozen = false := by
  intro r hr hop hF
  have hops : ops ≠ [] := List.ne_nil_of_mem hop
  have hkept := h ⟨⟨Metadata.empty, i, []⟩, 0, [], []⟩ rfl r hr hF
  change r ∈ (doUnspend D ops _).2.db.utxo.rows at hkept
  rw [doUnspend_calm hops] at hkept
  -- the row that is there now comes out of the unfreeze
  obtain ⟨r', hr', he⟩ := Inventory.mem_modify.mp hkept
  by_cases hop' : r'.outpoint ∈ ops
  · rw [if_pos (by simpa using hop')] at he
    rw [he]
  · rw [if_neg (by simpa using hop')] at he
    exact absurd hop (he ▸ hop')

/-- Every execution of an operation that gives back the inputs of a dead transaction, at whatever
time and in whatever state, leaves the coins of others as they are exactly if it is a release, or
none of the named coins of others is frozen. -/
theorem give_back_frame {payload : OutboxPayload} (hp : GivesBack D refs ops payload) :
    (∀ (env : Env) (s : Session Db), s.db.utxo = i → ∀ r ∈ i.rows, r.spentBy ≠ some D →
      r.reservedBy ∉ refs → r ∈ (executeOutboxOp env payload s).2.db.utxo.rows)
    ↔ (payload.op = .unspend → ∀ r ∈ i.rows, r.outpoint ∈ ops → r.spentBy ≠ some D →
      r.reservedBy ∉ refs → r.frozen = false) := by
  constructor
  · intro h hop
    cases hp with
    | unspend => exact fun r hr ho hs hR =>
        unfrozen_of_foreign_kept (fun s hs r hr hF => h _ s hs r hr hF.1 hF.2) r hr ho ⟨hs, hR⟩
    | release => cases hop
  · intro h env s hs r hr hsp hR
    exact foreign_kept_of_unfrozen hp (fun hop r hr ho hF => h hop r hr ho hF.1 hF.2) env s hs r hr
      ⟨hsp, hR⟩

end Storage

/-- The oracle answers REJECTED for one transaction. -/
def Env.rejecting (txid : TxID) : Env :=
  { Env.quiet with
    getTx := fun t => if t = txid then .found ⟨txid, .rejected, 0, "", [], none⟩ else .failed }

/-- The user is paid by a transaction without a proof. -/
def unprovenPaidSteps : List Step :=
  let env := { Env.quiet with reference := "payment" }
  [.spawn (.internalizeAction 1 ⟨"parent", [⟨0, .walletPayment⟩]⟩), .run 0 env, .run 0 env]

/-- An action is created that spends the payment, call by call. -/
def createCallSteps : List Step :=
  let env := { Env.quiet with reference := "ref" }
  .spawn (.createAction 1 ⟨[], [⟨1000, "script", none⟩], none, false⟩) :: List.replicate
      10 (.run 1 env)

/-- The action is signed and sent, and the oracle refuses it. -/
def signRejectedSteps : List Step :=
  .spawn (.processAction 1 ⟨true, false, false, some "ref", some "child", some "child", []⟩) ::
    List.replicate 10 (.run 2 { Env.quiet with broadcast := .rejected .rejected "" })

/-- A pass of the reconciler, without a grace, to which the oracle answers REJECTED. -/
def passSteps (thread : ℕ) (txid : TxID) (n : ℕ) : List Step :=
  .spawn (.verifyAndReleaseSuspects 0 1000 10) :: List.replicate n
      (.run thread (Env.rejecting txid))

/-- The child is finalized; its operations run inline, but the unit fails at the last bookkeeping
statement, so that all of them stay in the outbox. -/
def deadChildSteps : List Step :=
  unprovenPaidSteps ++ createCallSteps ++ signRejectedSteps ++ passSteps 3 "child" 6
    ++ passSteps 4 "child" 7
    ++ [.run 4 { Env.quiet with beats := List.replicate 6 ⟨0, false⟩ ++ [⟨0, true⟩] }]

/-- Then the parent is rejected too, and a pass puts its coin in quarantine. -/
def quarantinedSteps : List Step :=
  deadChildSteps
    ++ [.spawn (.applyStatusUpdate ⟨"parent", .rejected, 0, "", [], none⟩), .run 5 Env.quiet,
      .run 5 Env.quiet]
    ++ passSteps 6 "parent" 6

/-- The release of the child does not touch the coin in quarantine, and before the quarantine a
second unspend leaves the coin as the first one left it. -/
theorem give_back_frame_release :
    (∀ (env : Env) (s : Session Db),
      s.db.utxo = ((wallet (paidProvider .b)).runs System.initial quarantinedSteps).shared.db.utxo →
      ∀ r ∈ ((wallet (paidProvider .b)).runs System.initial quarantinedSteps).shared.db.utxo.rows,
        r.spentBy ≠ some "child" → r.reservedBy ∉ ["ref"] →
        r ∈ (Storage.executeOutboxOp env (.release "ref" [⟨"parent", 0⟩]) s).2.db.utxo.rows)
    ∧ (∃ r ∈ ((wallet (paidProvider .b)).runs System.initial
      deadChildSteps).shared.db.utxo.rows.rows,
      r.outpoint = ⟨"parent", 0⟩ ∧ r.spentBy ≠ some "child" ∧ r.reservedBy ∉ ["ref"])
    ∧ ∀ (env : Env) (s : Session Db),
      s.db.utxo = ((wallet (paidProvider .b)).runs System.initial deadChildSteps).shared.db.utxo →
      ∀ r ∈ ((wallet (paidProvider .b)).runs System.initial deadChildSteps).shared.db.utxo.rows,
        r.spentBy ≠ some "child" → r.reservedBy ∉ ["ref"] →
        r ∈ (Storage.executeOutboxOp env (.unspend "child" [⟨"parent", 0⟩]) s).2.db.utxo.rows := by
  have hfree : ∀ r ∈ ((wallet (paidProvider .b)).runs System.initial
      deadChildSteps).shared.db.utxo.rows.rows,
      r.frozen = false := by decide +kernel
  exact ⟨(Storage.give_back_frame (.release (by decide))).mpr nofun, by decide +kernel,
    (Storage.give_back_frame .unspend).mpr fun _ r hr _ _ _ => hfree r hr⟩

theorem replay_unfreezes_quarantined :
    (∃ e ∈ ((wallet (paidProvider .b)).runs System.initial
      quarantinedSteps).shared.db.metadata.outbox.rows,
      e.payload = .unspend "child" [⟨"parent", 0⟩])
    ∧ (∃ r ∈ ((wallet (paidProvider .b)).runs System.initial
      quarantinedSteps).shared.db.utxo.rows.rows,
      r.outpoint = ⟨"parent", 0⟩ ∧ r.spentBy = none ∧ r.reservedBy = "" ∧ r.frozen = true)
    ∧ ∃ r ∈ ((wallet (paidProvider .b)).runs System.initial (quarantinedSteps
        ++ [.spawn (.drainOutbox 10), .run 7 Env.quiet])).shared.db.utxo.rows.rows,
      r.outpoint = ⟨"parent", 0⟩ ∧ r.frozen = false := by
  decide +kernel

end ArcadeToolbox
