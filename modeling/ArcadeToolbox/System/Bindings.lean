import ArcadeToolbox.System.Aborts
import ArcadeToolbox.System.Signed

/-!
# One txid for a reference

A signer reads the transactions row of its reference and binds the row to the txid of its bytes in
the unit that stores them. Another signer may have bound the row in between. The binding is a
compare-and-set and the unit fails as a whole, so the row keeps the txid it got first, and of the
bytes signed for one reference only those are stored.
-/

namespace ArcadeToolbox

open Txn Uow Storage

variable {m : Metadata} {now : Time} {R : Token} {T : TxID}

/-- The row of a reference carries a txid. -/
def Metadata.Binds (m : Metadata) (R : Token) (T : TxID) : Prop :=
  ∃ r ∈ m.transactions, r.reference = R ∧ r.txid = some T

/-- The compare-and-set leaves a txid that is there. -/
theorem keeps_binding (R : Token) (T : TxID) : TxRow.Keeps fun r => r.reference = R
    ∧ r.txid = some T := by
  rintro w r hg ⟨href, ht⟩
  cases w with
  | setTxID t =>
    simp only [TxWrite.guard, ht, reduceCtorEq, decide_false, Bool.false_or, decide_eq_true_eq,
      Option.some.injEq] at hg
    exact ⟨href, congrArg some hg.symm⟩
  | updateStatus => exact ⟨href, ht⟩

def Metadata.OneRow (m : Metadata) : Prop :=
  ∀ r ∈ m.transactions, ∀ r' ∈ m.transactions, r.reference = r'.reference → r = r'

theorem oneRow_of_transactions {m' : Metadata} (h : m.OneRow)
    (ht : m'.transactions = m.transactions) :
    m'.OneRow := by
  unfold Metadata.OneRow
  rwa [ht]

theorem oneRow_writeTx (h : m.OneRow) (w : TxWrite) (sel : TxRow → Bool) :
    (m.writeTx w sel).OneRow := by
  have href : ∀ r : TxRow, (if sel r && w.guard r then w.edit r else r).reference
      = r.reference := by
    intro r
    split
    · cases w <;> rfl
    · rfl
  intro x hx x' hx' he
  obtain ⟨r, hr, rfl⟩ := Metadata.mem_writeTx.mp hx
  obtain ⟨r', hr', rfl⟩ := Metadata.mem_writeTx.mp hx'
  rw [href, href] at he
  rw [h r hr r' hr' he]

theorem oneRow_insertTx (h : m.OneRow) (tx : NewTx) : (m.insertTx tx now).2.OneRow := by
  unfold Metadata.insertTx
  split
  · exact h
  · rename_i hfree
    have hne : ∀ r ∈ m.transactions, r.reference ≠ tx.reference := fun r hr he =>
      hfree (Table.any_eq_true.mpr ⟨r, hr, by simp [he]⟩)
    intro x hx x' hx' he
    rcases Table.mem_insert.mp hx with hx | ⟨rfl, -⟩
        <;> rcases Table.mem_insert.mp hx' with hx' | ⟨rfl, -⟩
    · exact h x hx x' hx' he
    · exact absurd he (hne x hx)
    · exact absurd he.symm (hne x' hx')
    · rfl

theorem oneRow_apply (h : m.OneRow) (op : MetaOp) : (op.apply now m).OneRow := by
  cases op with
  | known | cascade => exact oneRow_of_transactions h (Metadata.writeKnownOne_transactions _ _ _ _)
  | credit t proof => exact oneRow_of_transactions h (upsertKnown_transactions _ _ _ _)
  | txStatus st expected ts => exact oneRow_writeTx h _ _
  | insertTx tx => exact oneRow_insertTx h tx
  | adopt tx t => exact oneRow_writeTx (oneRow_insertTx h tx) _ _
  | fence row => exact oneRow_of_transactions (oneRow_writeTx h _ _) (fence_transactions row)
  | store id t sts =>
    exact oneRow_of_transactions (oneRow_writeTx (oneRow_writeTx h _ _) _ _)
      (upsertKnown_transactions _ _ _ _)
  | knownAll | note | outputs | enqueue | markDone | recordError => exact h

theorem Metadata.OneRow.binds (h : m.OneRow) {T' : TxID} (hT : m.Binds R T) (hT' : m.Binds R T') :
    T = T' := by
  obtain ⟨r, hr, href, ht⟩ := hT
  obtain ⟨r', hr', href', ht'⟩ := hT'
  rw [h r hr r' hr' (href.trans href'.symm), ht'] at ht
  exact (Option.some.inj ht).symm

theorem binds_store {id : TransactionID} {u : UserID} {sts : TxStatus × ProvenTxReqStatus}
    (hen : (MetaOp.store id T sts).Enabled m) (hrow : m.HasRow id u R) :
    ((MetaOp.store id T sts).apply now m).Binds R T := by
  obtain ⟨⟨r, hr, hid, ht, -⟩, -⟩ := hen
  obtain ⟨r', hr', hid', -, href⟩ := hrow
  have hsame : r' = r := Table.eq_of_key hr' hr (hid'.trans hid.symm)
  subst hsame
  have hbound : (m.writeTx (.setTxID T) fun r => r.transactionID = id).Binds R T := by
    refine ⟨{ r' with txid := some T }, Metadata.mem_writeTx.mpr ⟨r', hr', ?_⟩, href, rfl⟩
    have hg : (TxWrite.setTxID T).guard r' = true := by simpa [TxWrite.guard] using ht
    rw [if_pos (Bool.and_eq_true_iff.mpr ⟨decide_eq_true hid, hg⟩)]
    rfl
  unfold Metadata.Binds
  simp only [MetaOp.apply, Metadata.record, Metadata.log, upsertKnown_transactions]
  exact exists_row_writeTx (keeps_binding R T) hbound _ _

theorem binds_processCommit {p : Provider} {u : UserID} {args : ProcessActionArgs} {row : TxRow}
    {s : Session Db} (hrow : s.db.metadata.HasRow row.transactionID u R) :
    (processCommit p u args R T row s).2.db.metadata = s.db.metadata
    ∨ (processCommit p u args R T row s).2.db.metadata.Binds R T := by
  rcases hc : processCommit p u args R T row s with ⟨e | a, s'⟩
  · left
    unfold processCommit doUnit atomically at hc
    split at hc
    · cases hc
    · cases hc
      exact rollback_metadata _ _ _
  · right
    obtain ⟨_, s1, h1, h⟩ := bind_ok (doUnit_ok hc)
    obtain ⟨_, s2, h2, h3⟩ := bind_ok h
    obtain ⟨s0, hw, -, rfl⟩ := utxoStmt_ok h1
    obtain ⟨-, -, hen, hmeta⟩ := storeSigned_ok h2
    have hmint : s'.db.metadata = s2.db.metadata := metadata_eq_of_trace
      ((trace_mintChange (W := fun _ => False) (C := fun _ => True) _ fun _ => trivial).run h3)
    change s'.db.metadata.Binds R T
    rw [hmint, hmeta]
    refine binds_store (u := u) hen ?_
    change s0.db.metadata.HasRow _ _ _
    rw [hw.db]
    exact hrow

/-- A signer that waits knows the row of its reference. -/
def Task.SignKnown (d : Shared) : Task → Prop
  | .processValidate u _ ref _ row | .processCommit u _ ref _ row =>
    d.db.metadata.HasRow row.transactionID u ref
  | _ => True

section Runs

variable {p : Provider} {d : Shared} {t t' : Task} {env : Env}

theorem Task.SignKnown.exec (h : t'.SignKnown d) (env : Env) (t : Task) :
    t'.SignKnown (t.exec p env d).1 := by
  cases t' with
  | processValidate | processCommit => exact hasRow_exec h env t
  | _ => trivial

theorem signKnown_of_leads (hA : t.SignKnown d) (ht : t' ∈ (t.exec p env d).2.pushed) :
    t'.SignKnown (t.exec p env d).1 := by
  have hl := exec_leads p env t d ht
  cases hl with
  | validate hr hu href => exact hasRow_exec ⟨_, hr, rfl, hu, href⟩ env _
  | commit => exact hasRow_exec hA env _
  | _ => trivial

theorem signKnown_start (op : Operation) : ∀ t ∈ op.start, t.SignKnown d := by
  intro t ht
  cases op with
  | checkProofs =>
    simp only [Operation.start, List.mem_cons, List.not_mem_nil, or_false] at ht
    rcases ht with rfl | rfl | rfl <;> trivial
  | _ =>
    cases List.mem_singleton.mp ht
    trivial

theorem oneRow_exec (h : d.db.metadata.OneRow) (env : Env) (t : Task) :
    (t.exec p env d).1.db.metadata.OneRow :=
  (exec_writes p env t d).keeps (I := Metadata.OneRow) (fun ⟨op, _, _, he⟩ hr =>
      he ▸ oneRow_apply hr op) h

theorem binds_exec (h : d.db.metadata.Binds R T) (env : Env) (t : Task) :
    (t.exec p env d).1.db.metadata.Binds R T :=
  (exec_writes p env t d).keeps (I := fun m => m.Binds R T)
    (fun ⟨op, _, _, he⟩ hr => he ▸ exists_row_apply (keeps_binding R T) hr op) h

/-- In every state there is one row for a reference, and the signers know theirs. -/
theorem signers_known (p : Provider) (ls : List Step) :
    ((wallet p).runs System.initial ls).shared.db.metadata.OneRow
    ∧ Code.Waiting Task.SignKnown ((wallet p).runs System.initial ls) := by
  refine Code.runs_waiting (J := fun d : Shared => d.db.metadata.OneRow) (A := Task.SignKnown)
    (fun _ op _ _ => signKnown_start op) ?_ ls System.initial (Code.along_true ls _) ⟨?_, ?_⟩
  · intro s l env t _ hr hJ hA
    exact ⟨oneRow_exec hJ env t, fun t' => signKnown_of_leads (hr.waiting hA),
      fun th hth t' ht' => (hA th hth t' ht').exec env t⟩
  · intro r hr
    cases hr
  · intro th hth
    cases hth

end Runs

/-- The step is the commit of a signer that writes: these bytes are stored for this reference. -/
def System.Stores (p : Provider) (s : System) (l : Step) (R : Token) (T : TxID) : Prop :=
  (∃ u args row, Code.top s l = some (.processCommit u args R T row))
  ∧ ((wallet p).step s l).shared.db.metadata ≠ s.shared.db.metadata

variable {p : Provider} {ls : List Step}

/-- A binding stays for the rest of the run. -/
theorem binds_before {i j : ℕ} (hij : i ≤ j)
    (h : ((wallet p).before System.initial ls i).shared.db.metadata.Binds R T) :
    ((wallet p).before System.initial ls j).shared.db.metadata.Binds R T := by
  obtain ⟨more, hmore⟩ : ∃ more, ls.take j = ls.take i ++ more :=
    ⟨_, (List.take_append_drop i (ls.take j)).symm.trans (by rw [List.take_take, min_eq_left hij])⟩
  unfold Code.before
  rw [hmore, Code.runs_append]
  exact Code.runs_shared (J := fun d : Shared => d.db.metadata.Binds R T) (fun env t d h =>
      binds_exec h env t) more _ h

theorem binds_of_stores {i : ℕ} {l : Step} (hl : ls[i]? = some l)
    (h : System.Stores p ((wallet p).before System.initial ls i) l R T) :
    ((wallet p).before System.initial ls (i + 1)).shared.db.metadata.Binds R T := by
  obtain ⟨⟨u, args, row, htop⟩, hne⟩ := h
  obtain ⟨env, hr⟩ := Code.runs_of_top htop
  have hknown : ((wallet p).before System.initial ls i).shared.db.metadata.HasRow
      row.transactionID u R :=
    hr.waiting (signers_known p (ls.take i)).2
  have hnext : (wallet p).before System.initial ls (i + 1)
      = (wallet p).step ((wallet p).before System.initial ls i) l := by
    unfold Code.before
    rw [List.take_add_one, hl, Option.toList_some, Code.runs_concat]
  rw [hnext]
  rw [hr.step_shared] at hne ⊢
  change ((Task.processCommit u args R T row).exec p env _).1.db.metadata ≠ _ at hne
  change ((Task.processCommit u args R T row).exec p env _).1.db.metadata.Binds R T
  rw [exec_fst] at hne ⊢
  simp only [Task.run, last_snd] at hne ⊢
  refine Or.resolve_left (binds_processCommit ?_) hne
  exact hknown

/-- Along every run, the txid on the row of a reference does not change once it is set, and all the
bytes stored for one reference have one txid. -/
theorem reference_binds_one_txid (p : Provider) (ls : List Step) :
    (∀ i j, i ≤ j → ∀ r ∈ ((wallet p).before System.initial ls i).shared.db.metadata.transactions,
      ∀ r' ∈ ((wallet p).before System.initial ls j).shared.db.metadata.transactions,
      r'.reference = r.reference → ∀ T, r.txid = some T → r'.txid = some T)
    ∧ ∀ R T T' i j l l', ls[i]? = some l → ls[j]? = some l' →
      System.Stores p ((wallet p).before System.initial ls i) l R T →
      System.Stores p ((wallet p).before System.initial ls j) l' R T' → T = T' := by
  constructor
  · intro i j hij r hr r' hr' href T hT
    obtain ⟨r₁, hr₁, href₁, ht₁⟩ := binds_before hij ⟨r, hr, rfl, hT⟩
    rw [(signers_known p (ls.take j)).1 r' hr' r₁ hr₁ (href.trans href₁.symm)]
    exact ht₁
  · intro R T T' i j l l' hl hl' hS hS'
    -- both bindings are there at the end of the run
    have hlast : ∀ {k : ℕ} {T : TxID},
        ((wallet p).before System.initial ls k).shared.db.metadata.Binds R T →
        ((wallet p).before System.initial ls (max k ls.length)).shared.db.metadata.Binds R T :=
          fun h =>
      binds_before (Nat.le_max_left _ _) h
    have hend : ∀ k, (wallet p).before System.initial ls (max k ls.length)
        = (wallet p).runs System.initial ls := fun k => by
      unfold Code.before
      rw [List.take_of_length_le (Nat.le_max_right _ _)]
    have h := hlast (binds_of_stores hl hS)
    have h' := hlast (binds_of_stores hl' hS')
    rw [hend] at h h'
    exact (signers_known p ls).1.binds h h'

/-- Two signers with different bytes read the row of one action; the one that commits first wins. -/
def rivalSteps : List Step :=
  paidSteps ++ createSteps ++ [.spawn signed,
    .spawn (.processAction 1 ⟨true, false, true, some "ref", some "short", some "short", []⟩)]
    ++ List.replicate 3 (.run 3 Env.quiet) ++ signSteps 2 ++ [.run 3 Env.quiet]

theorem reference_binds_one_txid_rivals :
    (∃ r ∈ ((wallet (shortProvider .a)).runs System.initial
      rivalSteps).shared.db.metadata.transactions.rows,
      r.reference = "ref" ∧ r.txid = some "child")
    ∧ (∀ k ∈ ((wallet (shortProvider .a)).runs System.initial
      rivalSteps).shared.db.metadata.knownTxs.rows,
      k.txid ≠ "short")
    ∧ ∀ T T' i j l l', rivalSteps[i]? = some l → rivalSteps[j]? = some l' →
      System.Stores (shortProvider .a)
        ((wallet (shortProvider .a)).before System.initial rivalSteps i) l "ref" T →
      System.Stores (shortProvider .a)
        ((wallet (shortProvider .a)).before System.initial rivalSteps j) l' "ref" T' →
      T = T' :=
  ⟨by decide +kernel, by decide +kernel,
      (reference_binds_one_txid (shortProvider .a) rivalSteps).2 "ref"⟩

end ArcadeToolbox
