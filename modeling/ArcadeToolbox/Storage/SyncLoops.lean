import ArcadeToolbox.Storage.Sync
import ArcadeToolbox.Utxostore.Invariants

/-!
# The loops of a chunk's unpacking

On a storage nobody else works on, a transaction whose reference is new is inserted under an id of
its own, and one that is known is left alone. An output whose transaction was inserted leaves a row
and, if it is live, a coin; what is minted depends on the chunk alone. The unpacking fails exactly
where a mint is refused.
-/

namespace ArcadeToolbox

open Txn

theorem idToName_nameToID {baskets : List BasketRow} {name : String} {id : ℕ}
    (h : nameToID (numberBaskets baskets) name = some id) :
    idToName (numberBaskets baskets) id = some name := by
  obtain ⟨b, hb, rfl⟩ := Option.map_eq_some_iff.mp h
  have hname := List.find?_some hb
  have hmem := List.mem_of_find?_eq_some hb
  rcases hf : (numberBaskets baskets).find? (fun c => c.basketID = b.basketID) with _ | c
  · exact absurd (List.find?_eq_none.mp hf b hmem) (by simp)
  · -- no two baskets have one number
    have hid := List.find?_some hf
    obtain ⟨⟨r, i⟩, hr, rfl⟩ := List.mem_map.mp hmem
    obtain ⟨⟨r', i'⟩, hr', rfl⟩ := List.mem_map.mp (List.mem_of_find?_eq_some hf)
    rw [List.mem_zipIdx_iff_getElem?] at hr hr'
    simp only [decide_eq_true_eq, Nat.add_right_cancel_iff] at hid hname
    subst hid
    cases hr.symm.trans hr'
    exact Option.map_eq_some_iff.mpr ⟨_, hf, hname⟩

theorem nameToID_isSome (baskets : List BasketRow) (name : String) :
    (nameToID (numberBaskets baskets) name).isSome = baskets.any fun b => b.name = name := by
  unfold nameToID numberBaskets
  rw [Option.isSome_map, List.find?_map, Option.isSome_map, List.isSome_find?]
  have h := List.any_map (f := Prod.fst) (l := baskets.zipIdx) (p := fun b : BasketRow =>
      decide (b.name = name))
  rw [List.zipIdx_map_fst] at h
  rw [h]
  rfl

namespace Storage

/-- A storage nobody else works on, whose statements do not fail. -/
def calm (st : SyncStore) (now : Time) : Session SyncStore := ⟨st, now, [], []⟩

variable {st st' : SyncStore} {now : Time} {userID : UserID} {acc : SyncAcc} {t : SyncTx}
  {o : SyncOutput}

section Calm

variable {α : Type} (st : SyncStore) (now : Time)

theorem onDb_metaStmt (f : Time → Metadata → Except Err α × Metadata) :
    onDb (metaStmt f) (calm st now)
    = ((f now st.db.metadata).1, calm { st with
        db := { st.db with metadata := (f now st.db.metadata).2 } } now) := rfl

theorem onDb_metaQuery (f : Metadata → α) :
    onDb (metaQuery f) (calm st now) = (.ok (f st.db.metadata), calm st now) := rfl

theorem onDb_utxoStmt (f : Time → Inventory → Except Err α × Inventory) :
    onDb (utxoStmt f) (calm st now)
    = ((f now st.db.utxo).1, calm { st with db := { st.db with utxo := (f now st.db.utxo).2 } }
      now) := rfl

end Calm

theorem forM_upsertBasket (userID : UserID) (now : Time) :
    ∀ (bs : List SyncBasket) (st : SyncStore),
    ∃ baskets, bs.forM (fun b => upsertBasket userID b.config true) (calm st now)
      = (.ok (), calm { st with baskets := baskets } now)
  | [], st => ⟨st.baskets, rfl⟩
  | b :: bs, st => by
    obtain ⟨baskets₁, h1⟩ : ∃ baskets, upsertBasket userID b.config true (calm st now)
        = (.ok (), calm { st with baskets := baskets } now) := ⟨_, rfl⟩
    obtain ⟨baskets, h⟩ := forM_upsertBasket userID now bs { st with baskets := baskets₁ }
    exact ⟨baskets, Uow.bind_of_ok h1 h⟩

/-- The row of a transaction that arrives. -/
def importedRow (userID : UserID) (now : Time) (id : TransactionID) (t : SyncTx) : TxRow :=
  { transactionID := id, userID := userID, status := t.status, reference := t.reference,
    isOutgoing := t.isOutgoing,
    satoshis := t.satoshis, txid := t.txid, createdAt := now }

def importTx (userID : UserID) (now : Time) (t : SyncTx) (m : Metadata) : Metadata :=
  { m with
    nextTransactionID := m.nextTransactionID + 1
    transactions := m.transactions.insert (importedRow userID now m.nextTransactionID t) }

theorem setTxID_importTx {m : Metadata} {txid : TxID}
    (hids : ∀ r ∈ m.transactions, r.transactionID < m.nextTransactionID)
    (ht : t.txid = some txid) (e : Err) :
    (importTx userID now { t with txid := none } m).writeTxOr (.setTxID txid)
      (fun r => r.transactionID = m.nextTransactionID) e = (.ok (), importTx userID now t m) := by
  have hfree : m.transactions.get? m.nextTransactionID = none :=
    Table.get?_eq_none.mpr fun r hr => (hids r hr).ne
  have hin : importedRow userID now m.nextTransactionID { t with txid := none }
      ∈ (importTx userID now { t with txid := none } m).transactions :=
        Table.mem_insert.mpr (Or.inr ⟨rfl, hfree⟩)
  unfold Metadata.writeTxOr
  rw [if_pos (Table.any_eq_true.mpr ⟨_, hin, by simp [importedRow, TxWrite.guard]⟩)]
  congr 1
  unfold Metadata.writeTx importTx
  congr 1
  refine Table.eq_of_rows ?_
  have hkey : ∀ t' : SyncTx, Txn.key (importedRow userID now m.nextTransactionID t')
      ∉ m.transactions.rows.map Txn.key := by
    intro t' hk
    obtain ⟨r, hr, he⟩ := List.mem_map.mp hk
    exact absurd he (hids r hr).ne
  have hold : m.transactions.rows.map (fun r => if decide (r.transactionID = m.nextTransactionID)
      && (TxWrite.setTxID txid).guard r then (TxWrite.setTxID txid).edit r else r)
          = m.transactions.rows := by
    refine (List.map_congr_left fun r hr => ?_).trans (List.map_id _)
    simp [(hids r hr).ne]
  simp only [Table.insert, dif_neg (hkey _), Table.update, List.map_append, hold,
      List.map_singleton]
  simp [importedRow, TxWrite.guard, TxWrite.edit, ht]

variable (now userID acc) in
/-- A transaction whose reference is new. -/
theorem processTransaction_new
    (hids : ∀ r ∈ st.db.metadata.transactions, r.transactionID < st.db.metadata.nextTransactionID)
    (href : ∀ r ∈ st.db.metadata.transactions, r.reference ≠ t.reference) :
    processTransaction userID acc t (calm st now)
      = (.ok { acc with
          oldToNew := (t.transactionID, st.db.metadata.nextTransactionID) :: acc.oldToNew
          inserts := acc.inserts + 1 },
        calm { st with db := { st.db with metadata := importTx userID now t st.db.metadata } }
            now) := by
  have hfind : onDb (TransactionsRepo.findByReference userID t.reference) (calm st now) = (.ok none,
      calm st now) := by
    have hnil : (st.db.metadata.transactions.select fun r => r.userID = userID && r.reference
        = t.reference) = [] := by
      refine List.filter_eq_nil_iff.mpr fun r hr => ?_
      simp [href r hr]
    rw [TransactionsRepo.findByReference, onDb_metaQuery, hnil]
    rfl
  have hinsert : onDb (TransactionsRepo.insert
      { userID := userID, status := t.status, reference := t.reference, isOutgoing := t.isOutgoing,
        satoshis := t.satoshis }) (calm st now) = (.ok st.db.metadata.nextTransactionID, calm
          { st with db.metadata := importTx userID now { t with txid := none } st.db.metadata }
          now) := by
    have hno : (st.db.metadata.transactions.any fun r => decide (r.reference = t.reference))
        = false :=
      Table.any_eq_false.mpr fun r hr => by simp [href r hr]
    rw [TransactionsRepo.insert, onDb_metaStmt]
    simp only [Metadata.insertTx, hno]
    rfl
  refine Uow.bind_of_ok hfind (Uow.bind_of_ok hinsert ?_)
  rcases ht : t.txid with _ | txid
  · have hsame : { t with txid := none } = t := by rw [← ht]
    rw [hsame]
    rfl
  · have hset : onDb (TransactionsRepo.setTxID st.db.metadata.nextTransactionID txid) (calm
          { st with db.metadata := importTx userID now { t with txid := none } st.db.metadata } now)
        = (.ok (), calm { st with db.metadata := importTx userID now t st.db.metadata } now) := by
      rw [TransactionsRepo.setTxID, onDb_metaStmt]
      dsimp only
      rw [setTxID_importTx hids ht]
    exact Uow.bind_of_ok hset rfl

theorem processTransaction_found (h : ∃ r ∈ st.db.metadata.transactions, r.userID = userID
    ∧ r.reference = t.reference) :
    processTransaction userID acc t (calm st now) = (.ok { acc with updates := acc.updates + 1 },
      calm st now) := by
  obtain ⟨r, hr, hu, href⟩ := h
  rcases hsel : (st.db.metadata.transactions.select fun r => r.userID = userID && r.reference
      = t.reference).head?
    with _ | r'
  · rw [List.head?_eq_none_iff] at hsel
    exact absurd (Table.mem_select.mpr ⟨hr, by simp [hu, href]⟩) (hsel ▸ List.not_mem_nil)
  · have hfind : onDb (TransactionsRepo.findByReference userID t.reference) (calm st now)
        = (.ok (some r'), calm st now) := by
      rw [TransactionsRepo.findByReference, onDb_metaQuery, hsel]
    exact Uow.bind_of_ok hfind rfl

/-- The transactions in `done` have arrived, each under an id of its own. -/
structure Imported (userID : UserID) (done : List SyncTx) (acc : SyncAcc)
    (m : Metadata) : Prop where
  ids : ∀ r ∈ m.transactions, r.transactionID < m.nextTransactionID
  refs : ∀ r ∈ m.transactions, ∃ t ∈ done, r.reference = t.reference
  found : ∀ t ∈ done, ∃ r ∈ m.transactions, r.userID = userID ∧ r.reference = t.reference
  mapped : ∀ t ∈ done, ∃ n, acc.oldToNew.lookup t.transactionID = some n
  below : ∀ a n, acc.oldToNew.lookup a = some n → n < m.nextTransactionID
  inj : ∀ a b n, acc.oldToNew.lookup a = some n → acc.oldToNew.lookup b = some n → a = b

/-- Two transactions with different references and ids. -/
def Apart (t t' : SyncTx) : Prop := t.reference ≠ t'.reference ∧ t.transactionID ≠ t'.transactionID

theorem lookup_cons {k a : TransactionID} {n : TransactionID}
    {l : List (TransactionID × TransactionID)} :
    ((k, n) :: l).lookup a = if a = k then some n else l.lookup a := by
  by_cases h : a = k
  · simp [h]
  · rw [List.lookup_cons, beq_eq_false_iff_ne.mpr h, if_neg h]

theorem Imported.step {done : List SyncTx} {m : Metadata} (h : Imported userID done acc m)
    (hnew : ∀ t' ∈ done, Apart t' t) :
    Imported userID (done ++ [t])
      { acc with oldToNew := (t.transactionID, m.nextTransactionID) :: acc.oldToNew,
                 inserts := acc.inserts + 1 }
      (importTx userID now t m) where
  ids r hr := by
    rcases Table.mem_insert.mp hr with hr | ⟨rfl, -⟩
    · exact Nat.lt_succ_of_lt (h.ids r hr)
    · exact Nat.lt_succ_self _
  refs r hr := by
    rcases Table.mem_insert.mp hr with hr | ⟨rfl, -⟩
    · obtain ⟨t', ht', href⟩ := h.refs r hr
      exact ⟨t', List.mem_append_left _ ht', href⟩
    · exact ⟨t, by simp, rfl⟩
  found t' ht' := by
    rcases List.mem_append.mp ht' with ht' | ht'
    · obtain ⟨r, hr, hu, href⟩ := h.found t' ht'
      exact ⟨r, Table.mem_insert.mpr (Or.inl hr), hu, href⟩
    · obtain rfl := List.mem_singleton.mp ht'
      have hfree : m.transactions.get? m.nextTransactionID = none :=
        Table.get?_eq_none.mpr fun r hr => (h.ids r hr).ne
      exact ⟨_, Table.mem_insert.mpr (Or.inr ⟨rfl, hfree⟩), rfl, rfl⟩
  mapped t' ht' := by
    rw [lookup_cons]
    split
    · exact ⟨_, rfl⟩
    · rcases List.mem_append.mp ht' with ht' | ht'
      · exact h.mapped t' ht'
      · rename_i hne
        exact absurd (congrArg SyncTx.transactionID (List.mem_singleton.mp ht')) hne
  below a n hn := by
    rw [lookup_cons] at hn
    split at hn
    · cases hn
      exact Nat.lt_succ_self _
    · exact Nat.lt_succ_of_lt (h.below a n hn)
  inj a b n ha hb := by
    rw [lookup_cons] at ha hb
    split at ha <;> split at hb
    · exact ‹a = _›.trans ‹b = _›.symm
    · cases ha
      exact absurd (h.below b _ hb) (Nat.lt_irrefl _)
    · cases hb
      exact absurd (h.below a _ ha) (Nat.lt_irrefl _)
    · exact h.inj a b n ha hb

variable (now) in
theorem foldlM_processTransaction : ∀ (ts done : List SyncTx) (acc : SyncAcc) (st : SyncStore),
    Imported userID done acc st.db.metadata → (∀ t ∈ done, ∀ t' ∈ ts, Apart t t') →
      ts.Pairwise Apart →
    ∃ acc' m, ts.foldlM (processTransaction userID) acc (calm st now)
        = (.ok acc', calm { st with db := { st.db with metadata := m } } now)
      ∧ m.outputs = st.db.metadata.outputs ∧ Imported userID (done ++ ts) acc' m
  | [], done, acc, st, h, _, _ => ⟨acc, st.db.metadata, rfl, rfl, by simpa using h⟩
  | t :: ts, done, acc, st, h, hdone, hts => by
    obtain ⟨ht, hts⟩ := List.pairwise_cons.mp hts
    have hnew : ∀ t' ∈ done, Apart t' t := fun t' ht' => hdone t' ht' t List.mem_cons_self
    have hfirst := processTransaction_new now userID acc h.ids fun r hr => by
      obtain ⟨t', ht', href⟩ := h.refs r hr
      rw [href]
      exact (hnew t' ht').1
    obtain ⟨acc', m, hrun, hout, himp⟩ := foldlM_processTransaction ts (done ++ [t]) _
      { st with db := { st.db with metadata := importTx userID now t st.db.metadata } }
          (h.step hnew)
      (by
        intro t1 ht1 t2 ht2
        rcases List.mem_append.mp ht1 with ht1 | ht1
        · exact hdone t1 ht1 t2 (List.mem_cons_of_mem t ht2)
        · rw [List.mem_singleton.mp ht1]
          exact ht t2 ht2) hts
    refine ⟨acc', m, ?_, hout, by simpa using himp⟩
    rw [List.foldlM_cons]
    exact Uow.bind_of_ok hfirst hrun

/-- A chunk that has arrived before changes nothing. -/
theorem foldlM_processTransaction_found : ∀ (ts : List SyncTx) (acc : SyncAcc),
    (∀ t ∈ ts, ∃ r ∈ st.db.metadata.transactions, r.userID = userID ∧ r.reference = t.reference) →
    ts.foldlM (processTransaction userID) acc (calm st now)
      = (.ok { acc with updates := acc.updates + ts.length }, calm st now)
  | [], acc, _ => rfl
  | t :: ts, acc, h => by
    have ih := foldlM_processTransaction_found ts { acc with updates := acc.updates + 1 }
      fun t' ht' => h t' (List.mem_cons_of_mem t ht')
    rw [List.foldlM_cons, List.length_cons]
    refine (Uow.bind_of_ok (processTransaction_found (h t List.mem_cons_self)) ih).trans ?_
    simp only [Nat.add_assoc, Nat.add_comm 1]

/-- The coin an output is minted as. -/
def mintOf (userID : UserID) (baskets : List SyncBasket) (o : SyncOutput) : Option Mint :=
  o.txid.bind fun txid =>
    if !o.change || !o.spendable || o.spentBy.isSome then none
    else some (syncMint userID (syncedBasket baskets o) txid o)

/-- There is an output row for an index of a transaction. -/
def Taken (m : Metadata) (id : TransactionID) (vout : ℕ) : Prop :=
  ∃ r ∈ m.outputs, r.transactionID = id ∧ r.vout = vout

theorem syncedBasket_ne_empty (baskets : List SyncBasket) (o : SyncOutput) :
    syncedBasket baskets o ≠ "" := by
  unfold syncedBasket
  split
  · split
    · decide
    · assumption
  · decide

theorem insertSyncedOutput_new {m : Metadata} {n : NewOutput} {spentBy : Option TransactionID}
    (h : ¬ Taken m n.transactionID n.vout) : (∃ id, (insertSyncedOutput n spentBy m).1 = .ok id)
    ∧ (insertSyncedOutput n spentBy m).2.transactions = m.transactions
    ∧ ∀ id vout, Taken (insertSyncedOutput n spentBy m).2 id vout →
      Taken m id vout ∨ (id = n.transactionID ∧ vout = n.vout) := by
  have hno : (m.outputs.any fun r => r.transactionID = n.transactionID && r.vout = n.vout)
      = false := by
    refine Table.any_eq_false.mpr fun r hr => ?_
    by_contra hr'
    simp only [Bool.not_eq_false, Bool.and_eq_true, decide_eq_true_eq] at hr'
    exact h ⟨r, hr, hr'⟩
  simp only [insertSyncedOutput, Metadata.insertOutput, hno, Bool.false_eq_true, if_false]
  refine ⟨⟨_, rfl⟩, trivial, ?_⟩
  rintro id vout ⟨r, hr, rfl, rfl⟩
  obtain ⟨r0, hr0, rfl⟩ := (@Table.mem_update _ _ _ _ _ (fun r => { r with spentBy := spentBy })
    (fun _ => rfl) r).mp hr
  have hkept : ∀ b : Bool, (if b then { r0 with spentBy := spentBy } else r0).transactionID
      = r0.transactionID
      ∧ (if b then { r0 with spentBy := spentBy } else r0).vout = r0.vout := by
    intro b
    cases b <;> exact ⟨rfl, rfl⟩
  rw [(hkept _).1, (hkept _).2]
  rcases Table.mem_insert.mp hr0 with hr0 | ⟨rfl, -⟩
  · exact Or.inl ⟨r0, hr0, rfl, rfl⟩
  · exact Or.inr ⟨rfl, rfl⟩

/-- What an output that is inserted leaves behind: the row, and the coin if it is live. -/
structure Arrived (now : Time) (id : TransactionID) (o : SyncOutput) (mint : Option Mint)
    (st st' : SyncStore) :
    Prop where
  users : st'.users = st.users
  transactions : st'.db.metadata.transactions = st.db.metadata.transactions
  utxo : st'.db.utxo = (st.db.utxo.mint now mint.toList).2
  taken : ∀ id' vout, Taken st'.db.metadata id' vout →
    Taken st.db.metadata id' vout ∨ (id' = id ∧ vout = o.vout)

variable (now userID) in
/-- One output succeeds exactly if its coin can be minted. -/
theorem applySyncedOutput_calm (baskets : List SyncBasket) {id : TransactionID}
    (spentBy : Option TransactionID) (h : ¬ Taken st.db.metadata id o.vout) :
    ∃ st' r, applySyncedOutput userID id (syncedBasket baskets o) spentBy o
      (calm st now) = (r, calm st' now)
      ∧ Arrived now id o (mintOf userID baskets o) st st'
      ∧ ((∃ a, r = .ok a) ↔ ∀ e ∈ (st.db.utxo.mint now (mintOf userID baskets o).toList).1,
        e = none) := by
  unfold applySyncedOutput
  simp only [if_neg (syncedBasket_ne_empty baskets o)]
  obtain ⟨baskets', hbasket⟩ : ∃ bs, findOrCreateBasket userID (syncedBasket baskets o)
      (calm st now)
      = (.ok (), calm { st with baskets := bs } now) := ⟨_, rfl⟩
  obtain ⟨⟨oid, hok⟩, htx, htaken⟩ := @insertSyncedOutput_new st.db.metadata
    (syncedRow userID id (syncedBasket baskets o) o) spentBy h
  obtain ⟨st1, hinsert, harr⟩ : ∃ st1,
      onDb (insertSynced (syncedRow userID id (syncedBasket baskets o) o) spentBy)
      (calm { st with baskets := baskets' } now) = (.ok oid, calm st1 now)
          ∧ Arrived now id o none st st1 := by
    refine ⟨{ st with
      baskets := baskets'
      db.metadata := (insertSyncedOutput (syncedRow userID id (syncedBasket baskets o) o) spentBy
        st.db.metadata).2 }, ?_, ⟨rfl, htx, rfl, htaken⟩⟩
    rw [insertSynced, onDb_metaStmt, hok]
  unfold mintOf
  rcases o.txid with _ | txid
  · exact ⟨st1, .ok false, Uow.bind_of_ok hbasket (Uow.bind_of_ok hinsert rfl), harr, by
      simp [Inventory.mint]⟩
  · rw [Option.bind_some]
    by_cases hlive : (!o.change || !o.spendable || o.spentBy.isSome) = true
    · simp only [hlive, if_true]
      exact ⟨st1, .ok false, Uow.bind_of_ok hbasket (Uow.bind_of_ok hinsert rfl), harr, by
          simp [Inventory.mint]⟩
    · simp only [if_neg hlive, Option.toList_some]
      have hmint : onDb (UtxoStore.mint [syncMint userID (syncedBasket baskets o) txid o])
          (calm st1 now)
          = (.ok [(Inventory.mintOne now (syncMint userID (syncedBasket baskets o) txid o)
              st.db.utxo).1],
            calm { st1 with db.utxo :=
              (st.db.utxo.mint now [syncMint userID (syncedBasket baskets o) txid o]).2 } now) := by
        rw [UtxoStore.mint, onDb_utxoStmt, show st1.db.utxo = st.db.utxo from harr.utxo]
        rfl
      have harr' : Arrived now id o (some (syncMint userID (syncedBasket baskets o) txid o)) st
          { st1 with db.utxo :=
            (st.db.utxo.mint now [syncMint userID (syncedBasket baskets o) txid o]).2 } :=
        ⟨harr.users, harr.transactions, rfl, harr.taken⟩
      rcases he : (Inventory.mintOne now (syncMint userID (syncedBasket baskets o) txid o)
          st.db.utxo).1 with _ | e <;>
        rw [he] at hmint
      · refine ⟨_, .ok true, Uow.bind_of_ok hbasket
          (Uow.bind_of_ok hinsert (Uow.bind_of_ok hmint rfl)), harr', ?_⟩
        simp [Inventory.mint, he]
      · refine ⟨_, .error (.utxo e),
          Uow.bind_of_ok hbasket (Uow.bind_of_ok hinsert (Uow.bind_of_ok hmint rfl)), harr', ?_⟩
        simp [Inventory.mint, he]

variable (now userID) in
theorem processOutput_calm (baskets : List SyncBasket) {id : TransactionID}
    (hid : acc.oldToNew.lookup o.transactionID = some id) (h : ¬ Taken st.db.metadata id o.vout) :
    ∃ st' r, processOutput userID baskets acc o (calm st now) = (r, calm st' now)
      ∧ Arrived now id o (mintOf userID baskets o) st st'
      ∧ ((∃ a, r = .ok a) ↔ ∀ e ∈ (st.db.utxo.mint now (mintOf userID baskets o).toList).1,
        e = none)
      ∧ ∀ a, r = .ok a → a.oldToNew = acc.oldToNew := by
  obtain ⟨st', r, hrun, harr, hok⟩ := applySyncedOutput_calm now userID baskets
    (o.spentBy.bind fun id => acc.oldToNew.lookup id) h
  unfold processOutput
  rw [hid]
  rcases r with e | b
  · refine ⟨st', .error e, ?_, harr, by simpa using hok, by simp⟩
    change (applySyncedOutput _ _ _ _ _ >>= _) _ = _
    rw [Uow.bind_apply, hrun]
  · exact ⟨st', .ok _, Uow.bind_of_ok hrun rfl, harr, by simpa using hok, by simp⟩

/-- Two outputs of different transactions or indices. -/
def Distinct (o o' : SyncOutput) : Prop := o.transactionID = o'.transactionID → o.vout ≠ o'.vout

variable (now userID) in
theorem foldlM_processOutput (baskets : List SyncBasket) :
    ∀ (outs : List SyncOutput) (acc : SyncAcc) (st : SyncStore),
    (∀ a b n, acc.oldToNew.lookup a = some n → acc.oldToNew.lookup b = some n → a = b) →
    (∀ o ∈ outs, ∃ n, acc.oldToNew.lookup o.transactionID = some n
      ∧ ¬ Taken st.db.metadata n o.vout) →
    outs.Pairwise Distinct →
    ∃ st' r, outs.foldlM (processOutput userID baskets) acc (calm st now) = (r, calm st' now)
      ∧ ((∃ a, r = .ok a) ↔ ∀ e ∈ (st.db.utxo.mint now (outs.filterMap (mintOf userID baskets))).1,
        e = none)
      ∧ ((∃ a, r = .ok a) → st'.users = st.users
        ∧ st'.db.metadata.transactions = st.db.metadata.transactions
        ∧ st'.db.utxo = (st.db.utxo.mint now (outs.filterMap (mintOf userID baskets))).2)
  | [], acc, st, _, _, _ => ⟨st, .ok acc, rfl, by simp [Inventory.mint], fun _ => ⟨rfl, rfl, rfl⟩⟩
  | o :: outs, acc, st, hinj, hmap, hdist => by
    obtain ⟨hd, hdist⟩ := List.pairwise_cons.mp hdist
    obtain ⟨id, hid, hfree⟩ := hmap o List.mem_cons_self
    obtain ⟨st1, r1, hrun1, harr, hok1, hacc⟩ := processOutput_calm now userID baskets hid hfree
    have hms : (o :: outs).filterMap (mintOf userID baskets)
        = (mintOf userID baskets o).toList ++ outs.filterMap (mintOf userID baskets) := by
      rw [List.filterMap_cons]
      cases mintOf userID baskets o <;> rfl
    rw [List.foldlM_cons, hms, Inventory.mint_append]
    rcases r1 with e | acc1
    · refine ⟨st1, .error e, by rw [Uow.bind_apply, hrun1], ⟨by simp, fun hall => ?_⟩, by simp⟩
      have := hok1.mpr fun e he => hall e (List.mem_append_left _ he)
      simp at this
    · have hsame := hacc acc1 rfl
      have hfree1 : ∀ o' ∈ outs, ∃ n, acc1.oldToNew.lookup o'.transactionID = some n
          ∧ ¬ Taken st1.db.metadata n o'.vout := by
        intro o' ho'
        obtain ⟨n, hn, hfree'⟩ := hmap o' (List.mem_cons_of_mem o ho')
        refine ⟨n, hsame ▸ hn, fun htaken => ?_⟩
        rcases harr.taken n o'.vout htaken with ht | ⟨rfl, hv⟩
        · exact hfree' ht
        · exact hd o' ho' (hinj _ _ _ hid hn) hv.symm
      obtain ⟨st', r, hrun, hok, hafter⟩ :=
        foldlM_processOutput baskets outs acc1 st1 (hsame ▸ hinj) hfree1 hdist
      rw [harr.utxo] at hok hafter
      refine ⟨st', r, Uow.bind_of_ok hrun1 hrun, ?_, ?_⟩
      · rw [hok]
        constructor
        · intro hall e he
          rcases List.mem_append.mp he with he | he
          · exact hok1.mp ⟨acc1, rfl⟩ e he
          · exact hall e he
        · exact fun hall e he => hall e (List.mem_append_right _ he)
      · intro hr
        obtain ⟨hu, ht, hutxo⟩ := hafter hr
        exact ⟨hu.trans harr.users, ht.trans harr.transactions, hutxo⟩

/-- Where no transaction is new, no output is touched. -/
theorem foldlM_processOutput_skipped {baskets : List SyncBasket} (hacc : acc.oldToNew = []) :
    ∀ outs : List SyncOutput,
    outs.foldlM (processOutput userID baskets) acc (calm st now) = (.ok acc, calm st now)
  | [] => rfl
  | o :: outs => by
    have hfirst : processOutput userID baskets acc o (calm st now) = (.ok acc, calm st now) := by
      unfold processOutput
      rw [hacc]
      rfl
    rw [List.foldlM_cons]
    exact Uow.bind_of_ok hfirst (foldlM_processOutput_skipped hacc outs)

end Storage

end ArcadeToolbox
