import ArcadeToolbox.Storage.Sync
import ArcadeToolbox.System.Lasting

/-!
# The wallet while users are moved into it

`ProcessSyncChunk` may come in at any moment between the steps of the other operations. Of what is
here it changes nothing: it adds rows and mints coins. So what every run of the wallet keeps of the
coins and of the known transactions is kept in its company too.

The rows it adds are taken over as the other storage reports them, with their statuses and txids,
and a live coin is minted as a mined one. What ties the transactions or the tiers of the coins to
the known transactions is therefore said of a wallet into which nobody is moved.
-/

namespace ArcadeToolbox

open Txn Uow Storage

/-! ## What a chunk does -/

/-- Some output of the chunk is at the outpoint. -/
def SyncChunk.names (chunk : SyncChunk) (op : Outpoint) : Bool :=
  chunk.outputs.any fun o => o.txid = some op.txid && o.vout = op.vout

/-- Coins with an outpoint in `A` are minted; the known transactions stay as they are. -/
structure Mints (A : Outpoint → Prop) (s s' : Shared) : Prop where
  coins : TimedPath (fun now i i' => ∃ m : Mint, A m.outpoint ∧ i' = (i.mint now [m]).2)
    s.now s.db.utxo s'.now s'.db.utxo
  known : s'.db.metadata.knownTxs = s.db.metadata.knownTxs
  audit : s'.db.metadata.audit = s.db.metadata.audit

/-- Only coins that `A` allows are brought in. -/
def Brings (A : Outpoint → Prop) (s s' : Session SyncStore) : Prop :=
  Mints A ⟨s.db.db, s.now⟩ ⟨s'.db.db, s'.now⟩

section Chunk

variable {A : Outpoint → Prop} {α : Type}

instance : IsPreorder (Session SyncStore) (Brings A) where
  refl _ := ⟨.refl _ _, rfl, rfl⟩
  trans _ _ _ h h' := ⟨h.coins.trans h'.coins, h'.known.trans h.known, h'.audit.trans h.audit⟩

theorem Brings.of_waits {s s' : Session SyncStore} (h : Waits s s') : Brings A s s' := by
  unfold Brings
  rw [h.db]
  exact ⟨.later h.now, rfl, rfl⟩

theorem onDb_stmt (e : Err) (f : Time → Db → Except Err α × Db) : onDb (Uow.stmt e f)
    = Uow.stmt e fun now st => ((f now st.db).1, { st with db := (f now st.db).2 }) := by
  funext s
  obtain ⟨st, now, beats, busy⟩ := s
  rcases beats with _ | ⟨⟨dt, fails⟩, beats⟩
  · rfl
  · cases fails <;> rfl

theorem brings_stmt {e : Err} {f : Time → SyncStore → Except Err α × SyncStore}
    (hf : ∀ now st, Mints A ⟨st.db, now⟩ ⟨(f now st).2.db, now⟩) :
    Moves (Brings A) (Uow.stmt e f) :=
  moves_stmt (fun _ _ => Brings.of_waits) e fun s => hf s.now s.db

theorem brings_metaStmt {f : Time → Metadata → Except Err α × Metadata}
    (hf : ∀ now m, (f now m).2.knownTxs = m.knownTxs ∧ (f now m).2.audit = m.audit) :
    Moves (Brings A) (onDb (metaStmt f)) := by
  rw [metaStmt, onDb_stmt]
  exact brings_stmt fun now st => ⟨.refl _ _, (hf _ _).1, (hf _ _).2⟩

theorem brings_findOrInsertUser (identityKey : String) :
    Moves (Brings A) (findOrInsertUser identityKey) := by
  refine brings_stmt fun now st => ?_
  rcases st.findByIdentityKey identityKey with _ | user <;> exact ⟨.refl _ _, rfl, rfl⟩

theorem brings_upsertBasket (userID : UserID) (cfg : BasketConfiguration) (overwrite : Bool) :
    Moves (Brings A) (upsertBasket userID cfg overwrite) :=
  brings_stmt fun _ _ => ⟨.refl _ _, rfl, rfl⟩

theorem brings_insertTx (tx : NewTx) : Moves (Brings A) (onDb (TransactionsRepo.insert tx)) := by
  refine brings_metaStmt fun now m => ?_
  unfold Metadata.insertTx
  split <;> exact ⟨rfl, rfl⟩

theorem brings_setTxID (id : TransactionID) (txid : TxID) :
    Moves (Brings A) (onDb (TransactionsRepo.setTxID id txid)) := by
  refine brings_metaStmt fun now m => ?_
  unfold Metadata.writeTxOr
  split <;> exact ⟨rfl, rfl⟩

theorem brings_insertSynced (o : NewOutput) (spentBy : Option TransactionID) :
    Moves (Brings A) (onDb (insertSynced o spentBy)) := by
  refine brings_metaStmt fun now m => ?_
  unfold insertSyncedOutput Metadata.insertOutput
  dsimp only
  split <;> exact ⟨rfl, rfl⟩

theorem brings_mint {m : Mint} (hm : A m.outpoint) :
    Moves (Brings A) (onDb (UtxoStore.mint [m])) := by
  rw [UtxoStore.mint, utxoStmt, onDb_stmt]
  exact brings_stmt fun _ _ => ⟨.single ⟨m, hm, rfl⟩, rfl, rfl⟩

theorem brings_failOn (o : Option UtxoErr) : Moves (Brings A) (onDb (failOn o)) := by
  rcases o with _ | e
  · exact moves_pure _
  · exact moves_throw _

theorem brings_processTransaction (userID : UserID) (acc : SyncAcc) (t : SyncTx) :
    Moves (Brings A) (processTransaction userID acc t) := by
  unfold processTransaction
  refine moves_bind ?_ fun found => ?_
  · unfold TransactionsRepo.findByReference metaQuery Uow.query
    rw [onDb_stmt]
    exact brings_stmt fun _ _ => ⟨.refl _ _, rfl, rfl⟩
  rcases found with _ | r
  · refine moves_bind (brings_insertTx _) fun id => ?_
    rcases t.txid with _ | txid
    · exact moves_pure _
    · exact moves_bind (brings_setTxID id txid) fun _ => moves_pure _
  · exact moves_pure _

theorem brings_processOutput (userID : UserID) (baskets : List SyncBasket) (acc : SyncAcc)
    {o : SyncOutput} (ho : ∀ txid, o.txid = some txid → A ⟨txid, o.vout⟩) :
    Moves (Brings A) (processOutput userID baskets acc o) := by
  unfold processOutput
  rcases acc.oldToNew.lookup o.transactionID with _ | id
  · exact moves_pure _
  · refine moves_bind ?_ fun _ => moves_pure _
    refine moves_bind (brings_upsertBasket _ _ _) fun _ =>
      moves_bind (brings_insertSynced _ _) fun _ => ?_
    rcases htxid : o.txid with _ | txid
    · exact moves_pure _
    · dsimp only
      split
      · exact moves_pure _
      · exact moves_bind (brings_mint (ho txid htxid)) fun _ =>
          moves_bind (brings_failOn _) fun _ => moves_pure _

/-- In both modes a unit that fails leaves the known transactions, and of the coins at most what it
had minted. -/
theorem brings_atomically (mode : Mode) {x : SyncWork α} (hx : Moves (Brings A) x) :
    Moves (Brings A) (Uow.atomically
      (fun before after => { before with db := rollback mode before.db after.db }) x) := by
  intro s
  have h := hx s
  unfold atomically
  rcases hxs : x s with ⟨e | a, s'⟩ <;> rw [hxs] at h
  · cases mode with
    | a => exact ⟨.later h.coins.le, rfl, rfl⟩
    | b => exact ⟨h.coins, rfl, rfl⟩
  · exact h

theorem brings_processSyncChunk (mode : Mode) (identityKey : String) (chunk : SyncChunk) :
    Moves (Brings fun op => chunk.names op = true) (processSyncChunk mode identityKey chunk) := by
  refine moves_bind (brings_findOrInsertUser _) fun userID =>
    moves_bind (brings_atomically mode ?_) fun _ => moves_pure _
  refine moves_bind (moves_forM _ fun b _ => brings_upsertBasket _ _ _) fun _ =>
    moves_bind (moves_foldlM _ _ fun acc t _ => brings_processTransaction _ _ _) fun acc =>
      moves_foldlM _ _ fun acc o ho => brings_processOutput _ _ _ fun txid htxid => ?_
  exact List.any_eq_true.mpr ⟨o, ho, by simp [htxid]⟩

end Chunk

/-! ## The storage -/

/-- The state of the wallet with the tables that only the moving of users knows. -/
structure Host where
  users : Table UserRow
  nextUserID : UserID
  baskets : Table BasketRow
  shared : Shared

/-- The operations of the wallet, and of the sync. -/
inductive HostOperation where
  | call (op : Operation)
  | processSyncChunk (identityKey : String) (chunk : SyncChunk)

/-- The tasks of the wallet, and of the sync. -/
inductive HostTask where
  | task (t : Task)
  | sync (identityKey : String) (chunk : SyncChunk)

def HostOperation.start : HostOperation → List HostTask
  | .call op => op.start.map .task
  | .processSyncChunk identityKey chunk => [.sync identityKey chunk]

def HostTask.exec (p : Provider) (env : Env) : HostTask → Host → Host × Next HostTask
  | .task t, h =>
    ({ h with shared := (t.exec p env h.shared).1 }, (t.exec p env h.shared).2.map .task)
  | .sync identityKey chunk, h =>
    let (r, s) := processSyncChunk p.mode identityKey chunk
      ⟨⟨h.users, h.nextUserID, h.baskets, h.shared.db⟩, h.shared.now, env.beats, env.busy⟩
    (⟨s.db.users, s.db.nextUserID, s.db.baskets, ⟨s.db.db, s.now⟩⟩,
     if r.toBool then .go [] else .fail)

/-- A wallet that chunks are stored into. -/
def host (p : Provider) : Code Host HostTask Env HostOperation :=
  { start := HostOperation.start
    exec := HostTask.exec p
    handles := fun
      | .task t => t.handles
      | .sync _ _ => false }

/-- The coin is put there anew, by a task of the wallet or by a chunk that names it. -/
def HostTask.remints (op : Outpoint) (i : Inventory) : HostTask → Bool
  | .task t => t.remints op i
  | .sync _ chunk => chunk.names op && (i.get op).isNone

def HostTask.unspends (w : TxID) (m : Metadata) : HostTask → Bool
  | .task t => t.unspends w m
  | .sync _ _ => false

section Host

variable {p : Provider} {env : Env} {identityKey : String} {chunk : SyncChunk}
  {h : Host} {T w : TxID}
  {op : Outpoint}

theorem mints_sync : Mints (fun op => chunk.names op = true) h.shared
    ((HostTask.sync identityKey chunk).exec p env h).1.shared :=
  brings_processSyncChunk p.mode identityKey chunk
    ⟨⟨h.users, h.nextUserID, h.baskets, h.shared.db⟩, h.shared.now, env.beats, env.busy⟩

theorem host_coins_sound (p : Provider) (start : ℕ) (ls : List (Label HostOperation Env)) :
    ((host p).runs ⟨⟨∅, 1, ∅, ⟨Db.empty, start + 1⟩⟩, []⟩ ls).shared.shared.db.utxo.Sound := by
  have hstart : (0 : ℤ) < start + 1 ∧ Db.empty.utxo.Sound := ⟨Int.natCast_succ_pos start, .empty⟩
  refine (Code.runs_shared (J := fun h : Host => 0 < h.shared.now ∧ h.shared.db.utxo.Sound)
    (fun env t h hh => ?_) ls _ hstart).2
  cases t with
  | task t => exact sound_exec hh
  | sync identityKey chunk =>
    refine mints_sync.coins.invariant (I := fun now i => 0 < now ∧ i.Sound)
      (fun hle hi => ⟨Int.lt_of_lt_of_le hi.1 hle, hi.2⟩) ?_ hh
    rintro now i _ ⟨m, -, rfl⟩ ⟨hnow, hi⟩
    exact ⟨hnow, hi.apply (Int.ne_of_gt hnow) (.mint [m])⟩

theorem host_known_tx_onward (p : Provider) (s : Pool Host HostTask)
    (ls : List (Label HostOperation Env))
    (T : TxID) : (s.shared.shared.db.metadata.life T).Onward
      (((host p).runs s ls).shared.shared.db.metadata.life T) := by
  refine Code.runs_shared (J := fun h : Host => (s.shared.shared.db.metadata.life T).Onward
    (h.shared.db.metadata.life T)) (fun env t h hh => ?_) ls s (Life.onward_refl _)
  cases t with
  | task t => exact hh.trans (exec_onward T)
  | sync identityKey chunk =>
    have hm : Mints (fun op => chunk.names op = true) h.shared
        ((HostTask.sync identityKey chunk).exec p env h).1.shared := mints_sync
    have hlife : ((HostTask.sync identityKey chunk).exec p env h).1.shared.db.metadata.life T
        = h.shared.db.metadata.life T := by
      unfold Metadata.life
      rw [hm.known, hm.audit]
    exact hlife ▸ hh

/-- A mint leaves a coin that is there. -/
theorem SpentBy.mint {m : Mint} {now : Time} {i : Inventory} (h : SpentBy w op i)
    (hm : m.outpoint = op → (i.get op).isSome = true) : SpentBy w op (i.mint now [m]).2 := by
  intro r hr
  change (Inventory.mintOne now m i).2.get op = some r at hr
  rcases Inventory.mintOne_cases now m i with ⟨he, -⟩ | ⟨-, hnone, he⟩ <;> rw [he] at hr
  · exact h r hr
  · obtain ⟨hmem, hop⟩ := Inventory.get_eq_some.mp hr
    rcases Table.mem_insert.mp hmem with hmem | ⟨rfl, -⟩
    · exact h r (Inventory.get_eq_some.mpr ⟨hmem, hop⟩)
    · have hthere := hm hop
      rw [← hop] at hthere
      exact absurd hnone (Option.isSome_iff_ne_none.mp hthere)

theorem spentBy_sync (hre : (HostTask.sync identityKey chunk).remints op h.shared.db.utxo = false)
    (hs : SpentBy w op h.shared.db.utxo) :
    SpentBy w op ((HostTask.sync identityKey chunk).exec p env h).1.shared.db.utxo := by
  refine (mints_sync.coins.keeps (I := fun i : Inventory =>
    (chunk.names op = true → (i.get op).isSome = true) ∧ SpentBy w op i) ?_ ⟨fun hn => ?_, hs⟩).2
  · rintro now i _ ⟨m, hm, rfl⟩ ⟨hthere, hi⟩
    exact ⟨fun hn => get_mint_isSome _ (hthere hn), hi.mint fun he => hthere (he ▸ hm)⟩
  · simpa [HostTask.remints, hn] using hre

theorem host_spend_kept (p : Provider) (w : TxID) (op : Outpoint) (s : Pool Host HostTask)
    (ls : List (Label HostOperation Env))
    (hls : (host p).Along (fun s l => ∀ t ∈ Code.top s l,
      t.remints op s.shared.shared.db.utxo = false
      ∧ t.unspends w s.shared.shared.db.metadata = false) s ls)
    (h : SpentBy w op s.shared.shared.db.utxo) :
    SpentBy w op ((host p).runs s ls).shared.shared.db.utxo := by
  refine Code.runs_invariant (I := fun s => SpentBy w op s.shared.shared.db.utxo)
    (Code.shared_step (J := fun h : Host => SpentBy w op h.shared.db.utxo)
      fun s l env t hok hr h => ?_) ls s hls h
  obtain ⟨hre, hu⟩ := hok t hr.top
  cases t with
  | task t => exact spentBy_exec hre hu h
  | sync identityKey chunk => exact spentBy_sync hre h

end Host

end ArcadeToolbox
