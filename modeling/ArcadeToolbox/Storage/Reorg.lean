import ArcadeToolbox.Storage.Records
import ArcadeToolbox.Storage.Sweeps

/-!
# The reorganisation handler

The handler reads one page of the completed transactions at or above the fork, lowest block first,
and asks the header source about each. Whatever the source does not confirm is demoted, a read that
failed included. So the page is demoted row by row, and what a run leaves is what it found with the
rows of those txids cleared.
-/

namespace ArcadeToolbox

open Txn

/-- The header source: the merkle roots of the chain, and the transactions whose read fails. -/
structure Headers where
  root : ℕ → Option String
  fails : TxID → Bool

/-- What the source answers when it is asked about a transaction. -/
def Headers.env (hd : Headers) (txid : TxID) : Env :=
  { Env.quiet with headerRoot := fun height => if hd.fails txid then none else hd.root height }

namespace KnownTx

/-- The stored root is as long as a hash. -/
def hashed (k : KnownTx) : Bool := k.proof.any fun pr => pr.merkleRoot.length = hashSize

/-- The stored root is that of the chain. -/
def confirmed (hd : Headers) (k : KnownTx) : Bool := k.proof.any fun pr =>
    hd.root pr.height = some pr.merkleRoot

instance : IsTrans KnownTx lowestFirst where
  trans a b c hab hbc := by
    unfold lowestFirst at *
    rcases hab with hab | ⟨hab, htab⟩ <;> rcases hbc with hbc | ⟨hbc, htbc⟩
    · exact Or.inl (hab.trans hbc)
    · exact Or.inl (hbc ▸ hab)
    · exact Or.inl (hab ▸ hbc)
    · exact Or.inr ⟨hab.trans hbc, String.le_trans htab htbc⟩

instance : Std.Total lowestFirst where
  total a b := by
    unfold lowestFirst
    rcases lt_trichotomy (a.proof.elim 0 (·.height)) (b.proof.elim 0 (·.height)) with h | h | h
    · exact Or.inl (Or.inl h)
    · rcases String.le_total a.txid b.txid with ht | ht
      · exact Or.inl (Or.inr ⟨h, ht⟩)
      · exact Or.inr (Or.inr ⟨h.symm, ht⟩)
    · exact Or.inr (Or.inl h)

theorem txid_of_lowestFirst {a b : KnownTx} (h : lowestFirst a b) (h' : lowestFirst b a) :
    b.txid = a.txid := by
  rcases h with h | ⟨he, h⟩ <;> rcases h' with h' | ⟨he', h'⟩
  · omega
  · omega
  · omega
  · exact String.le_antisymm h' h

end KnownTx

namespace Storage

variable (p : Provider) (hd : Headers)

/-- One row of the page; a failed demotion is logged. -/
def demoteReorged (k : KnownTx) : Work (Option (Except Err Unit)) :=
  if reorged (hd.env k.txid) k then do return some (← Uow.attempt (demoteProof p k.txid))
      else return none

def demoteReorgedProofs (forkHeight : ℕ) : Work (List (Option (Except Err Unit))) := do
  if p.hasHeaders then
    let proven ← KnownTxRepo.findProvenAtOrAbove forkHeight defaultMonitorBatchLimit
    proven.mapM (demoteReorged p hd)
  else return []

end Storage

namespace Metadata

/-- The page the handler reads. -/
def provenPage (m : Metadata) (forkHeight : ℕ) : List KnownTx :=
  ((m.knownTxs.select (KnownTx.provenFrom forkHeight)).insertionSort KnownTx.lowestFirst).take
    defaultMonitorBatchLimit

/-- How many completed transactions at or above the fork come before one of them. -/
def provenBefore (m : Metadata) (forkHeight : ℕ) (k : KnownTx) : ℕ :=
  ((m.knownTxs.select (KnownTx.provenFrom forkHeight)).filter fun k' =>
      ¬ KnownTx.lowestFirst k k').length

theorem mem_provenPage {m : Metadata} {F : ℕ} {k : KnownTx} :
    k ∈ m.provenPage F ↔
      k ∈ m.knownTxs ∧ k.provenFrom F = true ∧ m.provenBefore F k < defaultMonitorBatchLimit := by
  unfold provenPage provenBefore
  by_cases hk : k ∈ m.knownTxs.select (KnownTx.provenFrom F)
  · have hanti : ∀ b ∈ m.knownTxs.select (KnownTx.provenFrom F), KnownTx.lowestFirst k b →
        KnownTx.lowestFirst b k → b = k := fun b hb h h' =>
      Table.eq_of_key (Table.mem_select.mp hb).1 (Table.mem_select.mp hk).1
          (KnownTx.txid_of_lowestFirst h h')
    rw [mem_take_insertionSort KnownTx.lowestFirst _ hk hanti, ← and_assoc, ← Table.mem_select]
    exact (and_iff_right hk).symm
  · rw [← and_assoc, ← Table.mem_select]
    refine iff_of_false (fun h => hk ?_) fun h => hk h.1
    exact (List.mem_insertionSort _).mp (List.mem_of_mem_take h)

/-- The rows of the txids in `D` lost their proofs, and nothing else happened to the others. -/
structure Cleared (D : TxID → Prop) (m m' : Metadata) : Prop where
  kept : ∀ k ∈ m.knownTxs, ¬ D k.txid → k ∈ m'.knownTxs
  rest : ∀ k ∈ m'.knownTxs, k ∈ m.knownTxs ∧ ¬ D k.txid ∨ D k.txid ∧ k.proof = none
  transactions : ∀ r ∈ m.transactions, (∀ T, r.txid = some T → ¬ D T) → r ∈ m'.transactions

namespace Cleared

variable {D D' : TxID → Prop} {m m' m'' : Metadata}

theorem refl (m : Metadata) : Cleared (fun _ => False) m m :=
  ⟨fun _ hk _ => hk, fun _ hk => Or.inl ⟨hk, id⟩, fun _ hr _ => hr⟩

theorem trans (h : Cleared D m m') (h' : Cleared D' m' m'') :
    Cleared (fun T => D T ∨ D' T) m m'' where
  kept k hk hD := h'.kept k (h.kept k hk fun hd => hD (Or.inl hd)) fun hd => hD (Or.inr hd)
  rest k hk := by
    rcases h'.rest k hk with ⟨hk', hD'⟩ | ⟨hD', hp⟩
    · rcases h.rest k hk' with ⟨hk, hD⟩ | ⟨hD, hp⟩
      · exact Or.inl ⟨hk, fun hd => hd.elim hD hD'⟩
      · exact Or.inr ⟨Or.inl hD, hp⟩
    · exact Or.inr ⟨Or.inr hD', hp⟩
  transactions r hr hD := h'.transactions r (h.transactions r hr fun T hT hd => hD T hT (Or.inl hd))
    fun T hT hd => hD T hT (Or.inr hd)

theorem congr (h : Cleared D m m') (hD : ∀ T, D T ↔ D' T) : Cleared D' m m' := by
  rwa [show D' = D from funext fun T => propext (hD T).symm]

/-- A row that kept its proof was not among those cleared. -/
theorem mem_iff (h : Cleared D m m') {k : KnownTx} (hp : k.proof ≠ none) :
    k ∈ m'.knownTxs ↔ k ∈ m.knownTxs ∧ ¬ D k.txid :=
  ⟨fun hk => (h.rest k hk).resolve_right fun hn => hp hn.2, fun hk => h.kept k hk.1 hk.2⟩

end Cleared

theorem cleared_writeKnown (now : Time) (st : ProvenTxReqStatus) (T : TxID) (m : Metadata) :
    Cleared (· = T) m (m.writeKnownOne (.clearProof st) T now).2 where
  kept k hk hT := by
    rcases writeKnownOne_cases (.clearProof st) T now m with ⟨-, -, -, -, h⟩ | ⟨-, -, -, -, h⟩ | ⟨-,
        h⟩ <;> rw [h]
    · change k ∈ (m.writeKnown (.clearProof st) now fun t => t = T).knownTxs
      exact mem_writeKnown.mpr ⟨k, hk, by simp [hT]⟩
    · exact hk
    · exact hk
  rest k hk := by
    rcases writeKnownOne_cases (.clearProof st) T now m with ⟨-, -, -, -, h⟩ | ⟨_, -, -,
        hg, -⟩ | ⟨hno, h⟩
    · rw [h] at hk
      change k ∈ (m.writeKnown (.clearProof st) now fun t => t = T).knownTxs at hk
      obtain ⟨k0, hk0, rfl⟩ := mem_writeKnown.mp hk
      by_cases hT : k0.txid = T
      · exact Or.inr (by simp [hT, KnownWrite.guard, KnownWrite.edit])
      · exact Or.inl (by simpa [hT] using hk0)
    · cases hg
    · rw [h] at hk
      exact Or.inl ⟨hk, hno k hk⟩
  transactions r hr _ := by rwa [writeKnownOne_transactions]

theorem Cleared.writeTxOr {D : TxID → Prop} {m m' : Metadata} {T : TxID}
    (h : Cleared D m m') (hT : D T)
    (w : TxWrite) (e : Err) : Cleared D m (m'.writeTxOr w (fun r => r.txid = some T) e).2 := by
  rw [writeTxOr_snd]
  refine ⟨h.kept, h.rest, fun r hr hD => mem_writeTx.mpr ⟨r, h.transactions r hr hD, ?_⟩⟩
  have hne : r.txid ≠ some T := fun hrT => hD T hrT hT
  simp [hne]

end Metadata

namespace Storage

open Metadata

variable {p : Provider} {hd : Headers} {s s' : Session Db}

theorem cleared_demoteProof {T : TxID} (h : demoteProof p T s = (.ok (), s')) :
    Cleared (· = T) s.db.metadata s'.db.metadata := by
  obtain ⟨_, s1, hclear, h⟩ := Uow.bind_ok (doUnit_ok h)
  obtain ⟨_, s2, htx, h⟩ := Uow.bind_ok h
  obtain ⟨_, hc⟩ := tolerate_wrote (by decide) hclear
  obtain ⟨_, ht⟩ := tolerate_wrote (by decide) htx
  rw [promoteBatch_ok h]
  change Cleared _ _ s2.db.metadata
  rw [ht.metadata, hc.metadata]
  exact (cleared_writeKnown _ _ T _).writeTxOr rfl _ _

theorem cleared_demoteReorged {k : KnownTx} {r : Option (Except Err Unit)}
    (h : demoteReorged p hd k s = (.ok r, s')) (hr : ∀ e, r ≠ some (.error e)) :
    Cleared (fun T => k.txid = T ∧ reorged (hd.env T) k = true) s.db.metadata s'.db.metadata := by
  unfold demoteReorged at h
  by_cases hre : reorged (hd.env k.txid) k = true
  · rw [if_pos hre] at h
    obtain ⟨r1, s1, hd1, h⟩ := Uow.bind_ok h
    cases h
    rcases r1 with e | _
    · exact absurd rfl (hr e)
    · refine (cleared_demoteProof (Uow.attempt_ok hd1)).congr fun T => ⟨?_, fun hT => hT.1.symm⟩
      rintro rfl
      exact ⟨rfl, hre⟩
  · rw [if_neg hre] at h
    cases h
    refine (Cleared.refl _).congr fun T => ⟨False.elim, ?_⟩
    rintro ⟨rfl, hT⟩
    exact hre hT

theorem cleared_mapM_demoteReorged : ∀ {page : List KnownTx} {log : List (Option (Except Err Unit))}
    {s s' : Session Db}, page.mapM (demoteReorged p hd) s = (.ok log, s') →
    (∀ r ∈ log, ∀ e, r ≠ some (.error e)) →
    Cleared (fun T => ∃ k ∈ page, k.txid = T ∧ reorged (hd.env T) k = true) s.db.metadata
      s'.db.metadata
  | [], log, s, s', h, _ => by
    cases h
    exact (Cleared.refl _).congr (by simp)
  | k :: page, log, s, s', h, hlog => by
    rw [List.mapM_cons] at h
    obtain ⟨r, s1, hk, h⟩ := Uow.bind_ok h
    obtain ⟨rest, s2, hrest, h⟩ := Uow.bind_ok h
    cases h
    have hfirst := cleared_demoteReorged hk (hlog r List.mem_cons_self)
    have ih := cleared_mapM_demoteReorged hrest fun r' hr' => hlog r' (List.mem_cons_of_mem r hr')
    exact (hfirst.trans ih).congr (by simp)

/-- The transactions a run demotes. -/
def Demotes (p : Provider) (hd : Headers) (forkHeight : ℕ) (m : Metadata) (T : TxID) : Prop :=
  p.hasHeaders = true ∧ ∃ k ∈ m.provenPage forkHeight, k.txid = T ∧ reorged (hd.env T) k = true

theorem cleared_demoteReorgedProofs {F : ℕ} {log : List (Option (Except Err Unit))}
    (h : demoteReorgedProofs p hd F s = (.ok log, s'))
    (hlog : ∀ r ∈ log, ∀ e, r ≠ some (.error e)) :
    Cleared (Demotes p hd F s.db.metadata) s.db.metadata s'.db.metadata := by
  unfold demoteReorgedProofs at h
  by_cases hh : p.hasHeaders = true
  · rw [if_pos hh] at h
    obtain ⟨page, s1, hpage, h⟩ := Uow.bind_ok h
    obtain ⟨hw, rfl⟩ := metaQuery_ok hpage
    have hrun := cleared_mapM_demoteReorged h hlog
    rw [hw.db] at hrun
    exact hrun.congr fun T => (and_iff_right hh).symm
  · rw [if_neg hh] at h
    cases h
    exact (Cleared.refl _).congr fun T => ⟨False.elim, fun hT => hh hT.1⟩

theorem reorged_env (T : TxID) (k : KnownTx) :
    reorged (hd.env T) k = (k.hashed && (hd.fails T || !k.confirmed hd)) := by
  unfold reorged KnownTx.hashed KnownTx.confirmed Headers.env
  rcases k.proof with _ | pr
  · rfl
  · cases hd.fails T <;> simp

theorem demotes_iff {F : ℕ} {m : Metadata} {k : KnownTx} (hk : k ∈ m.knownTxs) :
    Demotes p hd F m k.txid ↔ p.hasHeaders = true ∧ k.provenFrom F = true
      ∧ m.provenBefore F k < defaultMonitorBatchLimit ∧ k.hashed = true
      ∧ (hd.fails k.txid = true ∨ k.confirmed hd = false) := by
  unfold Demotes
  constructor
  · rintro ⟨hh, k', hk', ht, hre⟩
    obtain ⟨hmem, hpage⟩ := mem_provenPage.mp hk'
    obtain rfl := Table.eq_of_key hmem hk ht
    rw [reorged_env] at hre
    exact ⟨hh, hpage.1, hpage.2, by simpa using hre⟩
  · rintro ⟨hh, hF, hlt, hre⟩
    refine ⟨hh, k, mem_provenPage.mpr ⟨hk, hF, hlt⟩, rfl, ?_⟩
    rw [reorged_env]
    simpa using hre

theorem demoteReorgedProofs_exact_iff (p : Provider) (hd : Headers) (forkHeight : ℕ)
    (s s' : Session Db) (log : List (Option (Except Err Unit)))
    (h : demoteReorgedProofs p hd forkHeight s = (.ok log, s'))
    (hlog : ∀ r ∈ log, ∀ e, r ≠ some (.error e)) :
    ((p.hasHeaders = true → ∀ k ∈ s'.db.metadata.knownTxs, k.provenFrom forkHeight = true →
        k.confirmed hd = true)
      ∧ ∀ k ∈ s.db.metadata.knownTxs, k.status = .completed → k.confirmed hd = true →
        k ∈ s'.db.metadata.knownTxs
        ∧ ∀ r ∈ s.db.metadata.transactions, r.txid = some k.txid → r ∈ s'.db.metadata.transactions)
    ↔ (p.hasHeaders = true → ∀ k ∈ s.db.metadata.knownTxs, k.provenFrom forkHeight = true →
        if k.confirmed hd then s.db.metadata.provenBefore forkHeight k < defaultMonitorBatchLimit →
          k.hashed = true → hd.fails k.txid = false
        else s.db.metadata.provenBefore forkHeight k < defaultMonitorBatchLimit
          ∧ k.hashed = true) := by
  have hrun := cleared_demoteReorgedProofs h hlog
  have hproof : ∀ k : KnownTx, k.provenFrom forkHeight = true → k.proof ≠ none := by
    intro k hk hn
    simp [KnownTx.provenFrom, hn] at hk
  have hstatus : ∀ k : KnownTx, k.provenFrom forkHeight = true → k.status = .completed := by
    intro k hk
    simp only [KnownTx.provenFrom, Bool.and_eq_true, decide_eq_true_eq] at hk
    exact hk.1
  constructor
  · rintro ⟨hleft, hkept⟩ hh k hk hF
    split_ifs with hc
    · -- a read that failed would have taken the row away
      intro hlt hsize
      by_contra hfail
      have hD : Demotes p hd forkHeight s.db.metadata k.txid :=
        (demotes_iff hk).mpr ⟨hh, hF, hlt, hsize, Or.inl (by simpa using hfail)⟩
      have hk' := (hkept k hk (hstatus k hF) hc).1
      exact ((hrun.mem_iff (hproof k hF)).mp hk').2 hD
    · -- a row that is not demoted is still there
      by_contra hno
      have hD : ¬ Demotes p hd forkHeight s.db.metadata k.txid := by
        rw [demotes_iff hk]
        exact fun hD => hno ⟨hD.2.2.1, hD.2.2.2.1⟩
      exact hc (hleft hh k (hrun.kept k hk hD) hF)
  · intro hcond
    constructor
    · intro hh k hk' hF
      obtain ⟨hk, hD⟩ := (hrun.mem_iff (hproof k hF)).mp hk'
      by_contra hc
      have hpage := hcond hh k hk hF
      rw [if_neg hc] at hpage
      exact hD ((demotes_iff hk).mpr ⟨hh, hF, hpage.1, hpage.2, Or.inr (by simpa using hc)⟩)
    · intro k hk hst hc
      have hD : ¬ Demotes p hd forkHeight s.db.metadata k.txid := by
        rw [demotes_iff hk]
        rintro ⟨hh, hF, hlt, hsize, hfail⟩
        have hread := hcond hh k hk hF
        rw [if_pos hc] at hread
        simp [hread hlt hsize, hc] at hfail
      refine ⟨hrun.kept k hk hD, fun r hr hT => hrun.transactions r hr ?_⟩
      rintro T hT' hDT
      rw [hT] at hT'
      cases hT'
      exact hD hDT

def provenRow (txid : TxID) (merkleRoot : String) : KnownTx :=
  { txid := txid, status := .completed, arcadeStatus := some .mined, wasBroadcast := true,
    rawTx := none,
    proof := some ⟨7, "block", "path", merkleRoot⟩, competingTxs := [], suspectSince := none,
    verifiedRejectedAt := none, rejectReason := none, createdAt := 0, updatedAt :=
      0, lastPolledAt := 0 }

def chainRoot : String := "0123456789abcdef0123456789abcdef"

def orphanRoot : String := "fedcba9876543210fedcba9876543210"

/-- One transaction of the block that won and one of a block that lost. -/
def forkedSession : Session Db :=
  ⟨⟨{ Metadata.empty with knownTxs := ⟨[provenRow "kept" chainRoot,
      provenRow "stale" orphanRoot], by decide⟩ },
    Inventory.empty, []⟩, 1, [], []⟩

def headersFailing (fails : TxID → Bool) : Headers := ⟨fun _ => some chainRoot, fails⟩

def followingProvider : Provider := { sendingProvider with hasHeaders := true }

def forkedRun (fails : TxID → Bool) : Except Err (List (Option (Except Err Unit))) × Session Db :=
  demoteReorgedProofs followingProvider (headersFailing fails) 7 forkedSession

theorem valid_proof_demoted :
    (forkedRun (· = "kept")).1 = .ok [some (.ok ()), some (.ok ())]
    ∧ ((forkedRun (· = "kept")).2.db.metadata.knownTxs.get? "kept").map
      (fun k => (k.status, k.proof))
      = some (.unconfirmed, none) := by
  decide

theorem demoteReorgedProofs_exact_forked :
    (forkedRun fun _ => false).1 = .ok [none, some (.ok ())]
    ∧ ((followingProvider.hasHeaders = true →
      ∀ k ∈ (forkedRun fun _ => false).2.db.metadata.knownTxs,
        k.provenFrom 7 = true → k.confirmed (headersFailing fun _ => false) = true)
      ∧ ∀ k ∈ forkedSession.db.metadata.knownTxs, k.status = .completed →
        k.confirmed (headersFailing fun _ => false) = true →
        k ∈ (forkedRun fun _ => false).2.db.metadata.knownTxs
        ∧ ∀ r ∈ forkedSession.db.metadata.transactions, r.txid = some k.txid →
          r ∈ (forkedRun fun _ => false).2.db.metadata.transactions) :=
  ⟨by decide, (demoteReorgedProofs_exact_iff followingProvider (headersFailing fun _ =>
      false) 7 forkedSession
    (forkedRun fun _ => false).2 [none, some (.ok ())] (Prod.ext (by decide) rfl) (by simp)).mpr
      (by decide)⟩

end Storage

end ArcadeToolbox
