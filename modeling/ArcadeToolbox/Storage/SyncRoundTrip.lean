import ArcadeToolbox.Storage.SyncLoops

/-!
# What arrives in the other storage

A fresh storage has no references, so every transaction of a chunk is inserted and every output
follows. A live change output is minted in the basket its name could be carried in, and a name
travels only if the user has a basket row of it. The chunk is refused where two live outputs of one
outpoint disagree.
-/

namespace ArcadeToolbox

open Txn

/-- A storage at rest: what its schema demands, and every output belongs to the user of its
transaction. -/
structure WalletStore extends SyncStore where
  references : ∀ r ∈ db.metadata.transactions, ∀ r' ∈ db.metadata.transactions,
      r.reference = r'.reference → r = r'
  indices : ∀ o ∈ db.metadata.outputs, ∀ o' ∈ db.metadata.outputs,
      o.transactionID = o'.transactionID →
    o.vout = o'.vout → o = o'
  owners : ∀ o ∈ db.metadata.outputs, ∀ r, db.metadata.transactions.get? o.transactionID = some r →
    r.userID = o.userID

namespace SyncStore

variable (st : SyncStore) (userID : UserID)

/-- The change outputs of a user that have a txid, no recorded spender and a coin that can be
claimed. -/
def liveChange : List (OutputRow × Outpoint) :=
  (st.db.metadata.outputs.select fun o => o.userID = userID).filterMap fun o =>
    (st.db.metadata.outputTxID o).bind fun t =>
      if o.change && o.spentBy = none && st.outpointSpendable ⟨t, o.vout⟩ then
          some (o, ⟨t, o.vout⟩) else none

/-- The basket an output arrives in. -/
def arrivalBasket (o : OutputRow) : String :=
  match o.basket with
  | some b =>
    if b ≠ "" && st.baskets.any fun r => r.userID = userID && r.name = b && !r.deleted then b
    else basketNameForChange
  | none => basketNameForChange

end SyncStore

theorem any_findBaskets (st : SyncStore) (userID : UserID) (name : String) :
    ((st.findBaskets userID).any fun b => b.name = name)
      = st.baskets.any fun r => r.userID = userID && r.name = name && !r.deleted := by
  rw [Bool.eq_iff_iff, List.any_eq_true, Table.any_eq_true]
  simp only [SyncStore.findBaskets, List.mem_insertionSort, Table.mem_select, Bool.and_eq_true,
      decide_eq_true_eq]
  constructor
  · rintro ⟨b, ⟨hb, hu, hd⟩, hn⟩
    exact ⟨b, hb, ⟨hu, hn⟩, hd⟩
  · rintro ⟨b, hb, ⟨hu, hn⟩, hd⟩
    exact ⟨b, ⟨hb, hu, hd⟩, hn⟩

theorem syncedBasket_syncOutput (st : SyncStore) (userID : UserID) (o : OutputRow)
    (txid : Option TxID) :
    Storage.syncedBasket (numberBaskets (st.findBaskets userID))
      (st.syncOutput (numberBaskets (st.findBaskets userID)) o txid)
        = st.arrivalBasket userID o := by
  unfold Storage.syncedBasket SyncStore.syncOutput SyncStore.arrivalBasket
  dsimp only
  rcases o.basket with _ | b
  · rfl
  · have hsome := nameToID_isSome (st.findBaskets userID) b
    rw [any_findBaskets] at hsome
    rw [Option.bind_some]
    rcases hid : nameToID (numberBaskets (st.findBaskets userID)) b with _ | id
        <;> rw [hid] at hsome
    · simp [← hsome]
    · rw [Option.bind_some, idToName_nameToID hid]
      by_cases hb : b = "" <;> simp [← hsome, hb]

namespace SyncStore

variable (st : SyncStore) (userID : UserID)

/-- The coin a live change output arrives as, for the first user of a storage. -/
def carried (o : OutputRow × Outpoint) : Mint :=
  { outpoint := o.2, userID := 1, basket := st.arrivalBasket userID o.1, satoshis := o.1.satoshis,
    inputSize := defaultP2PKHInputSize, tier := .mined }

theorem filterMap_mintOf_syncChunk : (st.syncChunk userID).outputs.filterMap
    (Storage.mintOf 1 (st.syncChunk userID).outputBaskets) = (st.liveChange userID).map
    (st.carried userID) := by
  unfold syncChunk liveChange
  rw [List.filterMap_filterMap, List.map_filterMap]
  refine List.filterMap_congr fun o _ => ?_
  unfold Metadata.outputTxID
  rcases st.db.metadata.transactions.get? o.transactionID with _ | r
  · rfl
  · rw [Option.map_some, Option.bind_some, Option.bind_some, Storage.mintOf]
    rcases r.txid with _ | txid
    · rfl
    · have hlive : (!o.change || !(o.change && st.outpointSpendable ⟨txid, o.vout⟩)
        || o.spentBy.isSome)
          = !(o.change && decide (o.spentBy = none) && st.outpointSpendable ⟨txid, o.vout⟩) := by
        cases o.change <;> cases o.spentBy <;> simp
      rw [syncedBasket_syncOutput]
      change (if !o.change || !(o.change && st.outpointSpendable ⟨txid, o.vout⟩)
          || o.spentBy.isSome then none
        else some (st.carried userID (o, ⟨txid, o.vout⟩))) = _
      rw [hlive, Option.bind_some]
      rcases (o.change && decide (o.spentBy = none) && st.outpointSpendable ⟨txid, o.vout⟩)
          with _ | _ <;> rfl

end SyncStore

namespace WalletStore

variable (src : WalletStore) (userID : UserID)

theorem apart_transactions : (src.syncChunk userID).transactions.Pairwise Storage.Apart := by
  have hnodup : (src.db.metadata.transactions.select fun r => r.userID = userID).Nodup :=
    (List.Nodup.of_map _ src.db.metadata.transactions.nodup).filter _
  refine List.pairwise_map.mpr (List.Pairwise.imp_of_mem (fun {a b} ha hb hne => ?_) hnodup)
  have ha := (Table.mem_select.mp ha).1
  have hb := (Table.mem_select.mp hb).1
  exact ⟨fun href => hne (src.references a ha b hb href), fun hid =>
      hne (Table.eq_of_key ha hb hid)⟩

theorem mem_outputs_syncChunk {o : SyncOutput} (h : o ∈ (src.syncChunk userID).outputs) :
    ∃ r ∈ src.db.metadata.outputs, r.transactionID = o.transactionID ∧ r.vout = o.vout
      ∧ ∃ t ∈ (src.syncChunk userID).transactions, t.transactionID = o.transactionID := by
  obtain ⟨r, hr, ho⟩ := List.mem_filterMap.mp h
  obtain ⟨t, ht, rfl⟩ := Option.map_eq_some_iff.mp ho
  obtain ⟨hr, hu⟩ := Table.mem_select.mp hr
  obtain ⟨htin, hid⟩ := Table.get?_eq_some.mp ht
  have hown := src.owners r hr t ht
  refine ⟨r, hr, rfl, rfl, syncTx t, List.mem_map_of_mem (Table.mem_select.mpr ⟨htin, ?_⟩), hid⟩
  simpa [hown] using hu

theorem distinct_outputs : (src.syncChunk userID).outputs.Pairwise Storage.Distinct := by
  have hnodup : (src.db.metadata.outputs.select fun o => o.userID = userID).Nodup :=
    (List.Nodup.of_map _ src.db.metadata.outputs.nodup).filter _
  refine List.pairwise_filterMap.mpr (List.Pairwise.imp_of_mem (fun {a b} ha hb hne => ?_) hnodup)
  intro o ho o' ho' hid hv
  obtain ⟨t, -, rfl⟩ := Option.map_eq_some_iff.mp ho
  obtain ⟨t', -, rfl⟩ := Option.map_eq_some_iff.mp ho'
  exact hne (src.indices a (Table.mem_select.mp ha).1 b (Table.mem_select.mp hb).1 hid hv)

end WalletStore

namespace Storage

/-- A fresh storage once its first user is there. -/
def welcomed (identityKey : String) : SyncStore :=
  { SyncStore.fresh with users := SyncStore.fresh.users.insert ⟨1, identityKey⟩, nextUserID := 2 }

theorem imported_fresh : Imported 1 [] ⟨[], 0, 0⟩ Metadata.empty where
  ids r hr := absurd hr (Table.not_mem_empty r)
  refs r hr := absurd hr (Table.not_mem_empty r)
  found t ht := absurd ht List.not_mem_nil
  mapped t ht := absurd ht List.not_mem_nil
  below a n h := by cases h
  inj a b n h := by cases h

/-- The chunk unpacks exactly if its live outputs can be minted, and then they are what is
minted. -/
theorem processChunk_fresh (src : WalletStore) (userID : UserID) (identityKey : String)
    (now : Time) :
    ∃ st' r, processChunk 1 (src.syncChunk userID) (calm (welcomed identityKey) now)
      = (r, calm st' now)
      ∧ ((∃ a, r = .ok a) ↔ ∀ e ∈ (Inventory.empty.mint now
        ((src.liveChange userID).map (src.carried userID))).1, e = none)
      ∧ ((∃ a, r = .ok a) → st'.users = (welcomed identityKey).users
        ∧ st'.db.utxo = (Inventory.empty.mint now
          ((src.liveChange userID).map (src.carried userID))).2
        ∧ ∀ t ∈ (src.syncChunk userID).transactions, ∃ r ∈ st'.db.metadata.transactions,
          r.userID = 1 ∧ r.reference = t.reference) := by
  obtain ⟨baskets, hbaskets⟩ := forM_upsertBasket 1 now (src.syncChunk userID).outputBaskets
      (welcomed identityKey)
  obtain ⟨acc, m, htxs, hout, himp⟩ :=
    foldlM_processTransaction now (src.syncChunk userID).transactions [] ⟨[], 0, 0⟩
    { welcomed identityKey with baskets := baskets } imported_fresh (fun t ht =>
        absurd ht List.not_mem_nil)
    (src.apart_transactions userID)
  have hmapped : ∀ o ∈ (src.syncChunk userID).outputs, ∃ n,
      acc.oldToNew.lookup o.transactionID = some n
      ∧ ¬ Taken m n o.vout := by
    intro o ho
    obtain ⟨-, -, -, -, t, ht, hid⟩ := src.mem_outputs_syncChunk userID ho
    obtain ⟨n, hn⟩ := himp.mapped t ht
    refine ⟨n, hid ▸ hn, ?_⟩
    rintro ⟨r, hr, -⟩
    rw [hout] at hr
    exact Table.not_mem_empty r hr
  obtain ⟨st', r, houts, hok, hafter⟩ :=
    foldlM_processOutput now 1 (src.syncChunk userID).outputBaskets
    (src.syncChunk userID).outputs acc { welcomed identityKey with baskets := baskets,
                                                                   db :=
      { Db.empty with metadata := m } }
    himp.inj hmapped (src.distinct_outputs userID)
  rw [src.filterMap_mintOf_syncChunk userID] at hok hafter
  refine ⟨st', r, Uow.bind_of_ok hbaskets (Uow.bind_of_ok htxs houts), hok, fun hr => ?_⟩
  obtain ⟨husers, htxs', hutxo⟩ := hafter hr
  exact ⟨husers, hutxo, fun t ht => htxs' ▸ himp.found t ht⟩

theorem processSyncChunk_ok_iff {mode : Mode} {identityKey : String} {chunk : SyncChunk}
    {st st1 st' : SyncStore}
    {now : Time} {userID : UserID} (huser : findOrInsertUser identityKey (calm st now)
      = (.ok userID, calm st1 now)) :
    (∃ res, processSyncChunk mode identityKey chunk (calm st now) = (.ok res, calm st' now))
      ↔ ∃ acc, processChunk userID chunk (calm st1 now) = (.ok acc, calm st' now) := by
  unfold processSyncChunk
  rw [Uow.bind_of_ok huser rfl, Uow.bind_apply, Uow.atomically]
  rcases processChunk userID chunk (calm st1 now) with ⟨_ | acc, s'⟩
  · constructor <;> rintro ⟨_, h⟩ <;> cases h
  · constructor
    · rintro ⟨res, h⟩
      cases h
      exact ⟨acc, rfl⟩
    · rintro ⟨acc', h⟩
      cases h
      exact ⟨_, rfl⟩

theorem findOrInsertUser_found {identityKey : String} {st : SyncStore} {u : UserRow} (now : Time)
    (h : st.findByIdentityKey identityKey = some u) :
    findOrInsertUser identityKey (calm st now) = (.ok u.userID, calm st now) := by
  rw [findOrInsertUser, calm, Uow.stmt_calm, h]

/-- A chunk whose transactions are all known changes at most the numbers of the baskets. -/
theorem processSyncChunk_again {mode : Mode} {identityKey : String} {chunk : SyncChunk}
    {st : SyncStore} {u : UserRow}
    (now : Time) (hu : st.findByIdentityKey identityKey = some u) (h : ∀ t ∈ chunk.transactions,
      ∃ r ∈ st.db.metadata.transactions, r.userID = u.userID ∧ r.reference = t.reference) :
    ∃ res baskets, processSyncChunk mode identityKey chunk (calm st now)
      = (.ok res, calm { st with baskets := baskets } now) := by
  obtain ⟨baskets, hbaskets⟩ := forM_upsertBasket u.userID now chunk.outputBaskets st
  have htxs := @foldlM_processTransaction_found { st with baskets := baskets } now u.userID
      chunk.transactions
    ⟨[], 0, 0⟩ h
  obtain ⟨res, hres⟩ := (processSyncChunk_ok_iff (findOrInsertUser_found now hu)).mpr
    ⟨_, Uow.bind_of_ok hbaskets (Uow.bind_of_ok htxs
        (foldlM_processOutput_skipped rfl chunk.outputs))⟩
  exact ⟨res, baskets, hres⟩

end Storage

namespace WalletStore

/-- The claimable coins of the user in the target are the live change outputs of the source: the
same outpoints, the same satoshis and, where an output has a basket, the same basket. -/
structure Moved (src : WalletStore) (userID : UserID) (identityKey : String)
    (target : SyncStore) : Prop where
  from_source : ∀ u, target.findByIdentityKey identityKey = some u → ∀ r ∈ target.db.utxo.rows,
      r.userID = u.userID →
    r.claimable → ∃ o ∈ src.liveChange userID, r.outpoint = o.2 ∧ r.satoshis = o.1.satoshis
      ∧ ∀ b, o.1.basket = some b → r.basket = b
  arrived : ∃ u, target.findByIdentityKey identityKey = some u ∧ ∀ o ∈ src.liveChange userID,
    ∃ r ∈ target.db.utxo.rows, r.userID = u.userID ∧ r.claimable ∧ r.outpoint = o.2
        ∧ r.satoshis = o.1.satoshis
      ∧ ∀ b, o.1.basket = some b → r.basket = b

/-- The chunk arrives whole, and arriving again it changes no coin and no output row. -/
def RoundTrip (src : WalletStore) (mode : Mode) (userID : UserID) (identityKey : String)
    (chunk : SyncChunk)
    (now now' : Time) : Prop :=
  ∃ res target, Storage.processSyncChunk mode identityKey chunk (Storage.calm SyncStore.fresh now)
      = (.ok res, Storage.calm target now)
    ∧ src.Moved userID identityKey target
    ∧ ∃ res' target', Storage.processSyncChunk mode identityKey chunk (Storage.calm target now')
        = (.ok res', Storage.calm target' now')
      ∧ target'.db.utxo = target.db.utxo ∧ target'.db.metadata.outputs = target.db.metadata.outputs

/-- Every basket of a live change output is the default one or listed among the user's, and live
outputs of one outpoint agree. -/
structure Portable (src : WalletStore) (userID : UserID) : Prop where
  listed : ∀ o ∈ src.liveChange userID, ∀ b, o.1.basket = some b → b = basketNameForChange
    ∨ b ≠ "" ∧ ∃ r ∈ src.baskets, r.userID = userID ∧ r.name = b ∧ r.deleted = false
  agree : ∀ o ∈ src.liveChange userID, ∀ o' ∈ src.liveChange userID, o.2 = o'.2 →
    o.1.satoshis = o'.1.satoshis ∧ o.1.basket.getD basketNameForChange
        = o'.1.basket.getD basketNameForChange

variable {src : WalletStore} {userID : UserID} {o : OutputRow × Outpoint}

theorem arrivalBasket_eq_iff (o : OutputRow) (b : String) (hb : o.basket = some b) :
    src.arrivalBasket userID o = b ↔ b = basketNameForChange
      ∨ b ≠ "" ∧ ∃ r ∈ src.baskets, r.userID = userID ∧ r.name = b ∧ r.deleted = false := by
  unfold SyncStore.arrivalBasket
  rw [hb]
  dsimp only
  split
  · rename_i h
    simp only [Bool.and_eq_true, decide_eq_true_eq, Table.any_eq_true, Bool.not_eq_true'] at h
    obtain ⟨hne, r, hr, ⟨hu, hn⟩, hd⟩ := h
    exact iff_of_true rfl (Or.inr ⟨hne, r, hr, hu, hn, hd⟩)
  · rename_i h
    refine ⟨fun h => Or.inl h.symm, ?_⟩
    rintro (hdef | ⟨hne, r, hr, hu, hn, hd⟩)
    · exact hdef.symm
    · refine absurd ?_ h
      simp only [Bool.and_eq_true, decide_eq_true_eq, Table.any_eq_true, Bool.not_eq_true']
      exact ⟨hne, r, hr, ⟨hu, hn⟩, hd⟩

theorem arrivalBasket_eq_getD {o : OutputRow}
    (h : ∀ b, o.basket = some b → src.arrivalBasket userID o = b) :
    src.arrivalBasket userID o = o.basket.getD basketNameForChange := by
  rcases hb : o.basket with _ | b
  · rw [SyncStore.arrivalBasket, hb]
    rfl
  · exact h b hb

/-- Where names travel, an output arrives in its basket. -/
theorem Portable.arrivalBasket (h : src.Portable userID) (ho : o ∈ src.liveChange userID) :
    src.arrivalBasket userID o.1 = o.1.basket.getD basketNameForChange :=
  arrivalBasket_eq_getD fun b hb => (arrivalBasket_eq_iff o.1 b hb).mpr (h.listed o ho b hb)

theorem Portable.mint_ok (h : src.Portable userID) (now : Time) :
    ∀ e ∈ (Inventory.empty.mint now ((src.liveChange userID).map (src.carried userID))).1,
      e = none := by
  refine Inventory.mint_ok (fun m hm => ?_) fun m hm m' hm' hop r => ?_
  · obtain ⟨o, -, rfl⟩ := List.mem_map.mp hm
    refine ⟨?_, fun r hr => absurd (Inventory.get_eq_some.mp hr).1 (Table.not_mem_empty r)⟩
    simp [validateMint, SyncStore.carried,
        ← syncedBasket_syncOutput src.toSyncStore userID o.1 none,
      Storage.syncedBasket_ne_empty]
  · obtain ⟨o, ho, rfl⟩ := List.mem_map.mp hm
    obtain ⟨o', ho', rfl⟩ := List.mem_map.mp hm'
    obtain ⟨hsat, hbasket⟩ := h.agree o ho o' ho' hop
    rw [← h.arrivalBasket ho, ← h.arrivalBasket ho'] at hbasket
    rintro ⟨hu, hb, hs, hsize⟩
    exact ⟨hu, hb.trans hbasket, hs.trans hsat, hsize⟩

theorem Portable.moved (h : src.Portable userID) {identityKey : String} {target : SyncStore}
    {now : Time} (hu : target.findByIdentityKey identityKey = some ⟨1, identityKey⟩)
    (hutxo : target.db.utxo = (Inventory.empty.mint now
      ((src.liveChange userID).map (src.carried userID))).2) :
    src.Moved userID identityKey target where
  from_source u _ r hr _ _ := by
    rw [hutxo] at hr
    rcases Inventory.mem_mint hr with hr | ⟨m, hm, seq, rfl⟩
    · exact absurd hr (Table.not_mem_empty r)
    · obtain ⟨o, ho, rfl⟩ := List.mem_map.mp hm
      refine ⟨o, ho, rfl, rfl, fun b hb => ?_⟩
      exact (h.arrivalBasket ho).trans (by rw [hb]; rfl)
  arrived := by
    refine ⟨_, hu, fun o ho => ?_⟩
    obtain ⟨r, hr, huser, hbasket, hsat, -⟩ := Inventory.identifies_mint (h.mint_ok now) _
      (List.mem_map_of_mem ho)
    rw [← hutxo] at hr
    obtain ⟨hr, hop⟩ := Inventory.get_eq_some.mp hr
    refine ⟨r, hr, huser, ?_, hop, hsat, fun b hb => ?_⟩
    · rw [hutxo] at hr
      rcases Inventory.mem_mint hr with hr | ⟨m, -, seq, rfl⟩
      · exact absurd hr (Table.not_mem_empty r)
      · rfl
    · exact hbasket.trans ((h.arrivalBasket ho).trans (by rw [hb]; rfl))

theorem findByIdentityKey_welcomed {identityKey : String} {st : SyncStore}
    (h : st.users = (Storage.welcomed identityKey).users) :
    st.findByIdentityKey identityKey = some ⟨1, identityKey⟩ := by
  have hrows : (Storage.welcomed identityKey).users.rows = [⟨1, identityKey⟩] := rfl
  rw [SyncStore.findByIdentityKey, h, Table.select, hrows]
  simp

variable (src) in
theorem portable_of_moved {identityKey : String} {target : SyncStore} {now : Time}
    (hok : ∀ e ∈ (Inventory.empty.mint now ((src.liveChange userID).map (src.carried userID))).1,
      e = none)
    (hutxo : target.db.utxo = (Inventory.empty.mint now
      ((src.liveChange userID).map (src.carried userID))).2)
    (h : src.Moved userID identityKey target) : src.Portable userID := by
  -- the coin at an outpoint is the one its live output was minted as
  have hcoin : ∀ o ∈ src.liveChange userID, ∀ r ∈ target.db.utxo.rows, r.outpoint = o.2 →
      r.basket = src.arrivalBasket userID o.1 ∧ r.satoshis = o.1.satoshis := by
    intro o ho r hr hop
    obtain ⟨r', hr', -, hbasket, hsat, -⟩ :=
      Inventory.identifies_mint hok _ (List.mem_map_of_mem ho)
    rw [← hutxo] at hr'
    obtain ⟨hr', hop'⟩ := Inventory.get_eq_some.mp hr'
    obtain rfl : r = r' := Table.eq_of_key hr hr' (hop.trans hop'.symm)
    exact ⟨hbasket, hsat⟩
  obtain ⟨u, -, harrived⟩ := h.arrived
  have hlisted : ∀ o ∈ src.liveChange userID, ∀ b, o.1.basket = some b →
      src.arrivalBasket userID o.1 = b := by
    intro o ho b hb
    obtain ⟨r, hr, -, -, hop, -, hbasket⟩ := harrived o ho
    exact (hcoin o ho r hr hop).1.symm.trans (hbasket b hb)
  refine ⟨fun o ho b hb => (arrivalBasket_eq_iff o.1 b hb).mp (hlisted o ho b hb),
      fun o ho o' ho' hop => ?_⟩
  obtain ⟨r, hr, -, -, hrop, -, -⟩ := harrived o ho
  obtain ⟨hb, hs⟩ := hcoin o ho r hr hrop
  obtain ⟨hb', hs'⟩ := hcoin o' ho' r hr (hrop.trans hop)
  rw [← arrivalBasket_eq_getD (hlisted o ho), ← arrivalBasket_eq_getD (hlisted o' ho')]
  exact ⟨hs.symm.trans hs', hb.symm.trans hb'⟩

end WalletStore

theorem getSyncChunk_ok {storageIdentityKey : String} {args : RequestSyncChunkArgs} {st : SyncStore}
    {chunk : SyncChunk} (h : getSyncChunk storageIdentityKey args st = .ok chunk) :
    ∃ user, st.findByIdentityKey args.identityKey = some user
      ∧ chunk = st.syncChunk user.userID := by
  unfold getSyncChunk at h
  split at h
  · cases h
  · rcases hu : st.findByIdentityKey args.identityKey with _ | user <;> rw [hu] at h
    · cases h
    · cases h
      exact ⟨user, rfl, rfl⟩

/-- The full chunk of a user makes the round trip exactly from a storage whose live change outputs
lie in listed baskets and agree on their outpoints. -/
theorem syncChunk_roundTrip_iff (src : WalletStore) (storageIdentityKey : String)
    (args : RequestSyncChunkArgs)
    (user : UserRow) (chunk : SyncChunk) (mode : Mode) (now now' : Time)
    (huser : src.findByIdentityKey args.identityKey = some user)
    (hchunk : getSyncChunk storageIdentityKey args src.toSyncStore = .ok chunk) :
    src.RoundTrip mode user.userID args.identityKey chunk now now' ↔ src.Portable user.userID := by
  obtain ⟨user', huser', rfl⟩ := getSyncChunk_ok hchunk
  obtain rfl : user = user' := Option.some.inj (huser.symm.trans huser')
  obtain ⟨st', r, hrun, hok, hafter⟩ :=
    Storage.processChunk_fresh src user.userID args.identityKey now
  have hwelcome : Storage.findOrInsertUser args.identityKey (Storage.calm SyncStore.fresh now)
      = (.ok 1, Storage.calm (Storage.welcomed args.identityKey) now) := rfl
  constructor
  · rintro ⟨res, target, htarget, hmoved, -⟩
    obtain ⟨acc, hacc⟩ := (Storage.processSyncChunk_ok_iff hwelcome).mp ⟨res, htarget⟩
    cases hrun.symm.trans hacc
    obtain ⟨-, hutxo, -⟩ := hafter ⟨acc, rfl⟩
    exact src.portable_of_moved (hok.mp ⟨acc, rfl⟩) hutxo hmoved
  · intro hportable
    obtain ⟨acc, rfl⟩ := hok.mpr (hportable.mint_ok now)
    obtain ⟨husers, hutxo, hfound⟩ := hafter ⟨acc, rfl⟩
    have hu := WalletStore.findByIdentityKey_welcomed husers
    obtain ⟨res, hres⟩ := (Storage.processSyncChunk_ok_iff hwelcome).mpr ⟨acc, hrun⟩
    obtain ⟨res', baskets, hagain⟩ := Storage.processSyncChunk_again now' hu hfound
    exact ⟨res, st', hres, hportable.moved hu hutxo, res', _, hagain, rfl, rfl⟩

/-- A wallet with one coin of change. -/
def oneCoin (basket : String) : WalletStore where
  users := (∅ : Table UserRow).insert ⟨7, "alice"⟩
  nextUserID := 8
  baskets := (∅ : Table BasketRow).insert ⟨⟨"default", 0, 0⟩, 7, false⟩
  db := { Db.empty with
    metadata := { Metadata.empty with
      transactions := (∅ : Table TxRow).insert
        { transactionID := 1, userID := 7, status := .completed, reference := "ref",
          isOutgoing := true,
          satoshis := 0, txid := some "tx", createdAt := 1 }
      outputs := (∅ : Table OutputRow).insert
        { outputID := 1, userID := 7, transactionID := 1, vout := 0, satoshis := 1000,
          lockingScript := none,
          basket := some basket, spentBy := none, change := true, providedBy := .storage } }
    utxo := (Inventory.empty.mint 1 [⟨⟨"tx", 0⟩, 7, basket, 1000, defaultP2PKHInputSize,
        .mined⟩]).2 }
  references r hr r' hr' _ := (List.mem_singleton.mp hr).trans (List.mem_singleton.mp hr').symm
  indices o ho o' ho' _ _ := (List.mem_singleton.mp ho).trans (List.mem_singleton.mp ho').symm
  owners o ho r hr := by
    rw [List.mem_singleton.mp ho, List.mem_singleton.mp (Table.get?_eq_some.mp hr).1]

theorem syncChunk_roundTrip_default :
    (oneCoin "default").RoundTrip .a 7 "alice" ((oneCoin "default").syncChunk 7) 5 6 := by
  refine (syncChunk_roundTrip_iff (oneCoin "default") "here" ⟨"here", "alice"⟩ ⟨7,
      "alice"⟩ _ .a 5 6 rfl rfl).mpr
    ⟨fun o ho b hb => Or.inl ?_, fun o ho o' ho' _ => ?_⟩
  · obtain rfl := List.mem_singleton.mp ho
    exact (Option.some.inj hb).symm
  · obtain rfl := List.mem_singleton.mp ho
    obtain rfl := List.mem_singleton.mp ho'
    exact ⟨rfl, rfl⟩

/-- A coin of a basket without a row arrives in the default basket. -/
theorem unlisted_basket_lost :
    getSyncChunk "here" ⟨"here", "alice"⟩ (oneCoin "fuel").toSyncStore = .ok
      ((oneCoin "fuel").syncChunk 7)
      ∧ ¬ (oneCoin "fuel").RoundTrip .a 7 "alice" ((oneCoin "fuel").syncChunk 7) 5 6 := by
  refine ⟨rfl, ?_⟩
  rintro ⟨res, target, hrun, hmoved, -⟩
  have hbasket : ∀ r ∈ target.db.utxo.rows, r.basket = "default" := by
    have h := congrArg (fun x => x.2.db.db.utxo.rows.rows.map (·.basket)) hrun
    have hrows : target.db.utxo.rows.rows.map (·.basket) = ["default"] :=
      h.symm.trans (by decide +kernel)
    intro r hr
    exact List.mem_singleton.mp (hrows ▸ List.mem_map_of_mem hr)
  obtain ⟨u, -, harrived⟩ := hmoved.arrived
  obtain ⟨r, hr, -, -, -, -, hfuel⟩ := harrived _ (List.mem_singleton.mpr rfl)
  exact absurd ((hfuel "fuel" rfl).symm.trans (hbasket r hr)) (by decide)

end ArcadeToolbox
