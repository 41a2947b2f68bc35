import ArcadeToolbox.Utxostore.Memstore

/-!
# The row of one outpoint

What each operation of the store does to the row it finds at an outpoint, if it finds one.
-/

namespace ArcadeToolbox

open Txn

/-- A row the funder may take, in its own scope. -/
def Row.claimable (r : Row) : Bool := r.reservedBy = "" && r.spentBy = none && !r.frozen

namespace Inventory

variable {s : Inventory} {op : Outpoint}

theorem get_eq_some {r : Row} : s.get op = some r ↔ r ∈ s.rows ∧ r.outpoint = op :=
  Table.get?_eq_some

theorem get_modify {p : Row → Bool} {f : Row → Row} {hf : ∀ r, (f r).outpoint = r.outpoint} :
    (s.modify p f hf).get op = (s.get op).map fun r => if p r then f r else r :=
  @Table.get?_update _ _ _ s.rows p f _ hf op

theorem get_drop {p : Row → Bool} : (s.drop p).get op = (s.get op).filter fun r => !p r :=
  Table.get?_delete

/-- The condition of a change may be read off the outpoint. -/
theorem map_get_congr {f g : Row → Row} (h : ∀ r, r.outpoint = op → f r = g r) :
    (s.get op).map f = (s.get op).map g := by
  rcases hg : s.get op with _ | r
  · rfl
  · rw [Option.map_some, Option.map_some, h r (get_eq_some.mp hg).2]

theorem get_promote {ops : List Outpoint} {tier : Tier} :
    (s.promote ops tier).2.get op
      = (s.get op).map fun r => if op ∈ ops then { r with tier := tier } else r := by
  unfold promote
  rw [get_modify]
  refine map_get_congr fun r hr => ?_
  subst hr
  by_cases ht : r.tier = tier
  · subst ht
    simp
  · simp [ht]

theorem get_setFrozen {ops : List Outpoint} {frozen : Bool} :
    (s.setFrozen ops frozen).2.get op
      = (s.get op).map fun r => if op ∈ ops then { r with frozen := frozen } else r := by
  unfold setFrozen
  rw [get_modify]
  exact map_get_congr fun r hr => by subst hr; simp

theorem get_removeSpentBy {t : TxID} :
    (s.removeSpentBy t).2.get op = (s.get op).filter fun r => r.spentBy ≠ some t := by
  unfold removeSpentBy
  rw [get_drop]
  congr 1
  funext r
  simp

theorem promote_nil (tier : Tier) : (s.promote [] tier).2 = s := by
  simp [promote, modify, Table.update_of_forall_not]

theorem setFrozen_nil (frozen : Bool) : (s.setFrozen [] frozen).2 = s := by
  simp [setFrozen, modify, Table.update_of_forall_not]

/-! ## Minting -/

/-- The row a mint inserts. -/
def minted (now : Time) (seq : ℕ) (m : Mint) : Row :=
  { outpoint := m.outpoint, userID := m.userID, basket := m.basket, satoshis := m.satoshis,
    inputSize := m.inputSize, tier := m.tier, reservedBy := "", reservedAt := 0, spentBy := none,
    frozen := false, pinned := false, createdAt := now, seq := seq }

/-- A mint is refused, finds the coin, or inserts it. -/
theorem mintOne_cases (now : Time) (m : Mint) (s : Inventory) :
    (mintOne now m s).2 = s ∧ ((mintOne now m s).1 = validateMint m ∧ validateMint m ≠ none
        ∨ validateMint m = none ∧ ∃ r, s.get m.outpoint = some r
          ∧ ((mintOne now m s).1 = none ∨ (mintOne now m s).1 = some (.alreadyExists m.outpoint)))
    ∨ validateMint m = none ∧ s.get m.outpoint = none ∧ mintOne now m s
        = (none, { nextSeq := s.nextSeq + 1,
                   rows := s.rows.insert (minted now (s.nextSeq + 1) m) }) := by
  unfold mintOne
  rcases hv : validateMint m with _ | e
  · rcases hg : s.get m.outpoint with _ | r
    · exact Or.inr ⟨rfl, rfl, rfl⟩
    · dsimp only
      split
      · exact Or.inl ⟨rfl, Or.inr ⟨rfl, r, rfl, Or.inl rfl⟩⟩
      · exact Or.inl ⟨rfl, Or.inr ⟨rfl, r, rfl, Or.inr rfl⟩⟩
  · exact Or.inl ⟨rfl, Or.inl ⟨rfl, by simp⟩⟩

variable {now : Time}

theorem get_mintOne_of_ne {m : Mint} (h : m.outpoint ≠ op) :
    (mintOne now m s).2.get op = s.get op := by
  rcases mintOne_cases now m s with ⟨he, -⟩ | ⟨-, -, he⟩
  · rw [he]
  · rw [he]
    exact Table.get?_insert_ne h

theorem get_mintOne_of_some {m : Mint} {r : Row} (h : s.get op = some r) :
    (mintOne now m s).2.get op = some r := by
  rcases mintOne_cases now m s with ⟨he, -⟩ | ⟨-, hn, -⟩
  · rwa [he]
  · rw [get_mintOne_of_ne, h]
    rintro rfl
    rw [hn] at h
    cases h

theorem get_mint_of_some {r : Row} :
    ∀ (ms : List Mint) {s : Inventory}, s.get op = some r → (s.mint now ms).2.get op = some r
  | [], _, h => h
  | _ :: ms, _, h => get_mint_of_some ms (get_mintOne_of_some h)

theorem get_mint_of_ne :
    ∀ {ms : List Mint} {s : Inventory}, (∀ m ∈ ms, m.outpoint ≠ op) →
      (s.mint now ms).2.get op = s.get op
  | [], _, _ => rfl
  | m :: ms, s, h => by
    obtain ⟨hm, hms⟩ := List.forall_mem_cons.mp h
    exact (get_mint_of_ne hms).trans (get_mintOne_of_ne hm)

/-- The coin is the one the mint describes. -/
def Identifies (m : Mint) (r : Row) : Prop :=
  r.userID = m.userID ∧ r.basket = m.basket ∧ r.satoshis = m.satoshis ∧ r.inputSize = m.inputSize

theorem mintOne_eq_none {m : Mint} : (mintOne now m s).1 = none ↔
    validateMint m = none ∧ ∀ r, s.get m.outpoint = some r → Identifies m r := by
  unfold mintOne Identifies
  rcases hv : validateMint m with _ | e <;> simp only
  · rcases hg : s.get m.outpoint with _ | r <;> simp only
    · simp
    · split <;> rename_i hsame
      · simpa using hsame
      · simpa using hsame
  · simp

/-- An item that succeeds has its coin. -/
theorem identifies_mintOne {m : Mint} (h : (mintOne now m s).1 = none) :
    ∃ r, (mintOne now m s).2.get m.outpoint = some r ∧ Identifies m r := by
  obtain ⟨hv, hsame⟩ := mintOne_eq_none.mp h
  rcases hg : s.get m.outpoint with _ | r
  · rcases mintOne_cases now m s with ⟨-, ⟨-, hv'⟩ | ⟨-, r, hr, -⟩⟩ | ⟨-, -, he⟩
    · exact absurd hv hv'
    · rw [hg] at hr
      cases hr
    · rw [he]
      exact ⟨_, Table.get?_insert_self (r := minted now (s.nextSeq + 1) m) hg, rfl, rfl, rfl, rfl⟩
  · exact ⟨r, get_mintOne_of_some hg, hsame r hg⟩

theorem identifies_mint :
    ∀ {ms : List Mint} {s : Inventory}, (∀ e ∈ (s.mint now ms).1, e = none) →
      ∀ m ∈ ms, ∃ r, (s.mint now ms).2.get m.outpoint = some r ∧ Identifies m r
  | m0 :: ms, s, h, m, hm => by
    have h : ∀ e ∈ (mintOne now m0 s).1 :: ((mintOne now m0 s).2.mint now ms).1, e = none := h
    obtain ⟨h0, hms⟩ := List.forall_mem_cons.mp h
    rcases List.mem_cons.mp hm with rfl | hm
    · obtain ⟨r, hr, hid⟩ := identifies_mintOne h0
      exact ⟨r, get_mint_of_some ms hr, hid⟩
    · exact identifies_mint hms m hm

theorem satoshis_mint {ms : List Mint} (h : ∀ e ∈ (s.mint now ms).1, e = none) (m : Mint)
    (hm : m ∈ ms) :
    ∃ r, (s.mint now ms).2.get m.outpoint = some r ∧ r.satoshis = m.satoshis := by
  obtain ⟨r, hr, -, -, hsat, -⟩ := identifies_mint h m hm
  exact ⟨r, hr, hsat⟩

/-- A batch succeeds if its items are well formed and agree on the coins, with each other and with
what is there. -/
theorem mint_ok : ∀ {ms : List Mint} {s : Inventory},
    (∀ m ∈ ms, validateMint m = none ∧ ∀ r, s.get m.outpoint = some r → Identifies m r) →
    (∀ m ∈ ms, ∀ m' ∈ ms, m.outpoint = m'.outpoint → ∀ r, Identifies m r → Identifies m' r) →
    ∀ e ∈ (s.mint now ms).1, e = none
  | [], _, _, _ => by simp [mint]
  | m :: ms, s, hs, hagree => by
    have h0 : (mintOne now m s).1 = none := mintOne_eq_none.mpr (hs m List.mem_cons_self)
    change ∀ e ∈ (mintOne now m s).1 :: ((mintOne now m s).2.mint now ms).1, e = none
    refine List.forall_mem_cons.mpr ⟨h0, mint_ok (fun m' hm' => ?_) fun m1 hm1 m2 hm2 =>
      hagree m1 (List.mem_cons_of_mem m hm1) m2 (List.mem_cons_of_mem m hm2)⟩
    obtain ⟨hv, hsame⟩ := hs m' (List.mem_cons_of_mem m hm')
    refine ⟨hv, fun r hr => ?_⟩
    by_cases hop : m.outpoint = m'.outpoint
    · obtain ⟨r', hr', hid⟩ := identifies_mintOne h0
      rw [← hop, hr'] at hr
      cases hr
      exact hagree m List.mem_cons_self m' (List.mem_cons_of_mem m hm') hop _ hid
    · rw [get_mintOne_of_ne hop] at hr
      exact hsame r hr

theorem mint_append (now : Time) : ∀ (ms ms' : List Mint) (s : Inventory), s.mint now (ms ++ ms')
    = ((s.mint now ms).1 ++ ((s.mint now ms).2.mint now ms').1, ((s.mint now ms).2.mint now ms').2)
  | [], _, _ => rfl
  | m :: ms, ms', s => by
    change ((mintOne now m s).1 :: ((mintOne now m s).2.mint now (ms ++ ms')).1,
        ((mintOne now m s).2.mint now (ms ++ ms')).2)
      = _
    rw [mint_append now ms]
    rfl

/-- Where no item was refused for its form, every coin is there afterwards, and one that was not
there before is as the mint made it. -/
theorem get_mint_of_mem :
    ∀ {ms : List Mint} {s : Inventory},
      (∀ e ∈ (s.mint now ms).1, e = none ∨ ∃ op', e = some (.alreadyExists op')) →
      ∀ m ∈ ms, m.outpoint = op → s.get op = none →
      ∃ m' ∈ ms, m'.outpoint = op ∧ ∃ seq, (s.mint now ms).2.get op = some (minted now seq m')
  | m0 :: ms, s, h, m, hm, hop, hno => by
    have h : ∀ e ∈ (mintOne now m0 s).1 :: ((mintOne now m0 s).2.mint now ms).1,
        e = none ∨ ∃ op', e = some (.alreadyExists op') := h
    obtain ⟨h0, hms⟩ := List.forall_mem_cons.mp h
    rcases mintOne_cases now m0 s with ⟨he, hcase⟩ | ⟨hv, hn, he⟩
    · -- the first item changed nothing, so it is about another coin
      have hne : m0.outpoint ≠ op := by
        rintro rfl
        rcases hcase with ⟨hr, hv⟩ | ⟨-, r, hr, -⟩
        · rcases h0 with h0 | ⟨op', h0⟩
          · exact hv (hr.symm.trans h0)
          · rw [h0] at hr
            simp only [validateMint] at hr
            split_ifs at hr <;> cases hr
        · rw [hno] at hr
          cases hr
      rcases List.mem_cons.mp hm with rfl | hm
      · exact absurd hop hne
      · obtain ⟨m', hm', hop', seq, hget⟩ := get_mint_of_mem hms m hm hop (by rwa [he])
        exact ⟨m', List.mem_cons_of_mem _ hm', hop', seq, hget⟩
    · by_cases hop0 : m0.outpoint = op
      · have hget : (mintOne now m0 s).2.get op = some (minted now (s.nextSeq + 1) m0) := by
          rw [he, ← hop0]
          exact Table.get?_insert_self (r := minted now (s.nextSeq + 1) m0) hn
        exact ⟨m0, List.mem_cons_self, hop0, s.nextSeq + 1, get_mint_of_some ms hget⟩
      · rcases List.mem_cons.mp hm with rfl | hm
        · exact absurd hop hop0
        · obtain ⟨m', hm', hop', seq, hget⟩ := get_mint_of_mem hms m hm hop
            ((get_mintOne_of_ne hop0).trans hno)
          exact ⟨m', List.mem_cons_of_mem _ hm', hop', seq, hget⟩

/-! ## Spending -/

/-- A spend answers and changes nothing, or marks a coin that is not spent. -/
theorem spendOne_cases (sp : SpendOp) (force : Bool) (s : Inventory) :
    (spendOne sp force s).2 = s
    ∨ (∃ r, s.get sp.outpoint = some r ∧ r.spentBy = none)
      ∧ (spendOne sp force s).2 = s.modify (fun r => r.outpoint = sp.outpoint)
          (fun r => { r with spentBy := some sp.spendingTxID, pinned := false }) fun _ => rfl := by
  unfold spendOne
  rcases validateSpend sp with _ | e
  · rcases hg : s.get sp.outpoint with _ | r
    · exact Or.inl rfl
    · rcases hs : r.spentBy with _ | w <;> simp only [hs]
      · split
        · exact Or.inl rfl
        · split
          · exact Or.inl rfl
          · exact Or.inr ⟨⟨r, rfl, hs⟩, rfl⟩
      · exact Or.inl trivial
  · exact Or.inl rfl

end Inventory

end ArcadeToolbox
