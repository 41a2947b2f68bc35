import ArcadeToolbox.Aerostore.MintRemoval
import ArcadeToolbox.Aerostore.Methods
import ArcadeToolbox.Lib.Decimal

/-!
# The Aerospike inventory refines the reference store: claims

A claim need not return the coins that the reference store would return, but those it returns are
free and of the scope and the value that it asks for. Owner, basket, tier and bucket are guaranteed
by the guard on the claim key. The value within the bucket is only that of the candidate, which may
be old.
-/

namespace ArcadeToolbox.Aerostore

open Txn Prog

theorem Tier.int_injective : Function.Injective Tier.int := by
  intro a b h
  cases a <;> cases b <;> first | rfl | cases h

theorem bar_not_mem_repr (n : ℕ) : '|' ∉ n.repr.toList := fun h =>
  absurd (isDigit_of_mem_repr h) (by decide)

theorem bar_not_mem_int_repr (i : ℤ) : '|' ∉ i.repr.toList := fun h =>
  absurd (isDigit_or_sign_of_mem_repr h) (by decide)

/-- Of two equal lists, the parts before the first separator are equal, and so are the rest. -/
theorem append_bar_inj {a a' b b' : List Char} (ha : '|' ∉ a) (ha' : '|' ∉ a')
    (h : a ++ '|' :: b = a' ++ '|' :: b') : a = a' ∧ b = b' := by
  induction a generalizing a' with
  | nil =>
    cases a' with
    | nil => exact ⟨rfl, List.tail_eq_of_cons_eq h⟩
    | cons x xs =>
      obtain ⟨rfl, -⟩ := List.cons.inj h
      exact absurd List.mem_cons_self ha'
  | cons x xs ih =>
    cases a' with
    | nil =>
      obtain ⟨rfl, -⟩ := List.cons.inj h
      exact absurd List.mem_cons_self ha
    | cons x' xs' =>
      simp only [List.cons_append, List.cons.injEq] at h
      obtain ⟨rfl, h⟩ := h
      obtain ⟨rfl, hb⟩ := ih (fun hm => ha (List.mem_cons_of_mem _ hm))
        (fun hm => ha' (List.mem_cons_of_mem _ hm)) h
      exact ⟨rfl, hb⟩

theorem bar_append_inj {a a' b b' : List Char} (hb : '|' ∉ b) (hb' : '|' ∉ b')
    (h : a ++ '|' :: b = a' ++ '|' :: b') : a = a' ∧ b = b' := by
  have hr := congrArg List.reverse h
  simp only [List.reverse_append, List.reverse_cons, List.append_assoc, List.singleton_append] at hr
  obtain ⟨h1, h2⟩ := append_bar_inj (by simpa using hb) (by simpa using hb') hr
  exact ⟨List.reverse_injective h2, List.reverse_injective h1⟩

/-- The key of a coin tells its owner, basket, tier and bucket. A basket may hold the separator: the
user id is what stands before the first one, the tier and the bucket what stands after the last
two. -/
theorem claimKeyFor_inj {userID userID' : UserID} {basket basket' : String} {tier tier' : Tier}
    {bucket bucket' : ℕ} (h : claimKeyFor userID basket tier bucket = claimKeyFor userID' basket'
      tier' bucket') :
    userID = userID' ∧ basket = basket' ∧ tier = tier' ∧ bucket = bucket' := by
  have hl := congrArg String.toList h
  simp only [claimKeyFor, String.toList_append, List.append_assoc] at hl
  obtain ⟨huser, hl⟩ := append_bar_inj (bar_not_mem_int_repr _) (bar_not_mem_int_repr _) hl
  rw [← List.append_assoc, ← List.append_assoc, ← List.append_assoc basket'.toList,
    ← List.append_assoc (basket'.toList ++ _)] at hl
  obtain ⟨hl, hbucket⟩ := bar_append_inj (bar_not_mem_repr _) (bar_not_mem_repr _) hl
  rw [List.append_assoc, List.append_assoc] at hl
  obtain ⟨hbasket, htier⟩ := bar_append_inj (bar_not_mem_repr _) (bar_not_mem_repr _) hl
  exact ⟨eq_of_toList_intRepr huser, String.toList_injective hbasket,
    Tier.int_injective (eq_of_toList_natRepr htier), eq_of_toList_natRepr hbucket⟩

/-- The coin is one that can be claimed in the scope, and has a value that is asked for. -/
def grants (s : Inventory) (sc : Scope) (bound : Bound) (u : Utxo) : Bool :=
  (s.get u.outpoint).any fun r => Inventory.claimable r sc && bound.pred r.satoshis && r.satoshis
      = u.satoshis

/-- The row can be claimed in the scope and belongs in the bucket. -/
def inBucket (sc : Scope) (bucket : ℕ) (row : Row) : Bool :=
  Inventory.claimable row sc && bucketOf row.satoshis = bucket

section Claims

variable {index : ℕ → List Record → List Record} {cfg : Config} {now : Time} {worth : Outpoint → ℕ}
  {sc : Scope}
  {bound : Bound} {bucket : ℕ} {R : Token} {s : Inventory} {us : List Utxo} {b : Backend}

/-- A coin has the key exactly while it is free and of the scope and the bucket. -/
theorem Same.claimKey_iff {r : Record} {row : Row} (h : Same worth r row) :
    r.claimKey = some (claimKeyFor sc.userID sc.basket sc.tier bucket)
      ↔ inBucket sc bucket row = true := by
  have hid : r.userID = row.userID ∧ r.basket = row.basket ∧ r.tier = row.tier
      ∧ r.sats = row.satoshis :=
    ⟨h.userID, congrArg Utxo.basket h.utxo, congrArg Utxo.tier h.utxo,
        congrArg Utxo.satoshis h.utxo⟩
  obtain ⟨huser, hbasket, htier, hsats⟩ := hid
  simp only [inBucket, Inventory.claimable, Bool.and_eq_true, decide_eq_true_eq, Bool.not_eq_true',
      h.coherent.claimKey]
  split_ifs with hclaim
  · obtain ⟨hfree, hspent, hfrozen⟩ := h.claimable_iff.mp hclaim
    rw [Option.some.injEq, Record.ownClaimKey, huser, hbasket, htier, hsats]
    refine ⟨fun he => ?_, fun he => ?_⟩
    · obtain ⟨h1, h2, h3, h4⟩ := claimKeyFor_inj he
      exact ⟨⟨⟨⟨⟨⟨h1, h2⟩, h3⟩, hfree⟩, hspent⟩, hfrozen⟩, h4⟩
    · obtain ⟨⟨⟨⟨⟨⟨h1, h2⟩, h3⟩, -⟩, -⟩, -⟩, h4⟩ := he
      rw [h1, h2, h3, h4]
  · refine ⟨False.elim, fun he => absurd ?_ hclaim⟩
    obtain ⟨⟨⟨⟨-, hfree⟩, hspent⟩, hfrozen⟩, -⟩ := he
    exact h.claimable_iff.mpr ⟨hfree, hspent, hfrozen⟩

theorem mirrors_reserve {r : Record} (hR : R ≠ "") :
    Mirrors worth r (.reserve (claimKeyFor sc.userID sc.basket sc.tier bucket) R now)
      (inBucket sc bucket)
      (hold now R) := by
  intro row h
  refine ⟨?_, fun hg => h.effect hg (fun u hu => by cases hu) (by simpa [RecordOp.effect]
      using hR) ?_⟩
  · rw [Bool.eq_iff_iff, ← h.claimKey_iff]
    exact decide_eq_true_iff
  · change { recordToUTXO r with reservedBy := R, reservedAt := if R ≠ "" then now else 0 } = _
    rw [h.utxo, if_pos hR]
    rfl

/-- The claim holds these coins, which were free before, and has done nothing else. -/
structure Holding (worth : Outpoint → ℕ) (now : Time) (R : Token) (sc : Scope) (bound : Bound)
    (s : Inventory)
    (us : List Utxo) (b : Backend) : Prop where
  refines : Refines worth b (s.reserve now R (us.map (·.outpoint)))
  nodup : (us.map (·.outpoint)).Nodup
  grants : ∀ u ∈ us, grants s sc bound u = true

theorem ensures_claimCands (hindex : ∀ n l, index n l ⊆ l) (claimKey : String) (want : ℕ) :
    Ensures (Backend.exec index cfg now) (Holding worth now R sc bound s us)
      (Store.claimCands claimKey bound want) fun cands b =>
        Holding worth now R sc bound s us b ∧ ∀ c ∈ cands, c.sats = worth c.outpoint
          ∧ bound.pred c.sats = true := by
  intro b h
  have hworth : ∀ r ∈ b.server, ∀ k, r.claimKey = some k → Candidate worth k r := fun r hr k _ => by
    obtain ⟨row, -, hs⟩ := h.refines.rows.mem_left hr
    exact hs.worth
  obtain ⟨hserver, hready, hcands⟩ := Backend.claimCands_sourced hindex h.refines.ready hworth cfg
      now claimKey bound want
  exact ⟨⟨⟨hserver.symm ▸ h.refines.rows, hready⟩, h.nodup, h.grants⟩, hcands⟩

/-- A coin that is held can not be had again. -/
theorem not_mem_of_inBucket (hR : R ≠ "") {W : List Outpoint} {op : Outpoint} {row : Row}
    (hrow : (s.reserve now R W).get op = some row) (hq : inBucket sc bucket row = true) :
    op ∉ W := by
  intro hop
  unfold Inventory.reserve at hrow
  rw [Inventory.get_modify, Option.map_eq_some_iff] at hrow
  obtain ⟨r, hr, rfl⟩ := hrow
  obtain ⟨-, rfl⟩ := Inventory.get_eq_some.mp hr
  simp [inBucket, Inventory.claimable, hop, hR] at hq

theorem Refines.satoshis_eq (h : Refines worth b s) {op : Outpoint} {row : Row}
    (hrow : s.get op = some row) :
    row.satoshis = worth op := by
  obtain ⟨hmem, rfl⟩ := Inventory.get_eq_some.mp hrow
  obtain ⟨r, -, hs⟩ := h.rows.mem_right hmem
  rw [← show r.sats = row.satoshis from congrArg Utxo.satoshis hs.utxo, hs.worth, hs.outpoint]

theorem Holding.add (hR : R ≠ "") (h : Holding worth now R sc bound s us b) {b' : Backend}
    {u : Utxo} {row : Row} (hu : u.satoshis = worth u.outpoint) (hb : bound.pred u.satoshis = true)
    (hrow : (s.reserve now R (us.map (·.outpoint))).get u.outpoint = some row)
    (hq : inBucket sc bucket row = true)
    (h' : Refines worth b' ((s.reserve now R (us.map (·.outpoint))).modify
      (fun row => row.outpoint = u.outpoint && inBucket sc bucket row) (hold now R)
      (hold_outpoint now R))) :
    Holding worth now R sc bound s (us ++ [u]) b' := by
  have hnew := not_mem_of_inBucket hR hrow hq
  have hrow' : s.get u.outpoint = some row := (get_reserve_of_not_mem hnew).symm.trans hrow
  have hsats : row.satoshis = u.satoshis := (h.refines.satoshis_eq hrow).trans hu.symm
  rw [reserve_append hnew hrow' hq] at h'
  refine ⟨by rw [List.map_append]; exact h', ?_, fun u' hu' => ?_⟩
  · rw [List.map_append]
    refine h.nodup.append (List.nodup_singleton _) fun op hop hop' => hnew ?_
    obtain rfl := List.mem_singleton.mp hop'
    exact hop
  · rcases List.mem_append.mp hu' with hu' | hu'
    · exact h.grants u' hu'
    · obtain rfl := List.mem_singleton.mp hu'
      simp only [inBucket, Bool.and_eq_true] at hq
      simp only [Aerostore.grants, hrow', Option.any_some, hq.1, hsats, hb,
          Bool.and_self, decide_true]

theorem ensures_reserve (hR : R ≠ "") {c : Record} (hc : c.sats = worth c.outpoint)
    (hb : bound.pred c.sats = true) :
    Ensures (Backend.exec index cfg now) (Holding worth now R sc bound s us)
      (Store.reserve (claimKeyFor sc.userID sc.basket sc.tier bucket) R now c) fun u b =>
        Holding worth now R sc bound s (us ++ u.toList) b := by
  intro b h
  obtain ⟨hok, h'⟩ := h.refines.operate c.outpoint
    (w := .reserve (claimKeyFor sc.userID sc.basket sc.tier bucket) R now) (q := inBucket sc bucket)
    (hold_outpoint now R) fun r _ => mirrors_reserve hR
  unfold Store.reserve
  rw [run_bind, run_operate]
  by_cases hmet : ∃ row, (s.reserve now R (us.map (·.outpoint))).get c.outpoint = some row
      ∧ inBucket sc bucket row = true
  · obtain ⟨row, hrow, hq⟩ := hmet
    rw [Inventory.changeOne_of _ _ _ hrow hq] at hok h'
    rw [of_decide_eq_true hok]
    exact h.add hR (u := { recordToUTXO c with reservedBy := R, reservedAt := now })
        hc hb hrow hq h'
  · rw [Inventory.changeOne_of_not _ _ _ fun row hrow => Bool.not_eq_true _ ▸ fun hq =>
      hmet ⟨row, hrow, hq⟩] at hok h'
    have hlost : Holding worth now R sc bound s (us ++ []) _ :=
      ⟨by rw [List.append_nil]; exact h', by rw [List.append_nil]; exact h.nodup, by
          rw [List.append_nil]; exact h.grants⟩
    cases hres : (b.server.operate c.outpoint
        (.reserve (claimKeyFor sc.userID sc.basket sc.tier bucket) R now)).1 with
    | ok =>
      rw [hres] at hok
      cases hok
    | filteredOut => exact hlost
    | keyNotFound => exact hlost

/-- What the search has to show for. -/
def Search.coins : Store.Search → List Utxo
  | .won u => [u]
  | .contention => []
  | .lost _ => []

theorem ensures_reserveFirst (hR : R ≠ "") : ∀ (cands : List Record) (losses : ℕ),
    (∀ c ∈ cands, c.sats = worth c.outpoint ∧ bound.pred c.sats = true) →
    Ensures (Backend.exec index cfg now) (Holding worth now R sc bound s [])
      (Store.reserveFirst (claimKeyFor sc.userID sc.basket sc.tier bucket) R now cands losses)
        fun r b =>
        Holding worth now R sc bound s (Search.coins r) b
  | [], _, _ => ensures_done fun _ h => h
  | c :: cs, losses, hcands => by
    obtain ⟨hc, hb⟩ := hcands c List.mem_cons_self
    unfold Store.reserveFirst
    refine ensures_bind (ensures_reserve hR hc hb) fun u => ?_
    cases u with
    | some u => exact ensures_done fun _ h => h
    | none =>
      simp only
      split_ifs
      · exact ensures_done fun _ h => h
      · exact ensures_reserveFirst hR cs (losses + 1) fun c hc =>
          hcands c (List.mem_cons_of_mem _ hc)

theorem ensures_searchBucket (hindex : ∀ n l, index n l ⊆ l) (hR : R ≠ "") : ∀ (n losses : ℕ),
    Ensures (Backend.exec index cfg now) (Holding worth now R sc bound s [])
      (Store.searchBucket (claimKeyFor sc.userID sc.basket sc.tier bucket) bound R now n losses)
        fun r b =>
        Holding worth now R sc bound s (Search.coins r) b
  | 0, _ => ensures_done fun _ h => h
  | n + 1, losses => by
    unfold Store.searchBucket
    refine ensures_bind (ensures_claimCands hindex _ 1) fun cands => ?_
    split_ifs
    · exact ensures_done fun _ h => h.1
    · refine ensures_bind (R := fun r b => Holding worth now R sc bound s (Search.coins r) b)
        (fun b h => ?_) fun r => ?_
      · exact ensures_reserveFirst hR cands losses h.2 b h.1
      · cases r with
        | won u => exact ensures_done fun _ h => h
        | contention => exact ensures_done fun _ h => h
        | lost losses => exact ensures_searchBucket hindex hR n losses

/-- The claim that fails holds nothing. -/
def Settles (worth : Outpoint → ℕ) (now : Time) (R : Token) (sc : Scope) (bound : Bound)
    (s : Inventory)
    (r : Except UtxoErr (List Utxo)) (b : Backend) : Prop :=
  Holding worth now R sc bound s (r.toOption.getD []) b

theorem ensures_walkUp (hindex : ∀ n l, index n l ⊆ l) (hR : R ≠ "") :
    ∀ (buckets : List ℕ) (losses : ℕ),
    Ensures (Backend.exec index cfg now) (Holding worth now R sc bound s [])
      (Store.walkUp sc bound R now buckets losses) fun r b =>
        Settles worth now R sc bound s (r.map Option.toList) b
  | [], losses => by
    unfold Store.walkUp
    split_ifs <;> exact ensures_done fun _ h => h
  | bucket :: buckets, losses => by
    unfold Store.walkUp
    refine ensures_bind (ensures_searchBucket hindex hR _ losses) fun r => ?_
    cases r with
    | won u => exact ensures_done fun _ h => h
    | contention => exact ensures_done fun _ h => h
    | lost losses => exact ensures_walkUp hindex hR buckets losses

theorem validateClaim_eq_none (h : validateClaim sc R = none) : R ≠ "" := fun he => by
  simp [validateClaim, validateReservation, he] at h

theorem ensures_claimSmallestSufficient (hindex : ∀ n l, index n l ⊆ l) (minSats : ℕ) :
    Ensures (Backend.exec index cfg now) (Holding worth now R sc (.atLeast minSats) s [])
      (Store.claimSmallestSufficient now sc R minSats) fun r b =>
        Settles worth now R sc (.atLeast minSats) s (r.map Option.toList) b := by
  unfold Store.claimSmallestSufficient
  rcases hv : validateClaim sc R with _ | e
  · exact ensures_walkUp hindex (validateClaim_eq_none hv) _ 0
  · exact ensures_done fun _ h => h

/-- What a round has to show for; a round gives up only while it has nothing. -/
def roundCoins (r : Option (List Utxo × ℕ)) : List Utxo := (r.map Prod.fst).getD []

theorem ensures_reserveCands (hR : R ≠ "") (limit : ℕ) (budget : Option ℕ) :
    ∀ (cands : List Record) (claimed : List Utxo) (losses : ℕ),
    (∀ c ∈ cands, c.sats = worth c.outpoint ∧ bound.pred c.sats = true) →
    Ensures (Backend.exec index cfg now) (Holding worth now R sc bound s claimed)
      (Store.reserveCands (claimKeyFor sc.userID sc.basket sc.tier bucket) R now limit budget cands
        claimed losses)
      fun r b => Holding worth now R sc bound s (roundCoins r) b
  | [], _, _, _ => ensures_done fun _ h => h
  | c :: cs, claimed, losses, hcands => by
    obtain ⟨hc, hb⟩ := hcands c List.mem_cons_self
    have hcs : ∀ c ∈ cs, c.sats = worth c.outpoint ∧ bound.pred c.sats = true := fun c hc =>
      hcands c (List.mem_cons_of_mem _ hc)
    unfold Store.reserveCands
    by_cases hlimit : limit ≤ claimed.length
    · rw [if_pos hlimit]
      exact ensures_done fun _ h => h
    · rw [if_neg hlimit]
      refine ensures_bind (ensures_reserve hR hc hb) fun u => ?_
      cases u with
      | some u => exact ensures_reserveCands hR limit budget cs (claimed ++ [u]) losses hcs
      | none =>
        simp only [Option.toList_none, List.append_nil]
        split_ifs with hgive
        · rw [Bool.and_eq_true, decide_eq_true_eq] at hgive
          obtain ⟨-, rfl⟩ := hgive
          exact ensures_done fun _ h => h
        · exact ensures_reserveCands hR limit budget cs claimed (losses + 1) hcs

theorem ensures_drainBucket (hindex : ∀ n l, index n l ⊆ l) (hR : R ≠ "") (limit : ℕ)
    (budget : Option ℕ) :
    ∀ (n : ℕ) (claimed : List Utxo) (losses : ℕ),
    Ensures (Backend.exec index cfg now) (Holding worth now R sc bound s claimed)
      (Store.drainBucket (claimKeyFor sc.userID sc.basket sc.tier bucket) bound R now limit budget n
        claimed losses)
      fun r b => Holding worth now R sc bound s (roundCoins r) b
  | 0, _, _ => ensures_done fun _ h => h
  | n + 1, claimed, losses => by
    unfold Store.drainBucket
    split_ifs with hlimit
    · exact ensures_done fun _ h => h
    · refine ensures_bind (ensures_claimCands hindex _ _) fun cands => ?_
      split_ifs with hnone
      · exact ensures_done fun _ h => h.1
      · refine ensures_bind (R := fun r b => Holding worth now R sc bound s (roundCoins r) b)
          (fun b h => ?_) fun r => ?_
        · exact ensures_reserveCands hR limit budget cands claimed losses h.2 b h.1
        · rcases r with _ | ⟨claimed', losses'⟩
          · exact ensures_done fun _ h => h
          · simp only
            split_ifs
            · exact ensures_done fun _ h => h
            · exact ensures_drainBucket hindex hR limit budget n claimed' losses'

/-- A claim that reports contention has nothing. -/
theorem settles_claimResult {r : Option (List Utxo × ℕ)}
    (h : Holding worth now R sc bound s (roundCoins r) b) :
    Settles worth now R sc bound s (Store.claimResult r) b := by
  rcases r with _ | ⟨claimed, losses⟩
  · exact h
  · simp only [Store.claimResult]
    split_ifs with hnone
    · obtain ⟨rfl, -⟩ := hnone
      exact h
    · exact h

theorem ensures_walkDown (hindex : ∀ n l, index n l ⊆ l) (hR : R ≠ "") (limit : ℕ) :
    ∀ (buckets : List ℕ) (claimed : List Utxo) (losses : ℕ),
    Ensures (Backend.exec index cfg now) (Holding worth now R sc bound s claimed)
      (Store.walkDown sc bound R now limit buckets claimed losses) fun r b =>
        Settles worth now R sc bound s r b
  | [], claimed, losses =>
    ensures_done fun _ h => settles_claimResult (r := some (claimed, losses)) h
  | bucket :: buckets, claimed, losses => by
    unfold Store.walkDown
    split_ifs with hlimit
    · exact ensures_done fun _ h => settles_claimResult (r := some (claimed, losses)) h
    · refine ensures_bind (ensures_drainBucket hindex hR limit _ limit claimed losses) fun r => ?_
      rcases r with _ | ⟨claimed', losses'⟩
      · exact ensures_done fun _ h => h
      · exact ensures_walkDown hindex hR limit buckets claimed' losses'

theorem ensures_claimLargestInsufficient (hindex : ∀ n l, index n l ⊆ l) (capSats : ℕ) (limit : ℤ) :
    Ensures (Backend.exec index cfg now) (Holding worth now R sc (.below capSats) s [])
      (Store.claimLargestInsufficient now sc R capSats limit) fun r b =>
        Settles worth now R sc (.below capSats) s r b := by
  unfold Store.claimLargestInsufficient
  rcases hv : validateClaim sc R with _ | e
  · simp only
    split_ifs with hnone
    · exact ensures_done fun _ h => h
    · exact ensures_walkDown hindex (validateClaim_eq_none hv) _ _ [] 0
  · exact ensures_done fun _ h => h

theorem ensures_claimExact (hindex : ∀ n l, index n l ⊆ l) (denomination : ℕ) (count : ℤ) :
    Ensures (Backend.exec index cfg now) (Holding worth now R sc (.exactly denomination) s [])
      (Store.claimExact now sc R denomination count) fun r b =>
        Settles worth now R sc (.exactly denomination) s r b := by
  unfold Store.claimExact
  rcases hv : validateClaim sc R with _ | e
  · simp only
    split_ifs with hnone
    · exact ensures_done fun _ h => h
    · refine ensures_bind (ensures_drainBucket hindex (validateClaim_eq_none hv) _ _ _ [] 0)
        fun r => ?_
      exact ensures_done fun _ h => settles_claimResult h
  · exact ensures_done fun _ h => h

end Claims

end ArcadeToolbox.Aerostore
