import ArcadeToolbox.Storage.CreateHolds
import ArcadeToolbox.Storage.Reconciler

/-!
# What a spend conflict releases

What each transaction that a conflict names consumes is looked up at the oracle, if it is mined
there, and in the local store; the inputs that none of these consumes and the report does not name
are released, as soon as one of them was found. So an input that only a spender consumes which was
not found is released too.
-/

namespace ArcadeToolbox

open Txn

namespace Storage

variable (p : Provider)

/-- The oracle reports the spender as mined with its bytes, and no spender as mined without them. -/
def minedReadable (ans : ConflictAnswers) (spenders : List TxID) (s : TxID) : Bool :=
  (ans.second s).winner.any (·.rawTx.isSome) && !hasConfirmedUnreadableWinner ans.second spenders

/-- The inputs of a spender are found. -/
def resolved (ans : ConflictAnswers) (spenders : List TxID) (s : TxID) : Bool :=
  minedReadable ans spenders s || (ans.known s).any (·.rawTx.isSome)

/-- The local record of a spender is terminally dead. -/
def deadSpender (ans : ConflictAnswers) (s : TxID) : Bool :=
  (ans.known s).any (·.status.isTerminalFailure)

/-- The bytes that are found are those of the transactions they are found for. -/
structure ConflictAnswers.Truthful (ans : ConflictAnswers) : Prop where
  oracle : ∀ s rec raw, ans.second s = .found rec → rec.rawTx = some raw → raw = s
  store : ∀ s k raw, ans.known s = some k → k.rawTx = some raw → raw = s

variable {p} {k : KnownTx} {rec : TxRecord} {ans : ConflictAnswers} {spenders : List TxID}
  {release : List Outpoint} {op : Outpoint}

theorem winner_eq_some {r : GetTxResult} (h : r.winner = some rec) : r = .found rec := by
  cases r with
  | found rec' =>
    change (if rec'.status.isMinedClass then some rec' else none) = some rec at h
    split at h
    · rw [Option.some.inj h]
    · cases h
  | _ => cases h

/-- The inputs that the oracle's answers add to the spent ones. -/
theorem mem_findWinnerInputs (ht : ans.Truthful) :
    op ∈ (findWinnerInputs p ans.second spenders).getD []
      ↔ ∃ s ∈ spenders, minedReadable ans spenders s = true ∧ op ∈ (p.ledger s).inputs := by
  have hunread : (spenders.filterMap fun s => (ans.second s).winner).any (·.rawTx.isNone)
      = hasConfirmedUnreadableWinner ans.second spenders := by
    rw [List.any_filterMap]
    rfl
  unfold findWinnerInputs minedReadable
  dsimp only
  rw [hunread]
  cases hasConfirmedUnreadableWinner ans.second spenders with
  | true => simp
  | false =>
    have hmem : op ∈ (spenders.filterMap fun s => (ans.second s).winner).flatMap
        (fun rec => (rec.rawTx.map fun raw => (p.ledger raw).inputs).getD [])
        ↔ ∃ s ∈ spenders, (ans.second s).winner.any (·.rawTx.isSome) = true
            ∧ op ∈ (p.ledger s).inputs := by
      simp only [List.mem_flatMap, List.mem_filterMap]
      constructor
      · rintro ⟨rec, ⟨s, hs, hw⟩, hop⟩
        rcases hraw : rec.rawTx with _ | raw <;> rw [hraw] at hop
        · cases hop
        · obtain rfl := ht.oracle s rec raw (winner_eq_some hw) hraw
          exact ⟨raw, hs, by simp [hw, hraw], hop⟩
      · rintro ⟨s, hs, hany, hop⟩
        obtain ⟨rec, hw, hraw⟩ := (Option.any_eq_true _ _).mp hany
        obtain ⟨raw, hraw⟩ := Option.isSome_iff_exists.mp hraw
        obtain rfl := ht.oracle s rec raw (winner_eq_some hw) hraw
        exact ⟨rec, ⟨raw, hs, hw⟩, by simpa [hraw] using hop⟩
    simp only [Bool.false_or, Bool.not_false, Bool.and_true]
    rw [← hmem]
    split
    · rename_i hnil
      rw [of_decide_eq_true hnil]
      rfl
    · rfl

theorem mem_localWinnerInputs (ht : ans.Truthful) :
    op ∈ (localWinnerInputs p ans.known spenders).getD []
      ↔ ∃ s ∈ spenders, (ans.known s).any (·.rawTx.isSome) = true ∧ op ∈ (p.ledger s).inputs := by
  have hmem : op ∈ (spenders.filterMap fun s => (ans.known s).bind (·.rawTx)).flatMap
      (fun raw => (p.ledger raw).inputs)
      ↔ ∃ s ∈ spenders, (ans.known s).any (·.rawTx.isSome) = true ∧ op ∈ (p.ledger s).inputs := by
    simp only [List.mem_flatMap, List.mem_filterMap]
    constructor
    · rintro ⟨raw, ⟨s, hs, hb⟩, hop⟩
      obtain ⟨k, hk, hraw⟩ := Option.bind_eq_some_iff.mp hb
      obtain rfl := ht.store s k raw hk hraw
      exact ⟨raw, hs, by simp [hk, hraw], hop⟩
    · rintro ⟨s, hs, hany, hop⟩
      obtain ⟨k, hk, hraw⟩ := (Option.any_eq_true _ _).mp hany
      obtain ⟨raw, hraw⟩ := Option.isSome_iff_exists.mp hraw
      obtain rfl := ht.store s k raw hk hraw
      exact ⟨raw, ⟨raw, hs, by simp [hk, hraw]⟩, hop⟩
  rw [← hmem]
  unfold localWinnerInputs
  dsimp only
  split
  · rename_i hnil
    rw [hnil]
    rfl
  · rfl

/-- What is released is what is neither named as spent nor consumed by a spender that was found. -/
theorem mem_of_conflictRelease (ht : ans.Truthful) (h : conflictRelease p k rec ans = .ok release) :
    op ∈ release ↔ op ∈ txInputs p k ∧ op ∉ (p.parseSpendConflictExtra rec.extraInfo).spent
      ∧ ∀ s ∈ conflictSpenders p k rec, resolved ans (conflictSpenders p k rec) s = true →
        op ∉ (p.ledger s).inputs := by
  unfold conflictRelease at h
  dsimp only at h
  split_ifs at h
  cases h
  simp only [filterReleaseInputs, List.mem_filter, List.mem_append, mem_findWinnerInputs ht,
    mem_localWinnerInputs ht, decide_eq_true_eq, not_or, not_exists, not_and, resolved,
    Bool.or_eq_true]
  constructor
  · rintro ⟨hin, ⟨hextra, hmined⟩, hlocal⟩
    exact ⟨hin, hextra, fun s hs hr => hr.elim (hmined s hs) (hlocal s hs)⟩
  · rintro ⟨hin, hextra, hall⟩
    exact ⟨hin, ⟨hextra, fun s hs hr => hall s hs (Or.inl hr)⟩, fun s hs hr =>
        hall s hs (Or.inr hr)⟩

/-- Where a spend conflict releases inputs of the suspect, no named spender that is not terminally
dead consumes one of them, exactly if what a spender consumes of these inputs that is neither found
nor terminally dead is named as spent or consumed by a spender that is found. -/
theorem conflict_release_unspent_iff (p : Provider) (k : KnownTx) (rec : TxRecord)
    (ans : ConflictAnswers) (release : List Outpoint) (ht : ans.Truthful)
    (h : conflictRelease p k rec ans = .ok release) :
    (∀ op ∈ release, ∀ s ∈ conflictSpenders p k rec, op ∈ (p.ledger s).inputs →
      deadSpender ans s = true)
    ↔ ∀ s ∈ conflictSpenders p k rec, resolved ans (conflictSpenders p k rec) s = false →
      deadSpender ans s = false → ∀ op ∈ txInputs p k, op ∈ (p.ledger s).inputs →
        op ∈ (p.parseSpendConflictExtra rec.extraInfo).spent
        ∨ ∃ s' ∈ conflictSpenders p k rec, resolved ans (conflictSpenders p k rec) s' = true
          ∧ op ∈ (p.ledger s').inputs := by
  constructor
  · intro hsafe s hs _ hlive op hin hop
    by_contra hno
    rw [not_or, not_exists] at hno
    have hrel : op ∈ release := (mem_of_conflictRelease ht h).mpr
      ⟨hin, hno.1, fun s' hs' hr hop' => hno.2 s' ⟨hs', hr, hop'⟩⟩
    rw [hsafe op hrel s hs hop] at hlive
    cases hlive
  · intro hcond op hrel s hs hop
    obtain ⟨hin, hextra, hall⟩ := (mem_of_conflictRelease ht h).mp hrel
    by_contra hlive
    have hunres : resolved ans (conflictSpenders p k rec) s = false := by
      by_contra hr
      exact hall s hs (Bool.not_eq_false _ ▸ hr) hop
    rcases hcond s hs hunres (Bool.not_eq_true _ ▸ hlive) op hin hop with he | ⟨s', hs', hr, hop'⟩
    · exact hextra he
    · exact hall s' hs' hr hop'

/-- The suspect spends two coins; `a` spends the first of them too, and `b` the second. -/
def conflictProvider : Provider :=
  { plainProvider .b with
    ledger := fun t =>
      if t = "suspect" then ⟨[⟨"coin", 0⟩, ⟨"coin", 1⟩], [], 0⟩
      else if t = "a" then ⟨[⟨"coin", 0⟩], [], 0⟩
      else ⟨[⟨"coin", 1⟩], [], 0⟩ }

def conflictRow (t : TxID) (st : ProvenTxReqStatus) (rawTx : Option RawTx) : KnownTx :=
  { txid := t, status := st, arcadeStatus := none, wasBroadcast := true, rawTx := rawTx,
    proof := none,
    competingTxs := [], suspectSince := some 0, verifiedRejectedAt := none, rejectReason := none,
    createdAt := 0, updatedAt := 0, lastPolledAt := 0 }

def conflictSuspect : KnownTx := conflictRow "suspect" .suspectFailed (some "suspect")

/-- The suspect is reported as a double spend of both. -/
def conflictRecord : TxRecord := ⟨"suspect", .doubleSpendAttempted, 0, "", ["a", "b"], none⟩

/-- The oracle has seen both spenders, and the wallet knows the first of them, and maybe the
other. -/
def conflictAnswers (other : Option KnownTx) : ConflictAnswers :=
  let seen := fun t => GetTxResult.found ⟨t, .seenOnNetwork, 0, "", [], none⟩
  { first := seen, second := seen
    known := fun t => if t = "a" then some (conflictRow "a" .unconfirmed (some "a")) else other }

theorem conflictAnswers_truthful {other : Option KnownTx} (h : ∀ k ∈ other, k.rawTx = none) :
    (conflictAnswers other).Truthful := by
  refine ⟨fun s rec raw hs hraw => ?_, fun s k raw hs hraw => ?_⟩
  · cases hs
    cases hraw
  · simp only [conflictAnswers] at hs
    split at hs
    · cases hs
      cases hraw
      exact (‹s = "a"›).symm
    · rw [h k hs] at hraw
      cases hraw

theorem conflict_releases_spent_input :
    (conflictAnswers none).Truthful
    ∧ conflictRelease conflictProvider conflictSuspect conflictRecord (conflictAnswers none)
      = .ok [⟨"coin", 1⟩]
    ∧ "b" ∈ conflictSpenders conflictProvider conflictSuspect conflictRecord
    ∧ ⟨"coin", 1⟩ ∈ (conflictProvider.ledger "b").inputs
    ∧ deadSpender (conflictAnswers none) "b" = false :=
  ⟨conflictAnswers_truthful (by simp), by decide⟩

/-- The other spender is known to be dead. -/
def deadAnswers : ConflictAnswers := conflictAnswers (some (conflictRow "b" .doubleSpend none))

theorem conflict_release_unspent_dead :
    conflictRelease conflictProvider conflictSuspect conflictRecord deadAnswers = .ok [⟨"coin", 1⟩]
    ∧ ∀ op ∈ [(⟨"coin", 1⟩ : Outpoint)],
      ∀ s ∈ conflictSpenders conflictProvider conflictSuspect conflictRecord,
        op ∈ (conflictProvider.ledger s).inputs → deadSpender deadAnswers s = true :=
  ⟨by decide, (conflict_release_unspent_iff conflictProvider conflictSuspect conflictRecord
    deadAnswers [⟨"coin", 1⟩] (conflictAnswers_truthful (by simp [conflictRow])) (by decide)).mpr
      (by decide)⟩

end Storage

end ArcadeToolbox
