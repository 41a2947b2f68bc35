import ArcadeToolbox.System.Replays
import ArcadeToolbox.Utxostore.Invariants

/-!
# Coins that were relinquished

`RelinquishOutput` takes the coin out of the inventory, but the store refuses to remove one that is
reserved, spent or frozen, and the refusal is passed over. Such a coin is there when the call has
returned, and the next release of its holder makes it claimable. A coin that was free is gone, and
only a task that mints it brings it back.
-/

namespace ArcadeToolbox

open Txn Uow Storage

/-- The call of the store an operation on the coins is. -/
def CoinOp.storeOp : CoinOp → Option StoreOp
  | .mint ms => some (.mint ms)
  | .spend ops => some (.spend ops true)
  | .pin u r => some (.pin u r)
  | .unpin u r => some (.unpin u r)
  | .releaseReservation u r => some (.releaseReservation u r)
  | .releaseOutpoints r ops => some (.releaseOutpoints r ops)
  | .unspend t ops => some (.unspend t ops)
  | .removeSpentBy t => some (.removeSpentBy t)
  | .removeByMintTx t ops => some (.removeByMintTx t ops)
  | .promote ops tier => some (.promote ops tier)
  | .remove ops force => some (.remove ops force)
  | .freeze ops => some (.freeze ops)
  | .unfreeze ops => some (.unfreeze ops)
  | .reserveOutpoints u r ops => some (.reserveOutpoints u r ops)
  | .call (.claimSmallestSufficient sc r n) => some (.claimSmallestSufficient sc r n)
  | .call (.claimLargestInsufficient sc r n limit) => some (.claimLargestInsufficient sc r n limit)
  | .call (.claimExact sc r n count) => some (.claimExact sc r n count)
  | .call (.releaseReservation u r) => some (.releaseReservation u r)
  | .call (.releaseOutpoints r ops) => some (.releaseOutpoints r ops)
  | .call (.claimableExists _ _) => none
  | .logged _ => none

theorem CoinOp.onInventory_eq (now : Time) (i : Inventory) (c : CoinOp) :
    c.onInventory now i = c.storeOp.elim i fun call => call.apply now i := by
  cases c with
  | call c => cases c <;> rfl
  | _ => rfl

/-- The task may mint a coin. -/
def Task.mints (op : Outpoint) : Task → Bool
  | .processCommit _ _ _ t _ => t = op.txid
  | .internalizeCommit _ plan => plan.txid = op.txid && plan.plans.any fun pl => pl.vout = op.vout
  | .repairCommit k _ _ _ => k.txid = op.txid
  | _ => false

variable {p : Provider} {env : Env} {op : Outpoint} {t : Task} {m m' : Metadata}
  {i : Inventory} {now : Time}

theorem coins_ne_mint {pl : OutboxPayload} {c : CoinOp} (h : OutboxPayload.Coins pl c)
    (ms : List Mint) :
    c ≠ .mint ms := by
  cases h <;> exact fun hc => by cases hc

/-- Nothing else brings a coin back. -/
theorem Handles.get_eq_none {c : CoinOp} (h : Handles p m m' t c) (ht : t.mints op = false)
    (hi : i.get op = none) :
    (c.onInventory now i).get op = none := by
  rw [CoinOp.onInventory_eq]
  rcases hc : c.storeOp with _ | call
  · exact hi
  · refine Inventory.get_apply_eq_none (fun ms hms mint hmint hop => ?_) hi
    obtain rfl : c = .mint ms := by
      subst hms
      cases c with
      | mint ms' =>
        cases hc
        rfl
      | call c => cases c <;> cases hc
      | _ => cases hc
    cases h with
    | plain hp => cases hp
    | abort _ ha => cases ha
    | inline _ ha | drain _ ha => exact coins_ne_mint ha ms rfl
    | release _ ha => cases ha
    | mintChange =>
      simp only [changeMints, List.mem_filterMap, Option.map_eq_some_iff] at hmint
      obtain ⟨o, -, b, -, rfl⟩ := hmint
      simp [Task.mints, ← hop] at ht
    | repair ha =>
      cases ha with
      | mint rows =>
        obtain ⟨o, -, ho⟩ := List.mem_filterMap.mp hmint
        unfold remintRow at ho
        split at ho
        · cases ho
          simp [Task.mints, ← hop] at ht
        · cases ho
    | internalize hpl =>
      obtain rfl := List.mem_singleton.mp hmint
      subst hop
      simp only [Task.mints, internalizedMint, decide_true, Bool.true_and, List.any_eq_false] at ht
      exact ht _ hpl (decide_eq_true rfl)

/-- The coin at an outpoint, if there is one, is free: nothing reserves or freezes it and nothing
has spent it. -/
def Inventory.Unheld (i : Inventory) (op : Outpoint) : Prop := ∀ r ∈ i.get op, r.claimable = true

instance (i : Inventory) (op : Outpoint) : Decidable (i.Unheld op) :=
  inferInstanceAs (Decidable (∀ r ∈ i.get op, r.claimable = true))

theorem get_remove_one (i : Inventory) (op : Outpoint) :
    (i.remove [op] false).2.get op = none ↔ i.Unheld op := by
  have hfree : ∀ r : Row, (Inventory.removeRefusal r.outpoint r).isNone = r.claimable := by
    intro r
    unfold Inventory.removeRefusal Row.claimable
    rcases r.spentBy with _ | w
    · by_cases hb : r.reservedBy = "" <;> cases r.frozen <;> simp [hb]
    · simp
  unfold Inventory.remove Inventory.Unheld
  rw [Inventory.get_drop]
  rcases hg : i.get op with _ | r
  · simp
  · obtain rfl := (Inventory.get_eq_some.mp hg).2
    simp [Option.filter_eq_none_iff, hfree]

/-- After a successful call the coin is gone exactly if it was free. -/
theorem relinquishOutput_get {u : UserID} {basket : String} {s s' : Session Db} {a : Unit}
    (h : relinquishOutput p u basket op s = (.ok a, s')) :
    s'.db.utxo.get op = none ↔ s.db.utxo.Unheld op := by
  obtain ⟨_, s1, hmeta, h⟩ := bind_ok (doUnit_ok h)
  have hsame : s1.db.utxo = s.db.utxo := (metaStmt_wrote (by simp) hmeta).utxo
  obtain ⟨r, s2, hr, h⟩ := bind_ok h
  have hr := attempt_ok hr
  -- a refusal of the batch counts as success, so the removal has run in either case
  have hremoved : r ≠ .error (.utxo .unavailable) ∧ s' = s2 := by
    rcases r with e | _
    · cases e with
      | batch items =>
        cases h
        exact ⟨by simp, rfl⟩
      | _ => cases h
    · cases h
      exact ⟨by simp, rfl⟩
  obtain ⟨hne, rfl⟩ := hremoved
  obtain ⟨now, -, hdb⟩ := utxoStmt_db hne hr
  rw [hdb, ← hsame]
  exact get_remove_one s1.db.utxo op

/-- A step mints a coin that is not there. -/
def MintedAt (p : Provider) (op : Outpoint) (s : System) (l : Step) : Prop :=
  (Code.top s l).any (Task.mints op) = true ∧ s.shared.db.utxo.get op = none
    ∧ ((wallet p).step s l).shared.db.utxo.get op ≠ none

instance (p : Provider) (op : Outpoint) (s : System) (l : Step) : Decidable (MintedAt p op s l) :=
  inferInstanceAs (Decidable (_ ∧ _ ∧ _))

/-- The output that a step relinquishes, if the call succeeds. -/
def relinquished (p : Provider) (s : System) : Step → Option Outpoint
  | .spawn _ => none
  | .run n env =>
    match s.threads[n]?.bind List.head? with
    | some (.relinquish u basket op) =>
      match (relinquishOutput p u basket op ⟨s.shared.db, s.shared.now, env.beats, env.busy⟩).1 with
      | .ok _ => some op
      | .error _ => none
    | _ => none

variable (p) in
/-- After a step a coin that was not there is still not there, unless the step minted it. -/
theorem step_get_eq_none {s : System} (l : Step) (h : s.shared.db.utxo.get op = none) :
    ((wallet p).step s l).shared.db.utxo.get op = none ∨ MintedAt p op s l := by
  rcases Code.step_cases (c := wallet p) s l with ⟨o, -, hs⟩ | ⟨n, env, t, rest, rfl, ht, hs⟩ | hs
  · exact Or.inl (by rwa [hs])
  · by_cases hafter : ((wallet p).step s (.run n env)).shared.db.utxo.get op = none
    · exact Or.inl hafter
    · refine Or.inr ⟨?_, h, hafter⟩
      by_contra hno
      refine hafter ?_
      rw [hs]
      -- every call that such a task makes of the store keeps the coin out
      refine (exec_coins p env t s.shared).keeps (I := fun st : Stock => st.1.get op = none) ?_ h
      rintro now st _ ⟨c, hc, rfl⟩ hst
      refine hc.get_eq_none (Bool.eq_false_iff.mpr fun hm => hno ?_) hst
      simp [Code.top, ht, hm]
  · exact Or.inl (by rwa [hs])

variable (p) in
theorem runs_get_eq_none (ls : List Step) (s : System)
    (hls : (wallet p).Along (fun s l => ¬ MintedAt p op s l) s ls)
    (h : s.shared.db.utxo.get op = none) :
    ((wallet p).runs s ls).shared.db.utxo.get op = none :=
  Code.runs_invariant (I := fun s => s.shared.db.utxo.get op = none)
    (fun _ l hl hs => (step_get_eq_none p l hs).resolve_right hl) ls s hls h

theorem relinquished_ok {s : System} {l : Step} (h : relinquished p s l = some op) :
    ∃ env u basket a s', Code.Runs s l env (.relinquish u basket op)
      ∧ relinquishOutput p u basket op ⟨s.shared.db, s.shared.now, env.beats, env.busy⟩
        = (.ok a, s') := by
  rcases l with o | ⟨n, env⟩
  · cases h
  rcases hn : s.threads[n]? with _ | _ | ⟨t, rest⟩ <;>
    simp only [relinquished, hn, Option.bind_some, Option.bind_none, List.head?_cons,
        List.head?_nil] at h
  all_goals first | cases h | skip
  cases t with
  | relinquish u basket op' =>
    dsimp only at h
    rcases hcall : relinquishOutput p u basket op' ⟨s.shared.db, s.shared.now, env.beats, env.busy⟩
      with ⟨e | a, s'⟩ <;> rw [hcall] at h <;> cases h
    exact ⟨env, u, basket, a, s', ⟨n, rest, rfl, hn⟩, hcall⟩
  | _ => cases h

theorem relinquished_get {s : System} {l : Step} (h : relinquished p s l = some op) :
    ((wallet p).step s l).shared.db.utxo.get op = none ↔ s.shared.db.utxo.Unheld op := by
  obtain ⟨env, u, basket, a, s', hruns, hcall⟩ := relinquished_ok h
  have hrun : (Task.relinquish u basket op).run p env ⟨s.shared.db, s.shared.now,
      env.beats, env.busy⟩
      = (.ok (.go []), s') := bind_of_ok hcall rfl
  have hshared : ((wallet p).step s l).shared
      = ((Task.relinquish u basket op).exec p env s.shared).1 :=
    hruns.step_shared
  rw [hshared, exec_fst, hrun]
  exact relinquishOutput_get hcall

/-- Once an output has been relinquished whose coin was free, no later state has a claimable coin
for it, unless the coin is minted again; and the coin has to be free, or the call leaves it where it
is. -/
theorem relinquished_stays_out (p : Provider) (s : System) (before after : List Step) (l : Step)
    (op : Outpoint) (hcall : relinquished p ((wallet p).runs s before) l = some op)
    (hmint : (wallet p).Along (fun s l => ¬ MintedAt p op s l)
      ((wallet p).runs s (before ++ [l])) after) :
    (((wallet p).runs s (before ++ [l])).shared.db.utxo.get op = none
      ↔ ((wallet p).runs s before).shared.db.utxo.Unheld op)
    ∧ (((wallet p).runs s before).shared.db.utxo.Unheld op →
      ∀ r ∈ ((wallet p).runs s (before ++ [l] ++ after)).shared.db.utxo.get op,
        r.claimable = false) := by
  have hgone : ((wallet p).runs s (before ++ [l])).shared.db.utxo.get op = none
      ↔ ((wallet p).runs s before).shared.db.utxo.Unheld op := by
    rw [Code.runs_concat]
    exact relinquished_get hcall
  refine ⟨hgone, fun hfree r hr => ?_⟩
  rw [Code.runs_append, runs_get_eq_none p after _ hmint (hgone.mpr hfree)] at hr
  cases hr

/-- The payment is relinquished before an action asks for coins. -/
def relinquishFreeSteps : List Step := paidSteps ++ [.spawn (.relinquishOutput 1 "" ⟨"parent", 0⟩)]

/-- An action asks for coins afterwards. -/
def payAgainSteps : List Step :=
  let env := { Env.quiet with reference := "ref" }
  .spawn (.createAction 1 ⟨[], [⟨1000, "script", none⟩], none, false⟩) :: List.replicate
      10 (.run 2 env)

theorem relinquished_stays_out_payment :
    (((wallet (paidProvider .b)).runs System.initial relinquishFreeSteps).shared.db.utxo.get
      ⟨"parent", 0⟩).any Row.claimable = true
    ∧ ∀ r ∈ ((wallet (paidProvider .b)).runs System.initial
        (relinquishFreeSteps ++ [.run 1 Env.quiet] ++ payAgainSteps)).shared.db.utxo.get
          ⟨"parent", 0⟩,
      r.claimable = false := by
  have hfree : ((wallet (paidProvider .b)).runs System.initial
      relinquishFreeSteps).shared.db.utxo.Unheld
      ⟨"parent", 0⟩ := by
    decide +kernel
  exact ⟨by decide +kernel,
      (relinquished_stays_out (paidProvider .b) System.initial relinquishFreeSteps payAgainSteps
    (.run 1 Env.quiet) ⟨"parent", 0⟩ (by decide +kernel) (by decide +kernel)).2 hfree⟩

/-- The coin of the payment is relinquished while an action holds it. -/
def relinquishHeldSteps : List Step :=
  paidSteps ++ createCallSteps ++ [.spawn (.relinquishOutput 1 "" ⟨"parent", 0⟩)]

/-- The action is aborted. -/
def abortAfterSteps : List Step :=
  .spawn (.abortAction 1 "ref") :: List.replicate 3 (.run 3 Env.quiet)

/-- The call succeeds, no step mints the coin again, and the abort of the action makes it
claimable. -/
theorem relinquished_held_claimable :
    relinquished (paidProvider .b)
      ((wallet (paidProvider .b)).runs System.initial relinquishHeldSteps)
      (.run 2 Env.quiet) = some ⟨"parent", 0⟩
    ∧ (wallet (paidProvider .b)).Along
      (fun s l => (Code.top s l).any (Task.mints ⟨"parent", 0⟩) = false)
      ((wallet (paidProvider .b)).runs System.initial (relinquishHeldSteps ++ [.run 2 Env.quiet]))
        abortAfterSteps
    ∧ (((wallet (paidProvider .b)).runs System.initial
        (relinquishHeldSteps ++ [.run 2 Env.quiet] ++ abortAfterSteps)).shared.db.utxo.get
          ⟨"parent", 0⟩).any
      Row.claimable = true := by
  decide +kernel

end ArcadeToolbox
