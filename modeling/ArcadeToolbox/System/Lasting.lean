import ArcadeToolbox.System.Relinquished
import ArcadeToolbox.System.Tiers

/-!
# What every run keeps

Whatever is called, in any order and by any number of callers, in both modes and with any failures:
the coins stay well formed, and of a known transaction nothing is taken back that the network may
rely on.
-/

namespace ArcadeToolbox

open Txn

variable {p : Provider} {env : Env} {t : Task} {s : Shared} {T w : TxID} {op : Outpoint}

theorem sound_exec (h : 0 < s.now ∧ s.db.utxo.Sound) :
    0 < (t.exec p env s).1.now ∧ (t.exec p env s).1.db.utxo.Sound := by
  refine (exec_coins p env t s).invariant (I := fun now c => 0 < now ∧ c.1.Sound)
      (fun hle h => ?_) ?_ h
  · exact ⟨Int.lt_of_lt_of_le h.1 hle, h.2⟩
  · rintro now c _ ⟨op, -, rfl⟩ ⟨hnow, hc⟩
    refine ⟨hnow, ?_⟩
    change (op.onInventory now c.1).Sound
    rw [CoinOp.onInventory_eq]
    rcases op.storeOp with _ | call
    · exact hc
    · exact hc.apply (Int.ne_of_gt hnow) call

/-- The wallet starts after the zero time of the clock. -/
theorem wallet_coins_sound (p : Provider) (start : ℕ) (ls : List Step) :
    ((wallet p).runs ⟨⟨Db.empty, start + 1⟩, []⟩ ls).shared.db.utxo.Sound := by
  have hstart : (0 : ℤ) < start + 1 ∧ Db.empty.utxo.Sound := ⟨Int.natCast_succ_pos start, .empty⟩
  exact (Code.runs_shared (J := fun d : Shared => 0 < d.now ∧ d.db.utxo.Sound) (fun _ _ _ =>
      sound_exec) ls _ hstart).2

def OutboxPayload.unspends (w : TxID) : OutboxPayload → Bool
  | .unspend t _ => t = w
  | _ => false

/-- The tasks that take back what a transaction spent: its release, and the operations that this has
queued. -/
def Task.unspends (w : TxID) (m : Metadata) : Task → Bool
  | .release plan => plan.txid = w
  | .inline ops => ops.any (·.payload.unspends w)
  | .drain _ => m.outbox.any (·.payload.unspends w)
  | _ => false

abbrev SpentBy (w : TxID) (op : Outpoint) (i : Inventory) : Prop :=
  ∀ r ∈ i.get op, r.spentBy = some w

theorem unspends_of_coins {pl : OutboxPayload} {ops : List Outpoint}
    (h : Storage.OutboxPayload.Coins pl (.unspend w ops)) : pl.unspends w = true := by
  cases h
  exact decide_eq_true rfl

theorem Handles.spentBy {m m' : Metadata} {c : CoinOp} {now : Time} {i : Inventory}
    (h : Handles p m m' t c)
    (hm : i.get op = none → t.mints op = false) (hu : t.unspends w m = false)
    (hi : SpentBy w op i) :
    SpentBy w op (c.onInventory now i) := by
  intro r' hr'
  rcases hr : i.get op with _ | r
  · rw [h.get_eq_none (hm hr) hr] at hr'
    cases hr'
  · rw [CoinOp.onInventory_eq] at hr'
    rcases hc : c.storeOp with _ | call <;> rw [hc] at hr'
    · exact hi r' hr'
    · refine ((Inventory.rowChange_apply hr hr').spentBy (hi r hr)).resolve_right ?_
      rintro ⟨-, ops, rfl, -⟩
      obtain rfl : c = .unspend w ops := by
        cases c with
        | call c => cases c <;> cases hc
        | _ => cases hc <;> rfl
      cases h with
      | plain hp => cases hp
      | abort _ ha => cases ha
      | repair ha => cases ha
      | release _ ha =>
        cases ha
        simp [Task.unspends] at hu
      | inline hq ha =>
        exact Bool.eq_false_iff.mp hu (List.any_eq_true.mpr ⟨_, hq, unspends_of_coins ha⟩)
      | drain he ha =>
        exact Bool.eq_false_iff.mp hu (Table.any_eq_true.mpr ⟨_, he, unspends_of_coins ha⟩)

/-- The task can put the coin there anew: it mints it while it is not there. A repair may have
removed it before. -/
def Task.remints (op : Outpoint) (i : Inventory) : Task → Bool
  | .repairCommit k _ _ _ => k.txid = op.txid
  | t => t.mints op && (i.get op).isNone

theorem get_mint_isSome {now : Time} (ms : List Mint) {i : Inventory}
    (h : (i.get op).isSome = true) :
    ((i.mint now ms).2.get op).isSome = true := by
  refine Inventory.mint_induction (I := fun s => (s.get op).isSome = true) (fun m s hs => ?_) ms h
  rcases Inventory.mintOne_cases now m s with ⟨he, -⟩ | ⟨-, -, he⟩ <;> rw [he]
  · exact hs
  · obtain ⟨r, hr⟩ := Option.isSome_iff_exists.mp hs
    obtain ⟨hmem, hop⟩ := Inventory.get_eq_some.mp hr
    exact Option.isSome_iff_exists.mpr ⟨r,
        Inventory.get_eq_some.mpr ⟨Table.mem_insert.mpr (Or.inl hmem), hop⟩⟩

/-- The other two tasks that mint the coin remove nothing. -/
theorem Handles.get_isSome {m m' : Metadata} {c : CoinOp} {now : Time} {i : Inventory}
    (h : Handles p m m' t c)
    (hm : t.mints op = true) (ht : ∀ k spender row proof, t ≠ .repairCommit k spender row proof)
    (hi : (i.get op).isSome = true) : ((c.onInventory now i).get op).isSome = true := by
  have hplain : c.Plain → ((c.onInventory now i).get op).isSome = true := by
    intro hp
    cases c with
    | promote | freeze | unfreeze =>
      refine Eq.trans ?_ hi
      exact (congrArg Option.isSome Inventory.get_modify).trans Option.isSome_map
    | _ => cases hp
  cases h with
  | plain hp => exact hplain hp
  | pin =>
    change ((Inventory.setPinned _ _ true i).2.get op).isSome = true
    unfold Inventory.setPinned
    split
    · exact hi
    · exact (congrArg Option.isSome Inventory.get_modify).trans (Option.isSome_map.trans hi)
  | mintChange | internalize => exact get_mint_isSome _ hi
  | repair => exact absurd rfl (ht _ _ _ _)
  | _ => cases hm

theorem spentBy_exec (hre : t.remints op s.db.utxo = false)
    (hu : t.unspends w s.db.metadata = false)
    (h : SpentBy w op s.db.utxo) : SpentBy w op (t.exec p env s).1.db.utxo := by
  rcases hm : t.mints op with _ | _
  · refine (exec_coins p env t s).keeps (I := fun st : Stock => SpentBy w op st.1) ?_ h
    rintro now st _ ⟨c, hc, rfl⟩ h
    exact hc.spentBy (fun _ => hm) hu h
  · -- the coin is there, and stays there while the task runs
    have hrepair : ∀ k spender row proof, t ≠ .repairCommit k spender row proof := by
      rintro k spender row proof rfl
      exact Bool.eq_false_iff.mp hre hm
    have hthere : (s.db.utxo.get op).isSome = true := by
      cases t <;> first
        | exact absurd rfl (hrepair _ _ _ _)
        | simpa [Task.remints, hm] using hre
    refine ((exec_coins p env t s).keeps
      (I := fun st : Stock => (st.1.get op).isSome = true ∧ SpentBy w op st.1) ?_ ⟨hthere, h⟩).2
    rintro now st _ ⟨c, hc, rfl⟩ ⟨hi, h⟩
    refine ⟨hc.get_isSome hm hrepair hi, hc.spentBy (fun hnone => ?_) hu h⟩
    rw [hnone] at hi
    cases hi

/-- The spend of a coin is taken back by the release of the spender alone, whatever else is
called. -/
theorem spend_kept (p : Provider) (w : TxID) (op : Outpoint) (s : System) (ls : List Step)
    (hls : (wallet p).Along (fun s l => ∀ t ∈ Code.top s l,
      t.remints op s.shared.db.utxo = false ∧ t.unspends w s.shared.db.metadata = false) s ls)
    (h : SpentBy w op s.shared.db.utxo) : SpentBy w op ((wallet p).runs s ls).shared.db.utxo := by
  refine Code.runs_invariant (I := fun s => SpentBy w op s.shared.db.utxo)
    (Code.shared_step (J := fun d : Shared => SpentBy w op d.db.utxo) fun s l env t hok hr h => ?_)
    ls s hls h
  exact spentBy_exec (hok t hr.top).1 (hok t hr.top).2 h

theorem spend_kept_seen :
    let s := (wallet (paidProvider .a)).runs System.initial sentChildSteps
    let s' := (wallet (paidProvider .a)).runs s (seenThenMinedSteps.take 3)
    (s'.shared.db.utxo.get ⟨"parent", 0⟩).isSome = true ∧ SpentBy "child" ⟨"parent",
        0⟩ s'.shared.db.utxo :=
  ⟨by decide +kernel, spend_kept _ "child" ⟨"parent",
      0⟩ _ _ (by decide +kernel) (by decide +kernel)⟩

/-- How a known transaction is found later: the row is the one that was there, broadcast if it was,
off the send paths if it was, and its history goes on. -/
structure Life.Onward (L L' : Life) : Prop where
  row : ∀ k, L.row = some k → ∃ k', L'.row = some k'
      ∧ (k.wasBroadcast = true → k'.wasBroadcast = true)
  settled : L.Settled → L'.Settled
  history : L.history <+: L'.history

theorem Life.onward_refl (L : Life) : L.Onward L := ⟨fun k hk => ⟨k, hk, id⟩, id, List.prefix_rfl⟩

theorem Life.Onward.trans {L L' L'' : Life} (h : L.Onward L') (h' : L'.Onward L'') :
    L.Onward L'' := by
  refine ⟨fun k hk => ?_, fun hs => h'.settled (h.settled hs), h.history.trans h'.history⟩
  obtain ⟨k', hk', hb⟩ := h.row k hk
  obtain ⟨k'', hk'', hb'⟩ := h'.row k' hk'
  exact ⟨k'', hk'', fun h => hb' (hb h)⟩

theorem Life.Step.onward {A : LifeOp → Prop} {now : Time} {L L' : Life} (hA : ∀ o, A o → o.Lawful)
    (h : Life.Step T A now L L') : L.Onward L' := by
  refine ⟨fun k hk => ?_, Life.Settled.step hA h, ?_⟩
  · cases h with
    | note => exact ⟨k, hk, id⟩
    | write | store | credit =>
      cases hk
      exact ⟨_, rfl, wasBroadcast_edit⟩
    | storeNew | creditNew => cases hk
  · cases h <;> first | exact List.prefix_append _ _ | exact List.prefix_rfl

theorem exec_onward (T : TxID) :
    (s.db.metadata.life T).Onward ((t.exec p env s).1.db.metadata.life T) :=
  (exec_life p env t s T).keeps (I := (s.db.metadata.life T).Onward)
    (fun hs h => h.trans (hs.onward fun _ => Task.Touches.lawful)) (Life.onward_refl _)

theorem known_tx_onward (p : Provider) (s : System) (ls : List Step) (T : TxID) :
    (s.shared.db.metadata.life T).Onward (((wallet p).runs s ls).shared.db.metadata.life T) :=
  Code.runs_shared (J := fun d : Shared =>
      (s.shared.db.metadata.life T).Onward (d.db.metadata.life T))
    (fun _ _ _ h => h.trans (exec_onward T)) ls s (Life.onward_refl _)

end ArcadeToolbox
