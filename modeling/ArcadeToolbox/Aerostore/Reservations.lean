import ArcadeToolbox.Aerostore.Amid
import ArcadeToolbox.Sqlstore.Reserve

/-!
# Reserving named coins among other clients

The Aerospike inventory has no transaction over several records: `ReserveOutpoints` stamps one coin
after the other and hands back what it has won if one of them is refused. Other clients may get in
between at any point. A coin that was held for the token before is never handed back; and one that
is held after a call that failed was held before, or another client took it for the same token, or
its release was refused because of a pin.
-/

namespace ArcadeToolbox.Aerostore

open Txn Prog

/-- The release by which a call hands the coin back is not refused because of a pin. -/
def Compensated (op : Outpoint) (R : Token) (c : Call) (s : Server) : Prop :=
  ∀ u, c = .server (.operate op (.release u R false)) → ∀ r, s.get? op = some r →
    r.resBy = some R → r.spentBy = none → r.pinned = false

section Steps

variable {index : ℕ → List Record → List Record} {cfg : Config} {now : Time} {Φ : Request → Prop}
  {ok : Call → Server → Prop} {I : Server → Prop} {u : UserID} {R : Token} {op : Outpoint}
  {T : UserID → Option Time → Prop}

/-- The verdict on the record of the outpoint. -/
def verdict (u : UserID) (R : Token) (op : Outpoint) (s : Server) : Store.Classified :=
  match s.get? op with
  | none => .refused (.notFound op)
  | some rec => Store.classifyRow u R op (recordToUTXO rec)

theorem amid_classifyForReserve (hI : Stable Φ I) :
    Amid index cfg now Φ ok I (Store.classifyForReserve u R op) fun c s =>
      c = verdict u R op s ∧ I s := by
  refine amid_bind (amid_getRecord hI op) fun rec => ?_
  rcases rec with _ | r
  · exact amid_pure fun s hs => ⟨by rw [verdict, ← hs.1], hs.2⟩
  · exact amid_pure fun s hs => ⟨by rw [verdict, ← hs.1], hs.2⟩

theorem outpoint_of_free {s : Server} {v : Utxo} (h : verdict u R op s = .free v) :
    v.outpoint = op := by
  unfold verdict at h
  rcases hr : s.get? op with _ | r <;> simp only [hr] at h
  · cases h
  · have hop : r.outpoint = op := (Table.get?_eq_some.mp hr).2
    unfold Store.classifyRow at h
    repeat' split at h
    all_goals cases h
    exact hop

theorem operate_lost {s : Server} {w : RecordOp} (h : (s.operate op w).1 ≠ .ok) :
    (s.operate op w).2 = s := by
  unfold Server.operate at h ⊢
  rcases hr : s.get? op with _ | r
  · rfl
  · simp only [hr] at h ⊢
    split_ifs at h ⊢ with hg
    · exact absurd rfl h
    · rfl

/-- One coin: it is refused, or found held, or stamped, and after a lost race with a coin that looks
free again the call gives up. -/
theorem amid_reserveOutpointOne (hI : Stable Φ I) {Q : Store.ReserveResult → Server → Prop}
    (hrefused : ∀ e s, I s → Q (.refused e) s) (hfatal : ∀ e s, I s → Q (.fatal e) s)
    (hsatisfied : ∀ s, I s → verdict u R op s = .satisfied → Q .satisfied s)
    (hwon : ∀ s (v : Utxo), I s → v.outpoint = op →
      (s.operate op (.reserveOutpoint u R now)).1 = .ok →
      Q (.won v) (s.operate op (.reserveOutpoint u R now)).2) :
    Amid index cfg now Φ ok I (Store.reserveOutpointOne now u R op) Q := by
  refine amid_bind (amid_classifyForReserve hI) fun c => ?_
  rcases c with v | _ | e
  · -- the coin looked free, which says nothing about it when the stamp arrives
    by_cases hv : v.outpoint = op
    · subst hv
      refine amid_bind (J := fun res s =>
          (res = .ok → Q (.won { v with reservedBy := R, reservedAt := now }) s)
        ∧ (res ≠ .ok → I s)) (amid_weaken (amid_operate hI fun s hs _ => ?_) (fun s hs =>
            hs.2) fun _ _ h => h) fun res => ?_
      · exact ⟨fun hres => hwon s _ hs rfl hres, fun hres =>
          (congrArg I (operate_lost hres)).mpr hs⟩
      · rcases res
        · exact amid_pure fun s hs => hs.1 rfl
        all_goals
          refine amid_bind (amid_weaken (amid_classifyForReserve hI) (fun s hs => hs.2 (by simp))
              fun _ _ h => h) fun c => ?_
          rcases c with v' | _ | e
          · exact amid_pure fun s hs => hfatal _ s hs.2
          · exact amid_pure fun s hs => hsatisfied s hs.2 hs.1.symm
          · exact amid_pure fun s hs => hrefused e s hs.2
    · intro st hs
      exact absurd (outpoint_of_free hs.1.symm) hv
  · exact amid_pure fun s hs => hsatisfied s hs.2 hs.1.symm
  · exact amid_pure fun s hs => hrefused e s hs.2

/-- The release of what was won, one coin after the other. -/
theorem amid_undoReserveOutpoints {J : List Utxo → Server → Prop} (hJ : ∀ l, Stable Φ (J l))
    (hrelease : ∀ v l s, J (v :: l) s → ok (.server (.operate v.outpoint (.release v R false))) s →
      J l (s.operate v.outpoint (.release v R false)).2) (won : List Utxo) :
    Amid index cfg now Φ ok (J won) (Store.undoReserveOutpoints R won) fun _ => J [] := by
  refine amid_bind (amid_forEach (fun v l => ?_) won) fun _ => amid_pure fun _ hs => hs
  refine amid_bind (J := fun _ => J l) (amid_operate (hJ _) (hrelease v l)) fun res => ?_
  rcases res
  · exact amid_bind (amid_noteClaimableAllTiers (hJ l) v) fun _ => amid_pure fun _ hs => hs
  · exact amid_pure fun _ hs => hs
  · exact amid_pure fun _ hs => hs

/-- What is known after one coin, with what is known of the coins left, the errors and the coins
won. -/
def Onward (J : List Outpoint → List UtxoErr → List Utxo → Server → Prop) (op : Outpoint)
    (ops : List Outpoint)
    (errs : List UtxoErr) (won : List Utxo) : Store.ReserveResult → Server → Prop
  | .won v => J ops errs (won ++ [v])
  | .satisfied => J ops errs won
  | .refused e => J ops (errs ++ [e]) won
  | .fatal _ => J (op :: ops) errs won

/-- The loop over the coins. -/
theorem amid_reserveEach {J : List Outpoint → List UtxoErr → List Utxo → Server → Prop}
    {Q : List UtxoErr → Server → Prop} (hJ : ∀ ops errs won, Stable Φ (J ops errs won))
    (hrefused : ∀ op ops errs won e s, J (op :: ops) errs won s → J ops (errs ++ [e]) won s)
    (hsatisfied : ∀ op ops errs won s, J (op :: ops) errs won s → verdict u R op s = .satisfied →
      J ops errs won s)
    (hwon : ∀ op ops errs won s (v : Utxo), J (op :: ops) errs won s → v.outpoint = op →
      (s.operate op (.reserveOutpoint u R now)).1 = .ok →
      J ops errs (won ++ [v]) (s.operate op (.reserveOutpoint u R now)).2)
    (hdone : ∀ won s, J [] [] won s → Q [] s)
    (hundo : ∀ ops errs won errs', errs' ≠ [] →
      Amid index cfg now Φ ok (J ops errs won) (Store.undoReserveOutpoints R won) fun _ =>
        Q errs') :
    ∀ ops errs won, Amid index cfg now Φ ok (J ops errs won)
      (Store.reserveEach now u R ops errs won) Q := by
  intro ops
  induction ops with
  | nil =>
    intro errs won
    unfold Store.reserveEach
    split_ifs with herrs
    · exact amid_bind (hundo [] errs won errs herrs) fun _ => amid_pure fun _ hs => hs
    · obtain rfl := not_not.mp herrs
      exact amid_pure (hdone won)
  | cons op ops ih =>
    intro errs won
    refine amid_bind (J := Onward J op ops errs won)
        (amid_reserveOutpointOne (hJ _ _ _) (hrefused op ops errs won)
      (fun _ _ hs => hs) (hsatisfied op ops errs won) (hwon op ops errs won)) fun res => ?_
    rcases res with v | _ | e | e
    · exact ih errs (won ++ [v])
    · exact ih errs won
    · exact ih (errs ++ [e]) won
    · exact amid_bind (hundo _ _ _ [e] (List.cons_ne_nil e [])) fun _ => amid_pure fun _ hs => hs

theorem Stable.or_const (h : Stable Φ I) (K : Prop) :
    Stable Φ fun s => I s ∨ K :=
  fun q hq s hs => hs.imp_left (h q hq s)

theorem stable_not_held : Stable (fun q => q.takes op R = false) fun s => ¬ s.Held R op :=
  fun _ hq _ hs => Server.not_held_step hs hq

theorem not_held_release {s : Server} {v : Utxo}
    (h : Compensated op R (.server (.operate op (.release v R false))) s) :
    ¬ (s.operate op (.release v R false)).2.Held R op := by
  rintro ⟨r', hr', hR, hs, -⟩
  rcases hr : s.get? op with _ | r
  · simp only [Server.operate, hr] at hr'
    cases hr'
  · by_cases hg : (RecordOp.release v R false).guard r = true
    · rw [Server.get?_operate hr hg, if_pos rfl] at hr'
      rw [← Option.some.inj hr'] at hR
      cases hR
    · -- a guard that is lost says that the hold is gone, or that the coin is spent or pinned
      simp only [Server.operate, hr, hg, Bool.false_eq_true, if_false] at hr'
      obtain rfl := Option.some.inj hr'
      exact hg (by simp [RecordOp.guard, hR, hs, h v rfl r hr hR hs])

/-- A coin that was not held is held only while it is among those that were won. -/
theorem amid_reserveEach_failure (ops : List Outpoint) (errs : List UtxoErr) (won : List Utxo) :
    Amid index cfg now (fun q => q.takes op R = false) (Compensated op R)
      (fun s => ¬ s.Held R op ∨ op ∈ won.map (·.outpoint)) (Store.reserveEach now u R ops errs won)
      fun errs' s => errs' ≠ [] → ¬ s.Held R op := by
  refine amid_reserveEach (J := fun _ _ won s => ¬ s.Held R op ∨ op ∈ won.map Utxo.outpoint)
    (fun _ _ _ => stable_not_held.or_const _) (fun _ _ _ _ _ _ hs => hs) (fun _ _ _ _ _ hs _ => hs)
    (fun op' _ _ won s v hs hv _ => ?_) (fun _ _ _ he => absurd rfl he) (fun _ _ won _ _ =>
        ?_) ops errs won
  · rw [List.map_append, List.mem_append]
    by_cases he : op' = op
    · exact .inr (.inr (List.mem_singleton.mpr (hv.trans he).symm))
    · refine hs.imp (fun hs => ?_) .inl
      exact Server.not_held_step (q := .operate op' (.reserveOutpoint u R now)) hs
          (by simp [Request.takes, he])
  · refine amid_weaken (amid_undoReserveOutpoints (J := fun l s => ¬ s.Held R op
      ∨ op ∈ l.map (·.outpoint))
      (fun _ => stable_not_held.or_const _) (fun v l s hs hok => ?_) won) (fun _ h => h)
      fun _ _ hs _ => hs.resolve_right List.not_mem_nil
    rcases hs with hs | hop
    · exact .inl (Server.not_held_step (q := .operate v.outpoint (.release v R false)) hs rfl)
    · rcases List.mem_cons.mp hop with rfl | hop
      · exact .inl (not_held_release hok)
      · exact .inr hop

theorem stable_holding (K : Prop) : Stable (fun q => q.letsGo op = false) fun s => K ∧ s.Opens
    ∧ s.Holding R T op :=
  fun q hq _ hs => ⟨hs.1, hs.2.1.step q, hs.2.2.step hs.2.1 hq⟩

theorem ne_of_won {s : Server} (ho : s.Opens) (h : s.Holding R T op) {op' : Outpoint} {R' : Token}
    (hok : (s.operate op' (.reserveOutpoint u R' now)).1 = .ok) : op' ≠ op := by
  rintro rfl
  obtain ⟨r, hr, hR, -, -⟩ := h
  have hclosed := (ho op' r hr).claimKey_none hR
  simp [Server.operate, hr, RecordOp.guard, hclosed] at hok

/-- A coin that was held before the call is held after it, since the same time. -/
theorem amid_reserveEach_kept (ops : List Outpoint) (errs : List UtxoErr) (won : List Utxo) :
    Amid index cfg now (fun q => q.letsGo op = false) ok
      (fun s => op ∉ won.map (·.outpoint) ∧ s.Opens ∧ s.Holding R T op)
      (Store.reserveEach now u R ops errs won)
      fun _ s => s.Holding R T op := by
  refine amid_reserveEach (J := fun _ _ won s => op ∉ won.map Utxo.outpoint ∧ s.Opens
      ∧ s.Holding R T op)
    (Q := fun _ s => s.Holding R T op) (fun _ _ _ => stable_holding _) (fun _ _ _ _ _ _ hs =>
        hs) (fun _ _ _ _ _ hs _ => hs)
    (fun op' _ _ won s v hs hv hok => ⟨?_, ?_⟩) (fun _ _ hs => hs.2.2) (fun _ _ won _ _ =>
        ?_) ops errs won
  · have hne := ne_of_won hs.2.1 hs.2.2 hok
    rw [List.map_append, List.mem_append, not_or, List.map_singleton, List.mem_singleton, hv]
    exact ⟨hs.1, Ne.symm hne⟩
  · exact (stable_holding True (.operate op' (.reserveOutpoint u R now)) rfl s ⟨trivial, hs.2⟩).2
  · refine amid_weaken (amid_undoReserveOutpoints (J := fun l s => op ∉ l.map (·.outpoint) ∧ s.Opens
      ∧ s.Holding R T op)
      (fun _ => stable_holding _) (fun v l s hs _ => ?_) won) (fun _ h => h) fun _ _ hs => hs.2.2
    have hne := not_or.mp (mt List.mem_cons.mpr hs.1)
    exact stable_holding _ (.operate v.outpoint (.release v R false)) (by simp [Request.letsGo,
        Ne.symm hne.1]) s
      ⟨hne.2, hs.2⟩

theorem holding_of_satisfied {s : Server} (hR : R ≠ "") (h : verdict u R op s = .satisfied) :
    s.Holding R (fun u' _ => u' = u) op := by
  unfold verdict at h
  rcases hr : s.get? op with _ | r <;> simp only [hr] at h
  · cases h
  · unfold Store.classifyRow at h
    split at h
    · cases h
    · rename_i hu
      rcases hs : (recordToUTXO r).spentBy with _ | w <;> simp only [hs] at h
      · split_ifs at h with h1 h2 h3
        have hres : r.resBy = some R := by
          rcases hb : r.resBy with _ | R'
          · exact absurd (h3.symm.trans (by simp [recordToUTXO, hb])) hR
          · exact congrArg some (by simpa [recordToUTXO, hb] using h3)
        exact ⟨r, hr, hres, hs, not_not.mp hu⟩
      · cases h

theorem holding_of_won {s : Server} (ho : s.Opens)
    (h : (s.operate op (.reserveOutpoint u R now)).1 = .ok) :
    (s.operate op (.reserveOutpoint u R now)).2.Holding R (fun u' _ => u' = u) op := by
  rcases hr : s.get? op with _ | r
  · simp [Server.operate, hr] at h
  · by_cases hg : (RecordOp.reserveOutpoint u R now).guard r = true
    · have hkey : r.claimKey.isSome = true ∧ r.userID = u := by simpa [RecordOp.guard] using hg
      refine ⟨(RecordOp.reserveOutpoint u R now).effect r, ?_, rfl, (ho op r hr hkey.1).2.1, hkey.2⟩
      rw [Server.get?_operate hr hg, if_pos rfl]
    · simp [Server.operate, hr, hg] at h

/-- Either something has been refused, or the coin is yet to be looked at, or it is held. -/
theorem amid_reserveEach_success (hR : R ≠ "") (ops : List Outpoint) (errs : List UtxoErr)
    (won : List Utxo) :
    Amid index cfg now (fun q => q.letsGo op = false) ok
      (fun s => s.Opens ∧ (s.Holding R (fun u' _ => u' = u) op ∨ errs ≠ [] ∨ op ∈ ops))
      (Store.reserveEach now u R ops errs won)
      fun errs' s => errs' = [] → s.Holding R (fun u' _ => u' = u) op := by
  refine amid_reserveEach
    (J := fun ops errs _ s => s.Opens ∧ (s.Holding R (fun u' _ => u' = u) op
        ∨ errs ≠ [] ∨ op ∈ ops))
    (fun _ _ _ q hq s hs => ⟨hs.1.step q, hs.2.imp_left fun h => h.step hs.1 hq⟩)
    (fun _ _ _ _ _ _ hs => ⟨hs.1, .inr (.inl (by simp))⟩) (fun op' _ _ _ s hs hv => ⟨hs.1, ?_⟩)
    (fun op' _ _ _ s v hs _ hok => ⟨hs.1.step (.operate op' (.reserveOutpoint u R now)), ?_⟩)
    (fun _ _ hs _ => hs.2.resolve_right fun h => h.elim (absurd rfl) List.not_mem_nil)
    (fun _ _ _ _ he => ?_) ops errs won
  · refine hs.2.elim .inl fun h => h.elim (fun h => .inr (.inl h)) fun h => ?_
    rcases List.mem_cons.mp h with rfl | h
    · exact .inl (holding_of_satisfied hR hv)
    · exact .inr (.inr h)
  · rcases hs.2 with h | h | h
    · exact .inl (h.step (q := .operate op' (.reserveOutpoint u R now)) hs.1 rfl)
    · exact .inr (.inl h)
    · rcases List.mem_cons.mp h with rfl | h
      · exact .inl (holding_of_won hs.1 hok)
      · exact .inr (.inr h)
  · exact fun _ _ _ _ herrs => absurd herrs he

/-- The coin of an outpoint, as the store returns it. -/
def Backend.coin (b : Backend) (op : Outpoint) : Option Utxo := (b.server.get? op).map recordToUTXO

theorem heldFor_recordToUTXO {r : Record} :
    (recordToUTXO r).HeldFor R ↔ R ≠ "" ∧ r.resBy = some R ∧ r.spentBy = none := by
  refine and_congr_right fun hR => and_congr_left fun _ => ?_
  rcases hb : r.resBy with _ | R'
  · simp [recordToUTXO, hb, Ne.symm hR]
  · simp [recordToUTXO, hb]

variable {ops : List Outpoint} {b : Backend} {moves : List (List Request)}

theorem held_of_coin {c : Utxo} (hc : b.coin op = some c) (h : c.HeldFor R) :
    b.server.Held R op := by
  obtain ⟨r, hr, rfl⟩ := Option.map_eq_some_iff.mp hc
  obtain ⟨-, hR, hs⟩ := heldFor_recordToUTXO.mp h
  exact ⟨r, hr, hR, hs, trivial⟩

theorem Server.Holding.coin (hR : R ≠ "")
    (h : b.server.Holding R T op) : ∃ c r, b.coin op = some c ∧ c = recordToUTXO r ∧ c.HeldFor R
      ∧ r.resBy = some R ∧ T r.userID r.resAt := by
  obtain ⟨r, hr, hres, hs, hT⟩ := h
  exact ⟨recordToUTXO r, r, by rw [Backend.coin, hr]; rfl, rfl,
      heldFor_recordToUTXO.mpr ⟨hR, hres, hs⟩, hres, hT⟩

/-- The time of a hold, for one that began at the same time. -/
theorem reservedAt_recordToUTXO {r r0 : Record} (hR : r.resBy = some R) (hR0 : r0.resBy = some R)
    (h : r.resAt = r0.resAt) : (recordToUTXO r).reservedAt = (recordToUTXO r0).reservedAt := by
  simp only [recordToUTXO, hR, hR0, h]

theorem reserveOutpoints_allOrNothing (ho : b.server.Opens) :
    AllOrNothing (fun op => ∀ qs ∈ moves, ∀ q ∈ qs, q.letsGo op = false)
      (fun op => (∀ qs ∈ moves, ∀ q ∈ qs, q.takes op R = false)
        ∧ ∀ cs ∈ arrivals (Backend.exec index cfg now) Backend.disturb
          (Store.reserveOutpoints now u R ops) (b, moves),
          Compensated op R cs.1 cs.2.server)
      u R ops b.coin
      ((Store.reserveOutpoints now u R ops).run (amid (Backend.exec index cfg now) Backend.disturb)
        (b, moves)).2.1.coin
      ((Store.reserveOutpoints now u R ops).run (amid (Backend.exec index cfg now) Backend.disturb)
        (b, moves)).1 := by
  unfold Store.reserveOutpoints
  rcases hv : validateReserveOutpoints R ops with _ | e
  · have hR := validateReserveOutpoints_eq_none hv
    refine ⟨fun herrs op hop hkept => ?_, fun op hkept c0 hc0 hheld => ?_,
        fun herrs op hfresh c hc hheld => ?_⟩
    · have hrun : Amid index cfg now (fun q => q.letsGo op = false) (fun _ _ => True) _
          (Store.reserveEach now u R ops.eraseDups [] []) fun errs s => errs = [] →
              s.Holding R (fun u' _ => u' = u) op :=
        amid_reserveEach_success hR _ _ _
      have hend := hrun (b, moves) ⟨ho, .inr (.inr (List.mem_eraseDups.mpr hop))⟩ hkept (fun _ _ =>
          trivial) herrs
      obtain ⟨c, r, hc, rfl, hheld, -, hu⟩ := Server.Holding.coin hR hend
      exact ⟨_, hc, hu, hheld⟩
    · obtain ⟨r0, hr0, rfl⟩ := Option.map_eq_some_iff.mp hc0
      obtain ⟨-, hR0, hs0⟩ := heldFor_recordToUTXO.mp hheld
      have hrun : Amid index cfg now (fun q => q.letsGo op = false) (fun _ _ => True) _
          (Store.reserveEach now u R ops.eraseDups [] []) fun _ s =>
              s.Holding R (fun _ t => t = r0.resAt) op :=
        amid_reserveEach_kept _ _ _
      have hend := hrun (b, moves) ⟨List.not_mem_nil, ho, r0, hr0, hR0, hs0,
          rfl⟩ hkept fun _ _ => trivial
      obtain ⟨c, r, hc, rfl, hheld, hres, hT⟩ := Server.Holding.coin hR hend
      exact ⟨_, hc, hheld, reservedAt_recordToUTXO hres hR0 hT⟩
    · by_contra hnone
      have hnot : ¬ b.server.Held R op := by
        rintro ⟨r, hr, hres, hs, -⟩
        exact hnone ⟨recordToUTXO r, by rw [Backend.coin, hr]; rfl,
            heldFor_recordToUTXO.mpr ⟨hR, hres, hs⟩⟩
      have hrun : Amid index cfg now (fun q => q.takes op R = false) (Compensated op R) _
          (Store.reserveEach now u R ops.eraseDups [] []) fun errs s => errs ≠ [] → ¬ s.Held R op :=
        amid_reserveEach_failure _ _ _
      exact hrun (b, moves) (.inl hnot) hfresh.1 hfresh.2 herrs (held_of_coin hc hheld)
  · exact allOrNothing_refused (List.cons_ne_nil e [])

theorem run_reserveOutpointOne_foreign {st : Backend × List (List Request)}
    (h : ∀ r, (met Backend.disturb st).server.get? op = some r → r.userID ≠ u) :
    ((Store.reserveOutpointOne now u R op).run
      (amid (Backend.exec index cfg now) Backend.disturb) st).1
      = .refused (.notFound op) := by
  unfold Store.reserveOutpointOne Store.classifyForReserve
  rw [run_bind, run_bind]
  have hget : ((Store.getRecord op).run (amid (Backend.exec index cfg now) Backend.disturb) st).1
      = (met Backend.disturb st).server.get? op := rfl
  rw [hget]
  rcases hr : (met Backend.disturb st).server.get? op with _ | r
  · rfl
  · have hu : (recordToUTXO r).userID ≠ u := h r hr
    simp only [Store.classifyRow, if_pos hu]
    rfl

end Steps

/-- `ReserveOutpoints` takes all of the named coins or none, in each of the stores: in memory, in
SQL with the rows as they were read under their locks, and on Aerospike from every state that
requests lead to, whatever requests of other clients arrive between those of the call. And whether a
coin of another user is there makes no difference. -/
theorem reserveOutpoints_all_or_nothing (now : Time) (u : UserID) (R : Token)
    (ops : List Outpoint) :
    (∀ s : Inventory, AllOrNothing (fun _ => True) (fun _ => True) u R ops (fun op =>
      (s.get op).map (·.toUtxo))
        (fun op => ((s.reserveOutpoints now u R ops).2.get op).map (·.toUtxo))
        (s.reserveOutpoints now u R ops).1
      ∧ ∀ t, Inventory.Alike u s t → (t.reserveOutpoints now u R ops).1
        = (s.reserveOutpoints now u R ops).1)
    ∧ (∀ read t, Sqlstore.Locked read ops t →
      AllOrNothing (fun _ => True) (fun _ => True) u R ops (fun op => (t.get? op).map (·.toUtxo))
        (fun op => ((Sqlstore.reserveOutpoints now u R ops read t).2.get? op).map (·.toUtxo))
        (Sqlstore.reserveOutpoints now u R ops read t).1
      ∧ Sqlstore.reserveOutpoints now u R ops (fun op => (read op).filter fun r => r.userID = u) t
        = Sqlstore.reserveOutpoints now u R ops read t)
    ∧ ∀ index cfg (b : Backend) pre moves, b.server = Server.run ∅ pre →
      AllOrNothing (fun op => ∀ qs ∈ moves, ∀ q ∈ qs, q.letsGo op = false)
        (fun op => (∀ qs ∈ moves, ∀ q ∈ qs, q.takes op R = false)
          ∧ ∀ cs ∈ arrivals (Backend.exec index cfg now) Backend.disturb
            (Store.reserveOutpoints now u R ops) (b, moves),
            Compensated op R cs.1 cs.2.server)
        u R ops b.coin
        ((Store.reserveOutpoints now u R ops).run
          (amid (Backend.exec index cfg now) Backend.disturb) (b, moves)).2.1.coin
        ((Store.reserveOutpoints now u R ops).run
          (amid (Backend.exec index cfg now) Backend.disturb) (b, moves)).1
      ∧ ∀ op st, (∀ r, (met Backend.disturb st).server.get? op = some r → r.userID ≠ u) →
        ((Store.reserveOutpointOne now u R op).run
          (amid (Backend.exec index cfg now) Backend.disturb) st).1
          = .refused (.notFound op) := by
  refine ⟨fun s => ⟨s.reserveOutpoints_allOrNothing now u R ops, fun t ht => ?_⟩,
      fun read t hlocked => ?_,
    fun index cfg b pre moves hpre => ⟨reserveOutpoints_allOrNothing ?_, fun op st h => ?_⟩⟩
  · exact (Inventory.discreet_reserveOutpoints now R ops ht).1.symm
  · exact ⟨Sqlstore.reserveOutpoints_allOrNothing hlocked,
      Sqlstore.reserveOutpoints_filter now u R ops read t⟩
  · rw [hpre]
    exact open_run pre
  · exact run_reserveOutpointOne_foreign h

/-- One coin is minted, and the call names another one too. -/
def namedCoins : List Outpoint := [⟨"a", 0⟩, ⟨"b", 0⟩]

/-- Somebody else claims the coin all the time. -/
def rivalMoves : List (List Request) :=
  [[], [], [claimCoin "rival"], [claimCoin "rival"], [claimCoin "rival"]]

/-- The coin that was won is handed back, and by then somebody else has claimed it. -/
theorem reserveOutpoints_all_or_nothing_rival :
    ((Store.reserveOutpoints 5 7 "ref" namedCoins).run
        (amid (Backend.exec (fun _ l => l) ⟨none, 16⟩ 5) Backend.disturb) (oneCoin, rivalMoves)).1
          = [.notFound ⟨"b", 0⟩]
      ∧ ∀ c, ((Store.reserveOutpoints 5 7 "ref" namedCoins).run
        (amid (Backend.exec (fun _ l => l) ⟨none, 16⟩ 5) Backend.disturb)
        (oneCoin, rivalMoves)).2.1.coin ⟨"a", 0⟩ = some c →
          ¬ c.HeldFor "ref" := by
  have herrs : ((Store.reserveOutpoints 5 7 "ref" namedCoins).run
      (amid (Backend.exec (fun _ l => l) ⟨none, 16⟩ 5) Backend.disturb) (oneCoin, rivalMoves)).1
          = [.notFound ⟨"b", 0⟩] := by
    decide
  have hunpinned : (arrivals (Backend.exec (fun _ l => l) ⟨none, 16⟩ 5) Backend.disturb
      (Store.reserveOutpoints 5 7 "ref" namedCoins) (oneCoin, rivalMoves)).all
      (fun cs => (cs.2.server.get? ⟨"a", 0⟩).all fun r => !r.pinned) = true := by decide
  have hcall := ((reserveOutpoints_all_or_nothing 5 7 "ref" namedCoins).2.2 (fun _ l => l) ⟨none,
      16⟩ oneCoin [mintCoin]
    rivalMoves rfl).1
  refine ⟨herrs, fun c hc hheld => ?_⟩
  obtain ⟨c₀, hc₀, hheld₀⟩ := hcall.failure (by rw [herrs]; simp) ⟨"a", 0⟩
    ⟨by decide, fun cs hcs u _ r hr _ _ => by
      have hall := List.all_eq_true.mp hunpinned cs hcs
      simpa [hr] using hall⟩ c hc hheld
  have hbefore : (oneCoin.coin ⟨"a", 0⟩).all (fun c => !decide (c.HeldFor "ref"))
      = true := by decide
  simp [hc₀, hheld₀] at hbefore

end ArcadeToolbox.Aerostore
