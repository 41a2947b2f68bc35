import ArcadeToolbox.Aerostore.Amid

/-!
# Removing what a dead transaction minted, among other clients

`RemoveByMintTx` reads the record of an outpoint and deletes it if nobody holds the coin and nobody
has spent it; if the guarded delete fails, it reads the record again. So the fate of each outpoint
is decided by one request, and the report lists the fates.
-/

namespace ArcadeToolbox.Aerostore

open Txn Prog

/-- What the call says about an outpoint. -/
inductive MintFate where
  | removed
  | reserved (token : Token)
  | spent (txid : TxID)
  | absent
  deriving DecidableEq, Repr

/-- A request of the call met the outpoint in a state that decides its fate: it deleted a record
that was neither reserved nor spent, or it read who holds or has spent the coin, or there was no
record. -/
def Decided (requests : List (Call × Backend)) (op : Outpoint) : MintFate → Prop
  | .removed => ∃ b r, (.server (.delete op .phantom), b) ∈ requests ∧ b.server.get? op = some r
      ∧ r.resBy = none ∧ r.spentBy = none
  | .reserved R => ∃ b r, (.server (.get op), b) ∈ requests ∧ b.server.get? op = some r
      ∧ r.resBy = some R ∧ r.spentBy = none
  | .spent w =>
    ∃ b r, (.server (.get op), b) ∈ requests ∧ b.server.get? op = some r ∧ r.spentBy = some w
  | .absent =>
    ∃ q b, (.server q, b) ∈ requests ∧ (q = .get op ∨ q = .delete op .phantom)
        ∧ b.server.get? op = none

theorem Decided.mono {l l' : List (Call × Backend)} (hl : l ⊆ l') {op : Outpoint} :
    ∀ {f : MintFate}, Decided l op f → Decided l' op f
  | .removed, ⟨b, r, hmem, h⟩ => ⟨b, r, hl hmem, h⟩
  | .reserved _, ⟨b, r, hmem, h⟩ => ⟨b, r, hl hmem, h⟩
  | .spent _, ⟨b, r, hmem, h⟩ => ⟨b, r, hl hmem, h⟩
  | .absent, ⟨q, b, hmem, h⟩ => ⟨q, b, hl hmem, h⟩

/-- The outpoints of one fate. -/
def outs (fates : List (Outpoint × MintFate)) (f : MintFate) : List Outpoint :=
  (fates.filter fun p => p.2 = f).map (·.1)

theorem outs_append (fates : List (Outpoint × MintFate)) (op : Outpoint) (f g : MintFate) :
    outs (fates ++ [(op, f)]) g = outs fates g ++ if f = g then [op] else [] := by
  unfold outs
  rw [List.filter_append, List.map_append]
  split_ifs with h <;> simp [h]

theorem outs_eq_nil {fates : List (Outpoint × MintFate)} {f : MintFate}
    (h : ∀ op, (op, f) ∉ fates) : outs fates f = [] := by
  unfold outs
  rw [List.map_eq_nil_iff, List.filter_eq_nil_iff]
  rintro ⟨op, g⟩ hp he
  exact h op (of_decide_eq_true he ▸ hp)

/-- The report lists the fates: each coin that was removed, the coins of each reservation, and each
spender. -/
structure Reports (fates : List (Outpoint × MintFate)) (rep : RemoveByMintReport) : Prop where
  removed : rep.removed = outs fates .removed
  reserved : ∀ ref ∈ rep.alreadyReserved, ref.outpoints = outs fates (.reserved ref.reservation)
  tokens : (rep.alreadyReserved.map (·.reservation)).Nodup
  holders : ∀ R, R ∈ rep.alreadyReserved.map (·.reservation) ↔ ∃ op, (op, .reserved R) ∈ fates
  spenders : ∀ w, w ∈ rep.alreadySpentBy ↔ ∃ op, (op, .spent w) ∈ fates

theorem reports_nil : Reports [] ⟨[], [], []⟩ where
  removed := rfl
  reserved _ h := absurd h List.not_mem_nil
  tokens := List.nodup_nil
  holders R := by simp
  spenders w := by simp

section Reports

variable {fates : List (Outpoint × MintFate)} {rep : RemoveByMintReport} {op : Outpoint}

theorem exists_mem_append_iff {f g : MintFate} :
    (∃ op', (op', g) ∈ fates ++ [(op, f)]) ↔ (∃ op', (op', g) ∈ fates) ∨ g = f := by
  simp [exists_or]

theorem Reports.removed_append (h : Reports fates rep) :
    Reports (fates ++ [(op, .removed)]) { rep with removed := rep.removed ++ [op] } where
  removed := by rw [outs_append, if_pos rfl, h.removed]
  reserved ref href := by
    rw [outs_append, if_neg (by simp), List.append_nil]
    exact h.reserved ref href
  tokens := h.tokens
  holders R := by rw [exists_mem_append_iff, h.holders R]; simp
  spenders w := by rw [exists_mem_append_iff, h.spenders w]; simp

theorem Reports.absent_append (h : Reports fates rep) : Reports (fates ++ [(op, .absent)]) rep where
  removed := by rw [outs_append, if_neg (by simp), List.append_nil, h.removed]
  reserved ref href := by
    rw [outs_append, if_neg (by simp), List.append_nil]
    exact h.reserved ref href
  tokens := h.tokens
  holders R := by rw [exists_mem_append_iff, h.holders R]; simp
  spenders w := by rw [exists_mem_append_iff, h.spenders w]; simp

theorem Reports.spent_append (h : Reports fates rep) (w : TxID) :
    Reports (fates ++ [(op, .spent w)]) (Store.addSpender rep w) := by
  have hsame : (Store.addSpender rep w).removed = rep.removed
      ∧ (Store.addSpender rep w).alreadyReserved = rep.alreadyReserved := by
    unfold Store.addSpender
    split_ifs <;> exact ⟨rfl, rfl⟩
  refine ⟨?_, fun ref href => ?_, hsame.2 ▸ h.tokens, fun R => ?_, fun w' => ?_⟩
  · rw [hsame.1, outs_append, if_neg (by simp), List.append_nil, h.removed]
  · rw [outs_append, if_neg (by simp), List.append_nil]
    exact h.reserved ref (hsame.2 ▸ href)
  · rw [hsame.2, exists_mem_append_iff, h.holders R]
    simp
  · rw [exists_mem_append_iff, ← h.spenders w', MintFate.spent.injEq]
    unfold Store.addSpender
    split_ifs with hw
    · exact ⟨.inl, fun h => h.elim id fun he => he ▸ hw⟩
    · simp

theorem map_reservation_addReserved (refs : List ReservationRef) (u : Utxo) :
    (Store.addReserved op u refs).map (·.reservation) = refs.map (·.reservation)
      ++ if u.reservedBy ∈ refs.map (·.reservation) then [] else [u.reservedBy] := by
  have hany : (refs.any fun ref => ref.reservation = u.reservedBy) = true
      ↔ u.reservedBy ∈ refs.map (·.reservation) := by
    simp
  unfold Store.addReserved
  split_ifs with h h' h'
  · rw [List.append_nil, List.map_map]
    refine List.map_congr_left fun ref _ => ?_
    simp only [Function.comp]
    split_ifs <;> rfl
  · exact absurd (hany.mp h) h'
  · exact absurd (hany.mpr h') h
  · rw [List.map_append]
    rfl

theorem Reports.reserved_append (h : Reports fates rep) (u : Utxo) :
    Reports (fates ++ [(op, .reserved u.reservedBy)])
      { rep with alreadyReserved := Store.addReserved op u rep.alreadyReserved } where
  removed := by rw [outs_append, if_neg (by simp), List.append_nil, h.removed]
  reserved ref href := by
    rw [outs_append]
    change ref ∈ Store.addReserved op u rep.alreadyReserved at href
    unfold Store.addReserved at href
    split_ifs at href with hany
    · obtain ⟨ref0, hmem, rfl⟩ := List.mem_map.mp href
      have hold := h.reserved ref0 hmem
      by_cases he : ref0.reservation = u.reservedBy
      · rw [he] at hold
        simp [he, hold]
      · simp [he, Ne.symm he, hold]
    · rcases List.mem_append.mp href with hmem | hmem
      · have hne : u.reservedBy ≠ ref.reservation := fun he =>
          hany (List.any_eq_true.mpr ⟨ref, hmem, decide_eq_true he.symm⟩)
        rw [if_neg (by simpa using hne), List.append_nil]
        exact h.reserved ref hmem
      · -- the first coin of the token
        obtain rfl := List.mem_singleton.mp hmem
        have hnone : outs fates (.reserved u.reservedBy) = [] := outs_eq_nil fun op' hop' => by
          obtain ⟨ref, href, he⟩ := List.mem_map.mp ((h.holders u.reservedBy).mpr ⟨op', hop'⟩)
          exact hany (List.any_eq_true.mpr ⟨ref, href, decide_eq_true he⟩)
        simp [hnone]
  tokens := by
    rw [map_reservation_addReserved]
    split_ifs with hR
    · rw [List.append_nil]
      exact h.tokens
    · exact List.nodup_append.mpr ⟨h.tokens, List.nodup_singleton _, fun a ha b hb => by
        rw [List.mem_singleton.mp hb]
        rintro rfl
        exact hR ha⟩
  holders R := by
    rw [map_reservation_addReserved, exists_mem_append_iff, ← h.holders R, MintFate.reserved.injEq,
        List.mem_append]
    split_ifs with hR
    · exact ⟨fun h => h.imp_right fun h => absurd h List.not_mem_nil, fun h => h.elim .inl fun he =>
        .inl (he ▸ hR)⟩
    · simp
  spenders w := by rw [exists_mem_append_iff, h.spenders w]; simp

end Reports

def fateOf : Store.Settled → MintFate
  | .removed => .removed
  | .gone => .absent
  | .survivor u => u.spentBy.elim (.reserved u.reservedBy) .spent

section Call

variable {index : ℕ → List Record → List Record} {cfg : Config} {now : Time} {op : Outpoint}

theorem run_getRecord_amid (op : Outpoint) (st : Backend × List (List Request)) :
    (Store.getRecord op).run (amid (Backend.exec index cfg now) Backend.disturb) st
      = ((met Backend.disturb st).server.get? op, met Backend.disturb st, st.2.tail) := rfl

/-- A record that is held or spent is kept, and what was read is what decides. -/
theorem decided_survivor {requests : List (Call × Backend)} {b : Backend} {rec : Record}
    (hmem : (.server (.get op), b) ∈ requests) (hrec : b.server.get? op = some rec)
    (h : (recordToUTXO rec).spentBy ≠ none ∨ (recordToUTXO rec).reservedBy ≠ "") :
    Decided requests op (fateOf (.survivor (recordToUTXO rec))) := by
  rcases hs : rec.spentBy with _ | w
  · have hR : rec.resBy.getD "" ≠ "" := h.resolve_left fun hne => hne hs
    rcases hres : rec.resBy with _ | R
    · simp [hres] at hR
    · have hfate : fateOf (.survivor (recordToUTXO rec)) = .reserved R := by
        simp [fateOf, recordToUTXO, hs, hres]
      rw [hfate]
      exact ⟨b, rec, hmem, hrec, hres, hs⟩
  · have hfate : fateOf (.survivor (recordToUTXO rec)) = .spent w := by
      simp [fateOf, recordToUTXO, hs]
    rw [hfate]
    exact ⟨b, rec, hmem, hrec, hs⟩

theorem delete_phantom_cases (s : Server) (op : Outpoint) :
    ((s.delete op .phantom).1 = .absent ∧ s.get? op = none)
      ∨ (s.delete op .phantom).1 = .guardLost
      ∨ (s.delete op .phantom).1 = .removed ∧ ∃ r, s.get? op = some r ∧ r.resBy = none
        ∧ r.spentBy = none := by
  unfold Server.delete
  rcases s.get? op with _ | r
  · exact .inl ⟨rfl, rfl⟩
  · dsimp only
    split_ifs with hg
    · simp only [DeleteGuard.holds, Bool.and_eq_true, Option.isNone_iff_eq_none] at hg
      exact .inr (.inr ⟨rfl, r, rfl, hg⟩)
    · exact .inr (.inl rfl)

/-- Some request decided what the call says of the outpoint, and only a coin that is held or spent
is kept. -/
theorem decided_removeMintTxOp (n : ℕ) {st : Backend × List (List Request)} {r : Store.Settled}
    (h : ((Store.removeMintTxOp op n).run (amid (Backend.exec index cfg now) Backend.disturb) st).1
      = .ok r) :
    Decided (arrivals (Backend.exec index cfg now) Backend.disturb (Store.removeMintTxOp op n) st)
      op (fateOf r)
      ∧ ∀ u, r = .survivor u → u.spentBy ≠ none ∨ u.reservedBy ≠ "" := by
  induction n generalizing st with
  | zero => cases h
  | succ n ih =>
    rw [Store.removeMintTxOp, run_bind, run_getRecord_amid] at h
    rw [Store.removeMintTxOp, arrivals_bind, run_getRecord_amid]
    rcases hrec : (met Backend.disturb st).server.get? op with _ | rec <;> simp only [hrec] at h ⊢
    · cases h
      exact ⟨⟨.get op, _, List.mem_append_left _ List.mem_cons_self, .inl rfl, hrec⟩,
          fun _ he => by cases he⟩
    split_ifs at h ⊢ with hkept
    · cases h
      exact ⟨decided_survivor (List.mem_append_left _ List.mem_cons_self) hrec hkept, fun _ he => by
          cases he; exact hkept⟩
    -- other clients' requests come before the delete too
    rw [run_bind] at h
    rw [arrivals_bind]
    generalize (met Backend.disturb st, st.2.tail) = st1 at h ⊢
    have hsent : (Call.server (.delete op .phantom), met Backend.disturb st1)
        ∈ arrivals (Backend.exec index cfg now)
      Backend.disturb (Store.deleteRecordGuarded op .phantom) st1 := List.mem_cons_self
    have hrun : ((Store.deleteRecordGuarded op .phantom).run
        (amid (Backend.exec index cfg now) Backend.disturb) st1).1
      = ((met Backend.disturb st1).server.delete op .phantom).1 := rfl
    rcases delete_phantom_cases (met Backend.disturb st1).server op with ⟨ha, hnone⟩ | ha | ⟨ha,
        rec', hrec', hfree⟩ <;>
      rw [hrun, ha] at h ⊢
    · cases h
      exact ⟨⟨_, _, List.mem_append_right _ (List.mem_append_left _ hsent), .inr rfl, hnone⟩,
          fun _ he => by cases he⟩
    · obtain ⟨hfate, hkept⟩ := ih h
      refine ⟨hfate.mono fun _ hmem => ?_, hkept⟩
      exact List.mem_append_right _ (List.mem_append_right _ hmem)
    · cases h
      exact ⟨⟨_, rec', List.mem_append_right _ (List.mem_append_left _ hsent), hrec', hfree⟩,
          fun _ he => by cases he⟩

theorem decided_settleMintTx : ∀ (ops : List Outpoint) {fates : List (Outpoint × MintFate)}
    {rep rep' : RemoveByMintReport}
    {st : Backend × List (List Request)}, Reports fates rep →
    ((Store.settleMintTx ops rep).run (amid (Backend.exec index cfg now) Backend.disturb) st).1
      = .ok rep' →
      ∃ more, more.map (·.1) = ops ∧ Reports (fates ++ more) rep' ∧ ∀ p ∈ more,
        Decided (arrivals (Backend.exec index cfg now) Backend.disturb (Store.settleMintTx ops rep)
          st) p.1 p.2
  | [], fates, rep, rep', st, hrep, h => by
    cases h
    exact ⟨[], rfl, (List.append_nil fates).symm ▸ hrep, nofun⟩
  | op :: ops, fates, rep, rep', st, hrep, h => by
    rw [Store.settleMintTx, run_bind] at h
    rw [Store.settleMintTx, arrivals_bind]
    generalize hst : ((Store.removeMintTxOp op Store.casAttempts).run
      (amid (Backend.exec index cfg now) Backend.disturb) st).2 = st1 at h ⊢
    rcases hr : ((Store.removeMintTxOp op Store.casAttempts).run
      (amid (Backend.exec index cfg now) Backend.disturb) st).1 with e | r <;> rw [hr] at h
    · cases h
    obtain ⟨hfate, hkept⟩ := decided_removeMintTxOp Store.casAttempts hr
    -- the outpoint has its fate, and the rest of the list goes on from the report
    have hrest : ∀ rep1, Reports (fates ++ [(op, fateOf r)]) rep1 →
        ((Store.settleMintTx ops rep1).run (amid (Backend.exec index cfg now) Backend.disturb)
            st1).1 = .ok rep' →
        ∃ more, more.map (·.1) = op :: ops ∧ Reports (fates ++ more) rep' ∧ ∀ p ∈ more,
          Decided (arrivals (Backend.exec index cfg now) Backend.disturb
              (Store.removeMintTxOp op Store.casAttempts) st
            ++ arrivals (Backend.exec index cfg now) Backend.disturb (Store.settleMintTx ops rep1)
                st1) p.1 p.2 := by
      intro rep1 hrep1 hrun
      obtain ⟨more, hops, hreports, hdecided⟩ := decided_settleMintTx ops hrep1 hrun
      refine ⟨(op, fateOf r) :: more, by rw [List.map_cons, hops], by simpa using hreports,
          fun p hp => ?_⟩
      rcases List.mem_cons.mp hp with rfl | hp
      · exact hfate.mono (List.subset_append_left _ _)
      · exact (hdecided p hp).mono (List.subset_append_right _ _)
    rcases r with _ | u | _
    · exact hrest _ hrep.removed_append h
    · rcases hs : u.spentBy with _ | w <;> simp only [hs] at h ⊢
      · have hR : u.reservedBy ≠ "" := (hkept u rfl).resolve_left fun hne => hne hs
        rw [if_pos hR] at h ⊢
        exact hrest _ (by rw [fateOf, hs]; exact hrep.reserved_append u) h
      · exact hrest _ (by rw [fateOf, hs]; exact hrep.spent_append w) h
    · exact hrest _ hrep.absent_append h

def Settling (c : Call) : Prop := ∃ op, c = .server (.get op) ∨ c = .server (.delete op .phantom)

theorem only_removeMintTxOp (op : Outpoint) : ∀ n, Only Settling (Store.removeMintTxOp op n)
  | 0 => trivial
  | n + 1 => by
    refine only_bind (fun rec => ?_) _ ⟨⟨op, .inl rfl⟩, fun _ => trivial⟩
    rcases rec with _ | rec
    · trivial
    dsimp only
    split_ifs
    · trivial
    refine only_bind (fun res => ?_) _ ⟨⟨op, .inr rfl⟩, fun _ => trivial⟩
    cases res with
    | removed | absent => trivial
    | guardLost => exact only_removeMintTxOp op n

theorem only_settleMintTx : ∀ (ops : List Outpoint) (rep : RemoveByMintReport),
    Only Settling (Store.settleMintTx ops rep)
  | [], _ => trivial
  | op :: ops, rep => by
    refine only_bind (fun r => ?_) _ (only_removeMintTxOp op _)
    rcases r with _ | _ | u | _
    · trivial
    · exact only_settleMintTx ops _
    · dsimp only
      split
      · exact only_settleMintTx ops _
      · split_ifs
        · exact only_settleMintTx ops _
        · trivial
    · exact only_settleMintTx ops _

theorem only_removeByMintTx (mintTxID : TxID) (ops : List Outpoint) :
    Only Settling (Store.removeByMintTx mintTxID ops) := by
  unfold Store.removeByMintTx
  split
  · trivial
  · exact only_settleMintTx ops _

theorem Settling.keeps {c : Call} (hc : Settling c) {b : Backend} {r : Record}
    (hr : b.server.get? op = some r) (hheld : r.resBy ≠ none ∨ r.spentBy ≠ none) :
    (b.exec index cfg now c).2.server.get? op = some r := by
  obtain ⟨op', rfl | rfl⟩ := hc
  · exact hr
  · have hchange := Server.change_step b.server (.delete op' .phantom) op
    change (b.server.step (.delete op' .phantom)).get? op = some r
    rw [hr] at hchange
    generalize hn : (b.server.step (.delete op' .phantom)).get? op = n at hchange
    cases hchange with
    | same => rfl
    | changed w _ hq hg => cases hq
    | deleted guard _ hq hg =>
      cases hq
      simp only [DeleteGuard.holds, Bool.and_eq_true, Option.isNone_iff_eq_none] at hg
      exact absurd hg fun h => hheld.elim (· h.1) (· h.2)

end Call

/-- Among any requests of other clients: no request of the call changes a record that is held or
spent when the request arrives. If the call returns a report then each outpoint has one fate, which
a request of the call has met, and the report lists the fates. -/
theorem removeByMintTx_settles_each (index : ℕ → List Record → List Record)
    (cfg : Config) (now : Time)
    (mintTxID : TxID) (ops : List Outpoint) (hdistinct : ops.Nodup) (b : Backend)
    (moves : List (List Request)) :
    (∀ cs ∈ arrivals (Backend.exec index cfg now) Backend.disturb
      (Store.removeByMintTx mintTxID ops) (b, moves),
      ∀ op r, cs.2.server.get? op = some r → (r.resBy ≠ none ∨ r.spentBy ≠ none) →
        (cs.2.exec index cfg now cs.1).2.server.get? op = some r)
    ∧ ∀ rep, ((Store.removeByMintTx mintTxID ops).run
      (amid (Backend.exec index cfg now) Backend.disturb) (b, moves)).1
        = .ok rep → ∃ fates : List (Outpoint × MintFate), (∀ op, op ∈ ops ↔ ∃! f, (op, f) ∈ fates)
        ∧ (∀ p ∈ fates, Decided (arrivals (Backend.exec index cfg now) Backend.disturb
            (Store.removeByMintTx mintTxID ops) (b, moves)) p.1 p.2)
        ∧ Reports fates rep := by
  refine ⟨fun cs hcs op r hr hheld => ?_, fun rep h => ?_⟩
  · obtain ⟨⟨c, st⟩, hmem, rfl⟩ := List.mem_map.mp hcs
    exact ((only_removeByMintTx mintTxID ops).calls _ _ hmem).keeps hr hheld
  · unfold Store.removeByMintTx at h ⊢
    split at h
    · cases h
    · obtain ⟨fates, hops, hreports, hdecided⟩ := decided_settleMintTx ops reports_nil h
      refine ⟨fates, fun op => ⟨fun hop => ?_, fun ⟨f, hf, _⟩ => hops ▸ List.mem_map_of_mem hf⟩,
          hdecided, hreports⟩
      obtain ⟨⟨op, f⟩, hf, rfl⟩ := List.mem_map.mp (hops ▸ hop)
      exact ⟨f, hf, fun g hg => congrArg Prod.snd
          (List.inj_on_of_nodup_map (hops ▸ hdistinct) hg hf rfl)⟩

/-- Somebody claims the coin after it has been read; the delete is refused, and the coin is reported
as theirs. -/
theorem removeByMintTx_settles_each_claimed :
    ((Store.removeByMintTx "a" [⟨"a", 0⟩]).run (amid (Backend.exec (fun _ l => l) ⟨none, 16⟩ 5)
      Backend.disturb)
        (oneCoin, [[], [claimCoin "rival"]])).1 = .ok ⟨[], [⟨"rival", 7, 2, [⟨"a", 0⟩]⟩], []⟩
      ∧ ∃ fates, Reports fates ⟨[], [⟨"rival", 7, 2, [⟨"a", 0⟩]⟩], []⟩ := by
  have hrun : ((Store.removeByMintTx "a" [⟨"a", 0⟩]).run
      (amid (Backend.exec (fun _ l => l) ⟨none, 16⟩ 5) Backend.disturb) (oneCoin,
          [[], [claimCoin "rival"]])).1
      = .ok ⟨[], [⟨"rival", 7, 2, [⟨"a", 0⟩]⟩], []⟩ := by decide
  obtain ⟨fates, -, -, hreports⟩ :=
    (removeByMintTx_settles_each (fun _ l => l) ⟨none, 16⟩ 5 "a" [⟨"a", 0⟩] (by decide)
    oneCoin [[], [claimCoin "rival"]]).2 _ hrun
  exact ⟨hrun, fates, hreports⟩

end ArcadeToolbox.Aerostore
