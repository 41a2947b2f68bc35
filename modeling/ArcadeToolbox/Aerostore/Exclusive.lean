import ArcadeToolbox.Aerostore.Records
import Mathlib.Data.List.Induction

/-!
# Exclusive claims on the Aerospike inventory

A record whose claim key is there is not reserved, not spent and not frozen, whatever the clients
knew. A claim or a reservation goes through only on a record with a claim key, and takes the key
away with the same write. The key comes back with a release, an unspend or a new record. So of two
clients that take one coin, the second does so after the first has lost it.
-/

namespace ArcadeToolbox.Aerostore

open Txn

namespace Server

/-- What may become of the record of an outpoint in one step. -/
inductive Change (q : Request) (op : Outpoint) : Option Record → Option Record → Prop
  | same (r : Option Record) : Change q op r r
  | created (m : Mint) (now : Time) (hq : q = .create m now) (hop : m.outpoint = op) :
      Change q op none (some (mintedRecord now m))
  | changed (w : RecordOp) (r : Record) (hq : q = .operate op w) (hg : w.guard r = true) :
      Change q op (some r) (some (w.effect r))
  | deleted (guard : DeleteGuard) (r : Record) (hq : q = .delete op guard)
      (hg : guard.holds r = true) :
      Change q op (some r) none

theorem get?_operate {s : Server} {op op' : Outpoint} {w : RecordOp} {r : Record}
    (h : s.get? op' = some r) (hg : w.guard r = true) :
    (s.operate op' w).2.get? op = if op' = op then some (w.effect r) else s.get? op := by
  simp only [operate, h, hg, if_true]
  rw [Table.get?_update]
  split_ifs with he
  · subst he
    have hr : r.outpoint = op' := (Table.get?_eq_some.mp h).2
    rw [h]
    simp [hr]
  · rcases hg : s.get? op with _ | x
    · rfl
    · have hx : x.outpoint = op := (Table.get?_eq_some.mp hg).2
      simp [hx, Ne.symm he]

theorem get?_deleted {s : Server} {op op' : Outpoint} {guard : DeleteGuard} {r : Record}
    (h : s.get? op' = some r) (hg : guard.holds r = true) :
    (s.delete op' guard).2.get? op = if op' = op then none else s.get? op := by
  simp only [delete, h, hg, if_true]
  rw [Table.get?_delete]
  split_ifs with he
  · subst he
    have hr : r.outpoint = op' := (Table.get?_eq_some.mp h).2
    rw [h]
    simp [hr]
  · rcases hg : s.get? op with _ | x
    · rfl
    · have hx : x.outpoint = op := (Table.get?_eq_some.mp hg).2
      simp [hx, Ne.symm he]

theorem change_step (s : Server) (q : Request) (op : Outpoint) :
    Change q op (s.get? op) ((s.step q).get? op) := by
  cases q with
  | get op' => exact .same _
  | query q => exact .same _
  | create m now =>
    rcases hm : s.get? m.outpoint with _ | r
    · have hs : s.step (.create m now) = s.insert (mintedRecord now m) := by simp [step, exec, hm]
      rw [hs]
      by_cases he : m.outpoint = op
      · have hget : (s.insert (mintedRecord now m)).get? op = some (mintedRecord now m) :=
          he ▸ Table.get?_insert_self hm
        rw [hget, ← he, hm]
        exact .created m now rfl rfl
      · rw [Table.get?_insert_ne (r := mintedRecord now m) he]
        exact .same _
    · have hs : s.step (.create m now) = s := by simp [step, exec, hm]
      rw [hs]
      exact .same _
  | operate op' w =>
    rcases hr : s.get? op' with _ | r
    · have hs : s.step (.operate op' w) = s := by simp [step, exec, operate, hr]
      rw [hs]
      exact .same _
    · by_cases hg : w.guard r = true
      · show Change _ op _ ((s.operate op' w).2.get? op)
        rw [get?_operate hr hg]
        split_ifs with he
        · subst he
          rw [hr]
          exact .changed w r rfl hg
        · exact .same _
      · have hs : s.step (.operate op' w) = s := by simp [step, exec, operate, hr, hg]
        rw [hs]
        exact .same _
  | delete op' guard =>
    rcases hr : s.get? op' with _ | r
    · have hs : s.step (.delete op' guard) = s := by simp [step, exec, delete, hr]
      rw [hs]
      exact .same _
    · by_cases hg : guard.holds r = true
      · show Change _ op _ ((s.delete op' guard).2.get? op)
        rw [get?_deleted hr hg]
        split_ifs with he
        · subst he
          rw [hr]
          exact .deleted guard r rfl hg
        · exact .same _
      · have hs : s.step (.delete op' guard) = s := by simp [step, exec, delete, hr, hg]
        rw [hs]
        exact .same _

theorem run_append (s : Server) (qs qs' : List Request) : s.run (qs ++ qs') = (s.run qs).run qs' :=
  List.foldl_append

theorem run_cons (s : Server) (q : Request) (qs : List Request) :
    s.run (q :: qs) = (s.step q).run qs := rfl

/-- What minted records have and every operation preserves, every record has. -/
theorem records_induction {P : Record → Prop} (hmint : ∀ m now, P (mintedRecord now m))
    (hop : ∀ w r, RecordOp.guard w r = true → P r → P (w.effect r)) (qs : List Request) :
    ∀ op r, (run ∅ qs).get? op = some r → P r := by
  induction qs using List.reverseRecOn with
  | nil => exact fun op r hr => absurd (Table.get?_eq_some.mp hr).1 (Table.not_mem_empty r)
  | append_singleton qs q ih =>
    intro op r' hr'
    rw [run_append] at hr'
    have hc := change_step (run ∅ qs) q op
    generalize hb : (run ∅ qs).get? op = b at hc
    rw [show ((run ∅ qs).step q).get? op = some r' from hr'] at hc
    cases hc with
    | same => exact ih op r' hb
    | created m now hq hop' => exact hmint m now
    | changed w r hq hg => exact hop w r hg (ih op r hb)

end Server

/-- A coin with a claim key is free. -/
def Record.Open (r : Record) : Prop :=
  r.claimKey.isSome = true → r.resBy = none ∧ r.spentBy = none ∧ r.frozen = false

theorem open_mintedRecord (m : Mint) (now : Time) : (mintedRecord now m).Open :=
  fun _ => ⟨rfl, rfl, rfl⟩

theorem Record.Open.effect {r : Record} (h : r.Open) (w : RecordOp) (hg : w.guard r = true) :
    (w.effect r).Open := by
  intro hk
  cases w with
  | reserve key token now => cases hk
  | reserveOutpoint userID token now => cases hk
  | release u token overridePin =>
    simp only [RecordOp.guard, Bool.and_eq_true, Option.isNone_iff_eq_none] at hg
    simp only [RecordOp.effect, RecordOp.restoreClaimKey] at hk
    split_ifs at hk with hf
    · exact absurd (h hk).2.2 (by simp [hf])
    · exact ⟨rfl, hg.1.2, Bool.not_eq_true _ ▸ hf⟩
  | setPinned token pinned => exact h hk
  | spend sp force =>
    cases force with
    | true => cases hk
    | false =>
      -- a guarded spend finds the coin reserved
      have hreserved : r.resBy = some sp.reservation := by
        simp only [RecordOp.guard, Bool.false_eq_true, if_false, Bool.and_eq_true,
            decide_eq_true_eq] at hg
        exact hg.1.1
      exact absurd ((h hk).1.symm.trans hreserved) (by simp)
  | unspend txid u =>
    simp only [RecordOp.guard, decide_eq_true_eq] at hg
    simp only [RecordOp.effect, RecordOp.restoreClaimKey] at hk
    split_ifs at hk with hf
    · exact absurd (h hk).2.2 (by simp [hf])
    · exact ⟨rfl, rfl, Bool.not_eq_true _ ▸ hf⟩
  | freeze => cases hk
  | unfreeze u =>
    simp only [RecordOp.effect, RecordOp.restoreClaimKey] at hk
    split_ifs at hk with hf
    · exact ⟨(h hk).1, (h hk).2.1, rfl⟩
    · simp only [Bool.or_eq_true, Option.isSome_iff_ne_none, not_or, not_not] at hf
      exact ⟨hf.1, hf.2, rfl⟩
  | promote u target =>
    refine h ?_
    simpa [RecordOp.effect] using hk

theorem Record.Open.claimKey_none {r : Record} {token : Token} (h : r.Open)
    (hheld : r.resBy = some token) :
    r.claimKey = none := by
  rcases hk : r.claimKey with _ | k
  · rfl
  · exact absurd (h (by simp [hk])).1 (by simp [hheld])

theorem open_run (qs : List Request) (op : Outpoint) (r : Record)
    (hr : (Server.run ∅ qs).get? op = some r) :
    r.Open :=
  Server.records_induction open_mintedRecord (fun w _ hg h => h.effect w hg) qs op r hr

namespace Server

/-- The request gives the coin to the reservation: a claim or a reservation that goes through, or
the read by which `ReserveOutpoints` finds that the reservation has the coin already. -/
inductive Acquires (s : Server) (op : Outpoint) (token : Token) : Request → Prop
  | claimed (key : String) (now : Time) (r : Record) (hr : s.get? op = some r)
      (hg : (RecordOp.reserve key token now).guard r = true) :
      Acquires s op token (.operate op (.reserve key token now))
  | reserved (userID : UserID) (now : Time) (r : Record) (hr : s.get? op = some r)
      (hg : (RecordOp.reserveOutpoint userID token now).guard r = true) :
      Acquires s op token (.operate op (.reserveOutpoint userID token now))
  | satisfied (r : Record) (hr : s.get? op = some r) (held : r.resBy = some token) :
      Acquires s op token (.get op)

/-- A release or an unspend of the coin goes through. -/
inductive Frees (s : Server) (op : Outpoint) : Request → Prop
  | released (u : Utxo) (token : Token) (overridePin : Bool) (r : Record) (hr : s.get? op = some r)
      (hg : (RecordOp.release u token overridePin).guard r = true) :
      Frees s op (.operate op (.release u token overridePin))
  | unspent (txid : TxID) (u : Utxo) (r : Record) (hr : s.get? op = some r)
      (hg : (RecordOp.unspend txid u).guard r = true) : Frees s op (.operate op (.unspend txid u))

/-- The requests that take the coin out. -/
inductive Removes (s : Server) (op : Outpoint) : Request → Prop
  | removed (guard : DeleteGuard) (r : Record) (hr : s.get? op = some r)
      (hg : guard.holds r = true) :
      Removes s op (.delete op guard)

/-- The requests that bring the coin in. -/
inductive Mints (s : Server) (op : Outpoint) : Request → Prop
  | minted (m : Mint) (now : Time) (hop : m.outpoint = op) (hnew : s.get? op = none) :
      Mints s op (.create m now)

variable {s : Server} {op : Outpoint} {token : Token}

/-- A coin that is held stays held by the same reservation, or it is freed or removed. -/
theorem held_step {r : Record} (hopen : r.Open) (hr : s.get? op = some r)
    (hheld : r.resBy = some token)
    (q : Request) : Frees s op q ∨ Removes s op q
      ∨ ∃ r', (s.step q).get? op = some r' ∧ r'.resBy = some token := by
  have hc := change_step s q op
  rw [hr] at hc
  generalize hn : (s.step q).get? op = n at hc
  cases hc with
  | same => exact .inr (.inr ⟨r, rfl, hheld⟩)
  | deleted guard _ hq hg => exact .inr (.inl (hq ▸ .removed guard r hr hg))
  | changed w _ hq hg =>
    have hclosed := hopen.claimKey_none hheld
    cases w with
    | reserve key token' now => simp [RecordOp.guard, hclosed] at hg
    | reserveOutpoint userID token' now => simp [RecordOp.guard, hclosed] at hg
    | release u token' overridePin => exact .inl (hq ▸ .released u token' overridePin r hr hg)
    | unspend txid u => exact .inl (hq ▸ .unspent txid u r hr hg)
    | setPinned token' pinned => exact .inr (.inr ⟨_, rfl, hheld⟩)
    | spend sp force => exact .inr (.inr ⟨_, rfl, hheld⟩)
    | freeze => exact .inr (.inr ⟨_, rfl, hheld⟩)
    | unfreeze u => exact .inr (.inr ⟨_, rfl, hheld⟩)
    | promote u target => exact .inr (.inr ⟨_, rfl, hheld⟩)

theorem absent_run (qs : List Request) (hs : s.get? op = none) :
    (s.run qs).get? op = none ∨ ∃ qs1 q qs2, qs = qs1 ++ q :: qs2 ∧ Mints (s.run qs1) op q := by
  induction qs using List.reverseRecOn with
  | nil => exact .inl hs
  | append_singleton qs q ih =>
    rcases ih with hnone | ⟨qs1, q', qs2, rfl, hm⟩
    · rw [run_append]
      have hc := change_step (s.run qs) q op
      rw [hnone] at hc
      generalize hn : ((s.run qs).step q).get? op = n at hc
      cases hc with
      | same => exact .inl hn
      | created m now hq hop => exact .inr ⟨qs, q, [], rfl, hq ▸ .minted m now hop hnone⟩
    · exact .inr ⟨qs1, q', qs2 ++ [q], by simp, hm⟩

/-- Along a run a held coin stays held by the same reservation, or at some point it is freed or
removed. -/
theorem held_run {pre : List Request} (hs : s = run ∅ pre) {r : Record} (hr : s.get? op = some r)
    (hheld : r.resBy = some token) (qs : List Request) :
    (∃ r', (s.run qs).get? op = some r' ∧ r'.resBy = some token)
      ∨ ∃ qs1 q qs2, qs = qs1 ++ q :: qs2 ∧ (Frees (s.run qs1) op q
        ∨ Removes (s.run qs1) op q) := by
  induction qs using List.reverseRecOn with
  | nil => exact .inl ⟨r, hr, hheld⟩
  | append_singleton qs q ih =>
    rcases ih with ⟨r', hr', hheld'⟩ | ⟨qs1, q', qs2, rfl, hf⟩
    · have hopen : r'.Open := open_run (pre ++ qs) op r' (by rw [run_append, ← hs]; exact hr')
      rw [run_append]
      rcases held_step hopen hr' hheld' q with hf | hd | hk
      · exact .inr ⟨qs, q, [], rfl, .inl hf⟩
      · exact .inr ⟨qs, q, [], rfl, .inr hd⟩
      · exact .inl hk
    · exact .inr ⟨qs1, q', qs2 ++ [q], by simp, hf⟩

theorem Acquires.holds {q : Request} (h : Acquires s op token q) :
    ∃ r, (s.step q).get? op = some r ∧ r.resBy = some token := by
  cases h with
  | claimed key now r hr hg =>
    refine ⟨(RecordOp.reserve key token now).effect r, ?_, rfl⟩
    exact (get?_operate hr hg).trans (if_pos rfl)
  | reserved userID now r hr hg =>
    refine ⟨(RecordOp.reserveOutpoint userID token now).effect r, ?_, rfl⟩
    exact (get?_operate hr hg).trans (if_pos rfl)
  | satisfied r hr held => exact ⟨r, hr, held⟩

theorem Acquires.free_or_held {q : Request} (h : Acquires s op token q) :
    ∃ r, s.get? op = some r ∧ (r.claimKey.isSome = true ∨ r.resBy = some token) := by
  cases h with
  | claimed key now r hr hg =>
    simp only [RecordOp.guard, decide_eq_true_eq] at hg
    exact ⟨r, hr, .inl (by simp [hg])⟩
  | reserved userID now r hr hg =>
    simp only [RecordOp.guard, Bool.and_eq_true] at hg
    exact ⟨r, hr, .inl hg.1⟩
  | satisfied r hr held => exact ⟨r, hr, .inr held⟩

end Server

/-- Whatever the clients send and in whatever order it arrives: when a coin is taken for one
reservation and later for another, in between it was released or unspent, or removed and minted
anew. And a claim or a reservation that goes through finds the coin not reserved, not spent and not
frozen. -/
theorem claims_exclusive (pre : List Request) (op : Outpoint) :
    (∀ token q qs token' q', Server.Acquires (Server.run ∅ pre) op token q →
      Server.Acquires (Server.run ∅ (pre ++ q :: qs)) op token' q' → token ≠ token' →
      (∃ qs₁ e qs₂, qs = qs₁ ++ e :: qs₂ ∧ Server.Frees (Server.run ∅ (pre ++ q :: qs₁)) op e)
        ∨ ∃ qs₁ d qs₂ m qs₃, qs = qs₁ ++ d :: (qs₂ ++ m :: qs₃)
          ∧ Server.Removes (Server.run ∅ (pre ++ q :: qs₁)) op d
          ∧ Server.Mints (Server.run ∅ (pre ++ q :: (qs₁ ++ d :: qs₂))) op m)
    ∧ ∀ r w, (Server.run ∅ pre).get? op = some r → RecordOp.guard w r = true →
      ((∃ key token now, w = .reserve key token now) ∨ ∃ userID token now,
        w = .reserveOutpoint userID token now) →
      r.resBy = none ∧ r.spentBy = none ∧ r.frozen = false := by
  refine ⟨fun token q qs token' q' h h' hne => ?_, fun r w hr hg hw => ?_⟩
  · have hrun : ∀ l, Server.run ∅ (pre ++ q :: l) = ((Server.run ∅ pre).step q).run l := fun l => by
      rw [Server.run_append, Server.run_cons]
    obtain ⟨r, hr, hheld⟩ := h.holds
    have hpre : (Server.run ∅ pre).step q = Server.run ∅ (pre ++ [q]) := by
      rw [Server.run_append]
      rfl
    obtain ⟨r', hr', hstate⟩ := h'.free_or_held
    rcases Server.held_run hpre hr hheld qs with ⟨r₁, hr₁, hheld₁⟩ | ⟨qs₁, e, qs₂, rfl, hf | hd⟩
    · -- the first reservation still has the coin, so the second cannot take it
      rw [hrun] at hr'
      obtain rfl : r' = r₁ := Option.some.inj (hr'.symm.trans hr₁)
      rcases hstate with hk | hheld'
      · have hopen : r'.Open := open_run (pre ++ q :: qs) op r' (by rw [hrun]; exact hr')
        exact absurd (hopen hk).1 (by simp [hheld₁])
      · exact absurd (Option.some.inj (hheld₁.symm.trans hheld')) hne
    · exact .inl ⟨qs₁, e, qs₂, rfl, by rw [hrun]; exact hf⟩
    · -- removed: it was there again for the second one, so it was minted
      have hgone : (Server.run ∅ (pre ++ q :: (qs₁ ++ [e]))).get? op = none := by
        rw [hrun, Server.run_append]
        cases hd with
        | removed guard x hx hg =>
          show (Server.delete _ op guard).2.get? op = none
          rw [Server.get?_deleted hx hg, if_pos rfl]
      have hsplit : ∀ l, pre ++ q :: (qs₁ ++ e :: l) = (pre ++ q :: (qs₁ ++ [e])) ++ l :=
        fun l => by simp
      rcases Server.absent_run qs₂ hgone with hnone | ⟨qs₃, m, qs₄, rfl, hm⟩
      · rw [hsplit, Server.run_append, hnone] at hr'
        cases hr'
      · refine .inr ⟨qs₁, e, qs₃, m, qs₄, by simp, by rw [hrun]; exact hd, ?_⟩
        rw [hsplit, Server.run_append]
        exact hm
  · refine open_run pre op r hr ?_
    rcases hw with ⟨key, token, now, rfl⟩ | ⟨userID, token, now, rfl⟩
    · simp only [RecordOp.guard, decide_eq_true_eq] at hg
      simp [hg]
    · simp only [RecordOp.guard, Bool.and_eq_true] at hg
      exact hg.1

/-- A coin of 1000 satoshis is minted, claimed and released. -/
def mintCoin : Request := .create ⟨⟨"a", 0⟩, 7, "default", 1000, 107, .mined⟩ 1

def claimCoin (token : Token) : Request := .operate ⟨"a", 0⟩ (.reserve "7|default|3|9" token 2)

def mintedCoin : Record := mintedRecord 1 ⟨⟨"a", 0⟩, 7, "default", 1000, 107, .mined⟩

def releaseCoin (token : Token) : Request :=
  .operate ⟨"a", 0⟩ (.release (recordToUTXO mintedCoin) token false)

theorem claimCoin_acquires {qs : List Request} {token : Token}
    (h : (Server.run ∅ qs).get? ⟨"a", 0⟩ = some mintedCoin) :
    Server.Acquires (Server.run ∅ qs) ⟨"a", 0⟩ token (claimCoin token) :=
  .claimed "7|default|3|9" 2 mintedCoin h rfl

/-- A second claim goes through after the first was released. -/
theorem claims_exclusive_released :
    (∃ qs₁ e qs₂, [releaseCoin "ref-1"] = qs₁ ++ e :: qs₂
        ∧ Server.Frees (Server.run ∅ ([mintCoin] ++ claimCoin "ref-1" :: qs₁)) ⟨"a", 0⟩ e)
      ∨ ∃ qs₁ d qs₂ m qs₃, [releaseCoin "ref-1"] = qs₁ ++ d :: (qs₂ ++ m :: qs₃)
        ∧ Server.Removes (Server.run ∅ ([mintCoin] ++ claimCoin "ref-1" :: qs₁)) ⟨"a", 0⟩ d
        ∧ Server.Mints (Server.run ∅ ([mintCoin] ++ claimCoin "ref-1" :: (qs₁ ++ d :: qs₂)))
          ⟨"a", 0⟩ m :=
  (claims_exclusive [mintCoin] ⟨"a", 0⟩).1 "ref-1" (claimCoin "ref-1") [releaseCoin "ref-1"] "ref-2"
    (claimCoin "ref-2") (claimCoin_acquires (by decide)) (claimCoin_acquires (by decide))
    (by decide)

end ArcadeToolbox.Aerostore
