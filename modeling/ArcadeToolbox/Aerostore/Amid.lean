import ArcadeToolbox.Aerostore.Exclusive
import ArcadeToolbox.Aerostore.Store
import ArcadeToolbox.Lib.Interference

/-!
# The methods of the Aerospike inventory among other clients

A method sends one request after the other, and the requests of other clients arrive in between.
What a method knows of a record when its next request arrives is what no request of theirs can undo:
that a coin is not held for a token that they do not use, or that a coin is held which they do not
let go.
-/

namespace ArcadeToolbox.Aerostore

open Txn Prog

namespace Request

/-- The request takes the coin for the token, if it goes through. -/
def takes (op : Outpoint) (R : Token) : Request → Bool
  | .operate op' (.reserve _ R' _) => op' = op && R' = R
  | .operate op' (.reserveOutpoint _ R' _) => op' = op && R' = R
  | _ => false

/-- The request ends a hold on the coin, if it goes through. -/
def letsGo (op : Outpoint) : Request → Bool
  | .operate op' (.release _ _ _) => op' = op
  | .operate op' (.spend _ _) => op' = op
  | .operate op' (.unspend _ _) => op' = op
  | .delete op' _ => op' = op
  | _ => false

end Request

namespace Server

variable {s : Server} {op : Outpoint} {R : Token} {q : Request}

/-- No record has a claim key unless it is free. -/
def Opens (s : Server) : Prop := ∀ op r, s.get? op = some r → r.Open

theorem Opens.step (h : Opens s) (q : Request) : Opens (s.step q) := by
  intro op r' hr'
  have hc := change_step s q op
  rw [hr'] at hc
  generalize hb : s.get? op = b at hc
  cases hc with
  | same => exact h op r' hb
  | created m now hq hop => exact open_mintedRecord m now
  | changed w r hq hg => exact (h op r hb).effect w hg

/-- The coin is held for the token, and `T` holds of its user and the time of the hold. -/
def Holding (R : Token) (T : UserID → Option Time → Prop) (op : Outpoint) (s : Server) : Prop :=
  ∃ r, s.get? op = some r ∧ r.resBy = some R ∧ r.spentBy = none ∧ T r.userID r.resAt

def Held (R : Token) (op : Outpoint) (s : Server) : Prop := Holding R (fun _ _ => True) op s

theorem Holding.step {T : UserID → Option Time → Prop} (ho : Opens s) (h : Holding R T op s)
    (hq : q.letsGo op = false) : Holding R T op (s.step q) := by
  obtain ⟨r, hr, hR, hs, hT⟩ := h
  have hclosed := (ho op r hr).claimKey_none hR
  have hc := change_step s q op
  rw [hr] at hc
  generalize hn : (s.step q).get? op = n at hc
  cases hc with
  | same => exact ⟨r, hn, hR, hs, hT⟩
  | deleted guard _ he hg => simp [he, Request.letsGo] at hq
  | changed w _ he hg =>
    subst he
    cases w with
    | reserve key token now => simp [RecordOp.guard, hclosed] at hg
    | reserveOutpoint userID token now => simp [RecordOp.guard, hclosed] at hg
    | release | unspend | spend => simp [Request.letsGo] at hq
    | setPinned | freeze | unfreeze | promote => exact ⟨_, hn, hR, hs, hT⟩

theorem not_held_step (h : ¬ Held R op s) (hq : q.takes op R = false) : ¬ Held R op (s.step q) := by
  rintro ⟨r', hr', hR, hs, -⟩
  have hc := change_step s q op
  rw [hr'] at hc
  generalize hb : s.get? op = b at hc
  cases hc with
  | same => exact h ⟨r', hb, hR, hs, trivial⟩
  | created m now he hop => cases hR
  | changed w r he hg =>
    subst he
    cases w with
    | reserve key token now =>
      obtain rfl : token = R := Option.some.inj hR
      simp [Request.takes] at hq
    | reserveOutpoint userID token now =>
      obtain rfl : token = R := Option.some.inj hR
      simp [Request.takes] at hq
    | release | unspend => cases hR
    | spend => cases hs
    | setPinned | freeze | unfreeze | promote => exact h ⟨r, hb, hR, hs, trivial⟩

end Server

/-- The requests that other clients send in the meantime. -/
def Backend.disturb (qs : List Request) (b : Backend) : Backend :=
  { b with server := b.server.run qs }

section Rules

variable (index : ℕ → List Record → List Record) (cfg : Config) (now : Time) (Φ : Request → Prop)
  (ok : Call → Server → Prop)

/-- Among clients that send requests in `Φ`, if the method's requests are `ok` when they arrive. -/
def Amid {α : Type} (I : Server → Prop) (x : Method α) (Q : α → Server → Prop) : Prop :=
  EnsuresAmid (Backend.exec index cfg now) Backend.disturb (fun qs => ∀ q ∈ qs, Φ q) (fun c b =>
      ok c b.server)
    (fun b => I b.server) x fun a b => Q a b.server

/-- No request of the others undoes it. -/
def Stable (I : Server → Prop) : Prop := ∀ q, Φ q → ∀ s : Server, I s → I (s.step q)

variable {index cfg now Φ ok} {I : Server → Prop}

theorem Stable.run (h : Stable Φ I) : ∀ (qs : List Request), (∀ q ∈ qs, Φ q) → ∀ s : Server,
    I s → I (s.run qs)
  | [], _, _, hs => hs
  | q :: qs, hqs, s, hs => h.run qs (fun q hq => hqs q (List.mem_cons_of_mem _ hq)) (s.step q)
      (h q (hqs q List.mem_cons_self) s hs)

theorem amid_pure {α : Type} {a : α} {Q : α → Server → Prop} (h : ∀ s, I s → Q a s) :
    Amid index cfg now Φ ok I (pure a) Q :=
  ensuresAmid_done fun b hb => h b.server hb

theorem amid_bind {α β : Type} {x : Method α} {f : α → Method β} {J : α → Server → Prop}
    {Q : β → Server → Prop}
    (hx : Amid index cfg now Φ ok I x J) (hf : ∀ a, Amid index cfg now Φ ok (J a) (f a) Q) :
    Amid index cfg now Φ ok I (x >>= f) Q :=
  ensuresAmid_bind hx hf

theorem amid_weaken {α : Type} {x : Method α} {I' : Server → Prop} {Q Q' : α → Server → Prop}
    (hx : Amid index cfg now Φ ok I x Q) (hp : ∀ s, I' s → I s) (hq : ∀ a s, Q a s → Q' a s) :
    Amid index cfg now Φ ok I' x Q' :=
  ensuresAmid_weaken hx (fun b => hp b.server) fun a b => hq a b.server

theorem amid_forEach {γ β : Type} {f : γ → Method β} {J : List γ → Server → Prop}
    (hf : ∀ a l, Amid index cfg now Φ ok (J (a :: l)) (f a) fun _ => J l) (l : List γ) :
    Amid index cfg now Φ ok (J l) (forEach f l) fun _ => J [] :=
  ensuresAmid_forEach (I := fun l (b : Backend) => J l b.server) hf l

theorem amid_getRecord (hI : Stable Φ I) (op : Outpoint) :
    Amid index cfg now Φ ok I (Store.getRecord op) fun rec s => rec = s.get? op ∧ I s :=
  ensuresAmid_ask (fun qs hqs b hb => hI.run qs hqs b.server hb) fun _ hb _ => ⟨rfl, hb⟩

theorem amid_operate (hI : Stable Φ I) {op : Outpoint} {w : RecordOp}
    {Q : OperateResult → Server → Prop}
    (hQ : ∀ s, I s → ok (.server (.operate op w)) s → Q (s.operate op w).1 (s.operate op w).2) :
    Amid index cfg now Φ ok I (Store.operate op w) Q :=
  ensuresAmid_ask (fun qs hqs b hb => hI.run qs hqs b.server hb) fun b hb hok => hQ b.server hb hok

theorem amid_noteClaimableAllTiers (hI : Stable Φ I) (u : Utxo) :
    Amid index cfg now Φ ok I (Store.noteClaimableAllTiers u) fun _ => I := by
  refine amid_bind (J := fun _ => I) (amid_forEach (J := fun _ => I) (fun t _ => ?_) _) fun _ =>
      amid_pure fun _ hs => hs
  refine ensuresAmid_ask (fun qs hqs b hb => hI.run qs hqs b.server hb) fun b hb _ => ?_
  exact (congrArg I (b.server_markClaimable cfg _)).mpr hb

end Rules

def oneCoin : Backend := { Backend.initial 0 with server := Server.run ∅ [mintCoin] }

end ArcadeToolbox.Aerostore
