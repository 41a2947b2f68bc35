import ArcadeToolbox.System.Tiers

/-!
# The status lattice and the writes

The oracle's status of a row is checked against the lattice when a record is routed, on the row as
it was read; the write comes later and looks at nothing. The backfill of the mined repair checks
nothing at all.

Every task that waits to write a status carries one that supersedes the status of the row. A write
keeps this for the tasks that carry the same status, since a status supersedes itself.
-/

namespace ArcadeToolbox

open Txn Storage

namespace ArcadeStatus

theorem canSupersede_self (st : ArcadeStatus) : st.canSupersede (some st) = true := by
  simp [canSupersede]

end ArcadeStatus

theorem canSupersede_of_route {k : KnownTx} {rec : TxRecord} (h : statusRoute k rec ≠ .ignore) :
    rec.status.canSupersede k.arcadeStatus = true := by
  by_contra hno
  refine h ?_
  unfold statusRoute
  dsimp only
  split_ifs <;> simp_all

theorem getLast_of_mem_routed {known : List KnownTx} {recs : List TxRecord} {route : Route}
    {x : TxRecord × KnownTx} (h : x ∈ routed known recs route) :
    (recordsOf recs x.1.txid).getLast? = some x.1 := by
  obtain ⟨t, -, h⟩ := List.mem_filterMap.mp h
  split at h
  · cases h
  rename_i k hk
  split at h
  · rename_i rec r hr
    split at h
    · cases h
      unfold batchRoute at hr
      split_ifs at hr
      split at hr
      · cases hr
      · rename_i hlast
        cases hr
        have ht := of_decide_eq_true (List.mem_filter.mp (List.mem_of_getLast? hlast)).2
        rwa [ht]
    · cases h
  · cases h

/-- The statuses of the oracle that a task writes, and for which transactions. -/
def Task.records : Task → List (TxID × ArcadeStatus)
  | .seen rec | .minedCommit rec _ | .rejected rec | .repair rec _ => [(rec.txid, rec.status)]
  | .record t st => [(t, st)]
  | .batchCommit plan =>
    (plan.seen ++ plan.verified.map (·.1) ++ plan.rejected ++ plan.arcadeOnly).map fun rec =>
      (rec.txid, rec.status)
  | _ => []

/-- The statuses that a task is going to write, or to have written. -/
def Task.decides : Task → List (TxID × ArcadeStatus)
  | .mined rec => [(rec.txid, rec.status)]
  | t => t.records

/-- What the backfill writes without looking at the row. -/
def Task.backfills (env : Env) : Task → Option (TxID × ArcadeStatus)
  | .repairOne k =>
    match storedProofRecord k with
    | some rec => some (rec.txid, rec.status)
    | none =>
      match env.getTx k.txid with
      | .found found =>
        some (if found.status.isMinedClass && found.txid ≠ "" then found.txid else k.txid,
            found.status)
      | _ => none
  | _ => none

/-- The tasks of `ApplyStatusUpdate`, `ApplyStatusBatch`, `CheckProofs` and
`DemoteReorgedProofs`. -/
def Task.checks : Task → Bool
  | .pollFind _ _ _ | .poll _ | .pollApply _ | .repairBacklog _ | .repairPolled _ | .repairOne _
  | .demote _ | .demoteOne _ => true
  | t => t.applies

/-- The transaction whose status a task resets. -/
def Task.demotes : Task → Option TxID
  | .demoteOne k => some k.txid
  | _ => none

def Life.arcade (L : Life) : Option ArcadeStatus := L.row.bind (·.arcadeStatus)

/-- What a write sets the status of the oracle to, if it sets it. -/
def KnownWrite.setsArcade : KnownWrite → Option (Option ArcadeStatus)
  | .markSuspect _ _ st _ | .setArcadeStatus st => some (some st)
  | .clearProof _ => some none
  | _ => none

theorem KnownWrite.edit_arcadeStatus (w : KnownWrite) (now : Time) (k : KnownTx) :
    (w.edit now k).arcadeStatus = w.setsArcade.getD k.arcadeStatus := by
  cases w <;> rfl

variable {T : TxID} {t t' : Task} {now : Time} {L L' : Life} {m m' : Metadata}
  {p : Provider} {env : Env}

theorem Life.Step.arcade {A : LifeOp → Prop} (h : Life.Step T A now L L') :
    L'.arcade = L.arcade ∨ ∃ w, A (.write w) ∧ w.setsArcade = some L'.arcade := by
  cases h with
  | write ha =>
    rename_i w k h _ _
    have hedit : Life.arcade ⟨some (w.edit now k), h ++ w.events now T⟩
        = w.setsArcade.getD k.arcadeStatus := w.edit_arcadeStatus now k
    rcases hw : w.setsArcade with _ | st
    · left
      rw [hedit, hw]
      rfl
    · right
      refine ⟨w, ha, ?_⟩
      rw [hedit, hw]
      rfl
  | _ => exact Or.inl rfl

variable {a : Option ArcadeStatus}

theorem arcade_of_touches {w : KnownWrite} (hc : t.checks = true)
    (h : t.Touches T (.write w)) (hw : w.setsArcade = some a) :
    (∃ st, (T, st) ∈ t.records ∧ a = some st) ∨ t.demotes = some T ∧ a = none := by
  obtain ⟨op, ⟨_, hop⟩, ho⟩ := h
  cases hop with
  | plain hp =>
    cases on_of_plain hp ho
    cases hw
  | seenRecord | minedRecord | record | repairRecord | rejected =>
    obtain ⟨rfl, ho⟩ := ho
    cases ho
    cases hw
    exact Or.inl ⟨_, List.mem_singleton_self _, rfl⟩
  | batchRecord hrec =>
    obtain ⟨ht, ho⟩ := ho
    cases List.mem_singleton.mp ht
    cases ho
    cases hw
    refine Or.inl ⟨_, List.mem_map.mpr ⟨_, ?_, rfl⟩, rfl⟩
    simp only [List.mem_append] at hrec ⊢
    tauto
  | batchRejected hrec =>
    obtain ⟨rfl, ho⟩ := ho
    cases ho
    cases hw
    refine Or.inl ⟨_, List.mem_map.mpr ⟨_, ?_, rfl⟩, rfl⟩
    simp [hrec]
  | demote =>
    obtain ⟨rfl, ho⟩ := ho
    cases ho
    cases hw
    exact Or.inr ⟨rfl, rfl⟩
  | seen | mined | repair | batchSeen | batchMined =>
    obtain ⟨-, ho⟩ := ho
    cases ho
    cases hw
  | saw | verified | repairVerified | batchSaw | batchVerified =>
    cases (show LifeOp.write w = .note _ from ho)
  | _ => cases hc

/-- A task of the checks leaves the status of the oracle, writes one that it carries, or resets
it. -/
theorem arcade_exec (hc : t.checks = true) (s : Shared) :
    ((t.exec p env s).1.db.metadata.life T).arcade = (s.db.metadata.life T).arcade
    ∨ (∃ st, (T, st) ∈ t.records ∧ ((t.exec p env s).1.db.metadata.life T).arcade = some st)
    ∨ t.demotes = some T ∧ ((t.exec p env s).1.db.metadata.life T).arcade = none := by
  refine (exec_life p env t s T).keeps (I := fun L => L.arcade = (s.db.metadata.life T).arcade
    ∨ (∃ st, (T, st) ∈ t.records ∧ L.arcade = some st) ∨ t.demotes = some T ∧ L.arcade = none) ?_
    (Or.inl rfl)
  intro _ L L' hs hL
  rcases hs.arcade with he | ⟨w, hw, hset⟩
  · rwa [he]
  · exact Or.inr (arcade_of_touches hc hw hset)

/-- What a task carries for `T` supersedes the status `a`, and is one status. -/
def Task.Admits (T : TxID) (a : Option ArcadeStatus) (t : Task) : Prop :=
  ∀ x ∈ t.decides, x.1 = T → x.2.canSupersede a = true ∧ ∀ y ∈ t.decides, y.1 = T → y.2 = x.2

theorem admits_of_decides {x : TxID × ArcadeStatus} (h : t.decides = [x])
    (ha : x.1 = T → x.2.canSupersede a = true) : t.Admits T a := by
  intro y hy ht
  rw [h, List.mem_singleton] at hy
  subst hy
  refine ⟨ha ht, fun z hz _ => ?_⟩
  rw [h, List.mem_singleton] at hz
  rw [hz]

theorem admits_of_nil (h : t.decides = []) : t.Admits T a := by
  intro x hx
  rw [h] at hx
  cases hx

theorem arcade_of_mem {k : KnownTx} (hk : k ∈ m.knownTxs) (ht : k.txid = T) :
    (m.life T).arcade = k.arcadeStatus := by
  rw [Life.arcade, life_row_of_mem hk ht]
  rfl

/-- The records a batch writes are routed, each by the row of its txid. -/
theorem mem_batchPlan_decides {known : List KnownTx} {recs : List TxRecord}
    {x : TxID × ArcadeStatus} (h : x ∈ (Task.batchCommit (batchPlan p env known recs)).decides) :
    ∃ y route, y ∈ routed known recs route ∧ route ≠ .ignore ∧ x = (y.1.txid, y.1.status) := by
  obtain ⟨rec, hrec, rfl⟩ := List.mem_map.mp h
  have hpick : ∀ route, rec ∈ (routed known recs route).map (·.1) → route ≠ .ignore →
      ∃ y route, y ∈ routed known recs route ∧ route ≠ .ignore
        ∧ (rec.txid, rec.status) = (y.1.txid, y.1.status) := by
    intro route hr hne
    obtain ⟨y, hy, rfl⟩ := List.mem_map.mp hr
    exact ⟨y, route, hy, hne, rfl⟩
  simp only [List.mem_append, or_assoc] at hrec
  rcases hrec with hr | hr | hr | hr
  · exact hpick .seen hr (by decide)
  · obtain ⟨pr, hpr, rfl⟩ := List.mem_map.mp hr
    unfold batchPlan at hpr
    dsimp only at hpr
    split at hpr
    · cases hpr
    · obtain ⟨y, hy, h⟩ := List.mem_filterMap.mp hpr
      obtain ⟨_, -, rfl⟩ := Option.map_eq_some_iff.mp h
      exact ⟨y, .mined, hy, by decide, rfl⟩
  · exact hpick .rejected hr (by decide)
  · exact hpick .recordOnly hr (by decide)

theorem admits_batchPlan {known : List KnownTx} {recs : List TxRecord}
    (hknown : ∀ k ∈ known, k ∈ m.knownTxs) :
    (Task.batchCommit (batchPlan p env known recs)).Admits T (m.life T).arcade := by
  intro x hx ht
  obtain ⟨y, route, hy, hne, rfl⟩ := mem_batchPlan_decides hx
  obtain ⟨hk, hkt, -, -, hroute⟩ := mem_routed hy
  refine ⟨?_, fun x' hx' ht' => ?_⟩
  · rw [arcade_of_mem (hknown _ hk) (hkt.trans ht)]
    exact canSupersede_of_route (hroute ▸ hne)
  · obtain ⟨y', route', hy', -, rfl⟩ := mem_batchPlan_decides hx'
    have hlast := getLast_of_mem_routed hy
    have hlast' := getLast_of_mem_routed hy'
    rw [show y'.1.txid = y.1.txid from ht'.trans ht.symm, hlast] at hlast'
    rw [Option.some.inj hlast']

theorem admits_of_leads (hl : Leads p env m m' t t') (ha : t.Admits T (m.life T).arcade)
    (hb : ∀ x ∈ t.backfills env, x.1 = T → x.2.canSupersede (m.life T).arcade = true) :
    t'.Admits T (m.life T).arcade := by
  have hread : ∀ {k : KnownTx} {rec : TxRecord}, k ∈ m.knownTxs → k.txid = rec.txid →
      statusRoute k rec ≠ .ignore → rec.txid = T →
          rec.status.canSupersede (m.life T).arcade = true := by
    intro k rec hk hkt hr ht
    rw [arcade_of_mem hk (hkt.trans ht)]
    exact canSupersede_of_route hr
  cases hl with
  | record hk hkt hr | mined hk hkt hr | repair hk hkt hr | rejected hk hkt hr =>
    exact admits_of_decides rfl fun ht => hread hk hkt (by simp [hr]) ht
  | seen hk hkt hr => exact admits_of_decides rfl fun ht => hread hk hkt (by simp [hr]) ht
  | minedCommit => exact ha
  | batchCommit hknown => exact admits_batchPlan hknown
  | repairStored hp =>
    refine admits_of_decides rfl fun ht => hb _ ?_ ht
    simp [Task.backfills, hp]
  | repairFound hp hg hm =>
    rename_i k found
    by_cases he : found.txid = ""
    · rw [if_pos he]
      refine admits_of_decides rfl fun ht => hb (k.txid, found.status) ?_ ht
      simp [Task.backfills, hp, hg, he]
    · rw [if_neg he]
      refine admits_of_decides rfl fun ht => hb (found.txid, found.status) ?_ ht
      simp [Task.backfills, hp, hg, hm, he]
  | repairRecord hp hg hm =>
    refine admits_of_decides rfl fun ht => hb _ ?_ ht
    simp [Task.backfills, hp, hg, hm]
  | _ => exact admits_of_nil rfl

theorem checks_of_leads (hl : Leads p env m m' t t') (h : t.checks = true) : t'.checks = true := by
  cases hl <;> first | rfl | cases h

/-- Only records are applied, proofs checked and reorganisations followed. A status of `T` is
written while no task carries another one for it, and what the backfill takes for `T` supersedes the
status of the row. -/
def LatticeStep (T : TxID) (s : System) : Step → Prop
  | .spawn op => ∀ t ∈ op.start, t.checks = true
  | .run i env => ∀ t ∈ Code.top s (.run i env : Step),
      (∀ x ∈ t.records, x.1 = T → ∀ th ∈ s.threads, ∀ t' ∈ th, ∀ y ∈ t'.decides,
          y.1 = T → y.2 = x.2)
      ∧ ∀ x ∈ t.backfills env, x.1 = T →
        x.2.canSupersede (s.shared.db.metadata.life T).arcade = true

/-- The status `a` of `T` is kept, superseded by `b`, or reset by a demotion of `T`. -/
def Supersedes (T : TxID) (t : Option Task) (a b : Option ArcadeStatus) : Prop :=
  b = a ∨ (∃ st, b = some st ∧ st.canSupersede a = true) ∨ b = none ∧ t.bind (·.demotes) = some T

section Step

variable {s : System} {l : Step}

theorem records_decides {x : TxID × ArcadeStatus} (h : x ∈ t.records) : x ∈ t.decides := by
  cases t with
  | mined => cases h
  | _ => exact h

/-- What waits is admitted again after a step that writes no other status. -/
theorem admits_exec (hok : LatticeStep T s l) (hr : Code.Runs s l env t) (hc : t.checks = true)
    (hA : Code.Waiting (fun d : Shared => fun t => t.checks = true
      ∧ t.Admits T (d.db.metadata.life T).arcade) s) :
    ∀ th ∈ s.threads, ∀ t' ∈ th, t'.checks = true
      ∧ t'.Admits T ((t.exec p env s.shared).1.db.metadata.life T).arcade := by
  intro th hth t' ht'
  obtain ⟨hc', ha'⟩ := hA th hth t' ht'
  refine ⟨hc', ?_⟩
  have htop := hr.top
  obtain ⟨i, rest, rfl, -⟩ := hr
  rcases arcade_exec (p := p) (T := T) hc s.shared with he | ⟨st, hst, he⟩ | ⟨-, he⟩ <;> rw [he]
  · exact ha'
  · intro x hx ht
    have hsame := (hok t htop).1 (T, st) hst rfl th hth t' ht' x hx ht
    exact ⟨hsame ▸ ArcadeStatus.canSupersede_self st, (ha' x hx ht).2⟩
  · exact fun x hx ht => ⟨rfl, (ha' x hx ht).2⟩

theorem arcade_of_pushed (hc : t.checks = true) (ht' : t' ∈ (t.exec p env s.shared).2.pushed)
    (hd : t'.decides ≠ []) : ((t.exec p env s.shared).1.db.metadata.life T).arcade
      = (s.shared.db.metadata.life T).arcade := by
  have hl := exec_leads p env t s.shared ht'
  have hno : t.records = [] ∧ t.demotes = none := by
    cases hl <;> first | exact ⟨rfl, rfl⟩ | exact absurd rfl hd
  rcases arcade_exec (p := p) (T := T) hc s.shared with he | ⟨st, hst, -⟩ | ⟨hdem, -⟩
  · exact he
  · rw [hno.1] at hst
    cases hst
  · rw [hno.2] at hdem
    cases hdem

end Step

theorem decides_start (op : Operation) : ∀ t ∈ op.start, t.decides = [] := by
  intro t ht
  cases op with
  | checkProofs =>
    simp only [Operation.start, List.mem_cons, List.not_mem_nil, or_false] at ht
    rcases ht with rfl | rfl | rfl <;> rfl
  | _ =>
    cases List.mem_singleton.mp ht
    rfl

theorem admits_runs (p : Provider) (T : TxID) (s : System) (ls : List Step)
    (hidle : ∀ th ∈ s.threads, th = []) (h : (wallet p).Along (LatticeStep T) s ls) :
    Code.Waiting (fun d : Shared => fun t => t.checks = true
      ∧ t.Admits T (d.db.metadata.life T).arcade) ((wallet p).runs s ls) := by
  refine (Code.runs_waiting (J := fun _ => True)
    (fun _ op hok _ t ht => ⟨hok t ht, admits_of_nil (decides_start op t ht)⟩) ?_ ls s h
    ⟨trivial, fun th hth t ht => ?_⟩).2
  · intro s l env t hok hr _ hA
    obtain ⟨hc, ha⟩ := hr.waiting hA
    refine ⟨trivial, fun t' ht' => ?_, admits_exec hok hr hc hA⟩
    have hl := exec_leads p env t s.shared ht'
    refine ⟨checks_of_leads hl hc, ?_⟩
    by_cases hd : t'.decides = []
    · exact admits_of_nil hd
    · have htop := hr.top
      obtain ⟨i, rest, rfl, -⟩ := hr
      change t'.Admits T ((t.exec p env s.shared).1.db.metadata.life T).arcade
      rw [arcade_of_pushed hc ht' hd]
      exact admits_of_leads hl ha (hok t htop).2
  · rw [hidle th hth] at ht
    cases ht

/-- From every state in which nothing is going on, each step of a run of record applications, proof
checks and demotions overwrites the oracle's status of `T` along the lattice or resets it with a
demotion of `T`, if statuses of `T` are written while no other call carries a different one, and the
backfill only takes what the lattice admits. -/
theorem arcade_status_supersedes (p : Provider) (T : TxID) (s : System) (ls : List Step) (l : Step)
    (hidle : ∀ th ∈ s.threads, th = []) (h : (wallet p).Along (LatticeStep T) s (ls ++ [l])) :
    Supersedes T (Code.top ((wallet p).runs s ls) l)
      (((wallet p).runs s ls).shared.db.metadata.life T).arcade
      (((wallet p).runs s (ls ++ [l])).shared.db.metadata.life T).arcade := by
  obtain ⟨hls, -⟩ := Code.along_concat.mp h
  have hA := admits_runs p T s ls hidle hls
  rw [Code.runs_concat]
  generalize (wallet p).runs s ls = s₁ at hA
  rcases Code.step_cases (c := wallet p) s₁ l with ⟨op, rfl, he⟩ | ⟨i, env, t, rest,
      rfl, hi, -⟩ | he
  · exact Or.inl (by rw [he])
  · have hr : Code.Runs s₁ (.run i env : Step) env t := ⟨i, rest, rfl, hi⟩
    obtain ⟨hc, ha⟩ := hr.waiting hA
    have hshared : ((wallet p).step s₁ (.run i env)).shared = (t.exec p env s₁.shared).1 :=
      hr.step_shared
    rw [hshared, hr.top]
    rcases arcade_exec (p := p) (T := T) hc s₁.shared with hb | ⟨st, hst, hb⟩ | ⟨hdem, hb⟩
    · exact Or.inl hb
    · exact Or.inr (Or.inl ⟨st, hb, (ha (T, st) (records_decides hst) rfl).1⟩)
    · exact Or.inr (Or.inr ⟨hb, hdem⟩)
  · exact Or.inl (by rw [he])

instance (T : TxID) (s : System) : ∀ l : Step, Decidable (LatticeStep T s l)
  | .spawn op => inferInstanceAs (Decidable (∀ t ∈ op.start, _))
  | .run i env => inferInstanceAs (Decidable (∀ t ∈ Code.top s (.run i env : Step), _))

/-- The oracle refuses the child, and reports it as immutable later. -/
def immutableSuspectSteps : List Step :=
  paidSteps ++ createCallSteps ++ signRejectedSteps
    ++ .spawn (.applyStatusUpdate (childRecord .immutable)) :: List.replicate 3 (.run 3 Env.mining)

/-- The proofs are checked, up to the backfill of the child. -/
def backfillSteps : List Step := .spawn (.checkProofs 0 10) :: List.replicate 6 (.run 4 Env.mining)

/-- The oracle's status of the child after a run. -/
def childArcade (p : Provider) (ls : List Step) : Option ArcadeStatus :=
  (((wallet p).runs System.initial ls).shared.db.metadata.life "child").arcade

theorem arcade_status_regresses :
    childArcade (paidProvider .b) (immutableSuspectSteps ++ backfillSteps) = some .immutable
    ∧ childArcade (paidProvider .b) (immutableSuspectSteps ++ backfillSteps ++ [.run 4 Env.mining])
      = some .mined
    ∧ ArcadeStatus.mined.canSupersede (some .immutable) = false
    ∧ childArcade (paidProvider .a) (sentChildSteps ++ lateSeenSteps.dropLast) = some .mined
    ∧ childArcade (paidProvider .a) (sentChildSteps ++ lateSeenSteps) = some .seenOnNetwork
    ∧ ArcadeStatus.seenOnNetwork.canSupersede (some .mined) = false := by
  decide +kernel

theorem arcade_status_supersedes_in_order :
    Supersedes "child"
      (Code.top ((wallet (paidProvider .a)).runs ((wallet (paidProvider .a)).runs System.initial
        sentChildSteps) seenThenMinedSteps.dropLast) (.run 4 Env.mining : Step))
      (((wallet (paidProvider .a)).runs ((wallet (paidProvider .a)).runs System.initial
        sentChildSteps)
        seenThenMinedSteps.dropLast).shared.db.metadata.life "child").arcade
      (((wallet (paidProvider .a)).runs ((wallet (paidProvider .a)).runs System.initial
        sentChildSteps)
        (seenThenMinedSteps.dropLast ++ [.run 4 Env.mining] : List Step)).shared.db.metadata.life
          "child").arcade :=
  arcade_status_supersedes (paidProvider .a) "child"
    ((wallet (paidProvider .a)).runs System.initial sentChildSteps) seenThenMinedSteps.dropLast
    (.run 4 Env.mining) (by decide +kernel) (by decide +kernel)

end ArcadeToolbox
