import Mathlib.Logic.Function.Basic
import LlmGateway.Gateway.RollingUpdater
import LlmGateway.Replica.ReplicaServer

/-!
# A drain that times out

`RollingUpdater::Update` next to the replicas it drains: the Drain request of `DrainReplica` travels
to the process of the replica, whose handler may begin at any later moment, after the deadline too,
or never. The process of a replica is the one that its address in the registry leads to;
`restart_fn` puts a new one in its place.

The error path of `Update` takes back the flag of the registry. The replica has a flag of its own,
which nothing takes back but a restart.

1. `Rollout.Undrained`: after the error path, the registry has the replica routable again.
2. `flagged_iff`: the flag of a process is set exactly if it was set at the start or a `Drain`
   handler of the process has set it.
3. `restored_iff`: so an update that has given up leaves the replica as it was exactly if no handler
   comes to set the flag.
-/

namespace LlmGateway.Gateway

open Gossip Replica Transition

namespace Rollout

/-- The replica whose Drain call runs into its deadline in the step. -/
def expires (s : Rollout) : RolloutAct → List String
  | .drainReply .deadlineExceeded =>
    match s.pc with
    | .drainRpc id _ => [id]
    | _ => []
  | _ => []

end Rollout

/-! ## The updater and the replicas -/

/-- An update, the running process of each replica, and the Drain requests that no handler has taken
up yet, by the id of the replica they are for. -/
structure Fleet where
  rollout : Rollout
  replicas : String → ReplicaPool
  drains : List String := []

inductive FleetAct
  | rollout (l : RolloutAct)
  /-- A Drain request reaches the replica, which starts its handler. -/
  | deliver (id : String)
  /-- A `Generate` call arrives, a handler goes on, or a fault is injected. -/
  | replica (id : String) (l : ReplicaLabel)
  deriving DecidableEq

namespace Fleet

variable (f : Fleet)

/-- The updater is called while the replicas do something. -/
def start (registry : ReplicaRegistry) (replicaIds : List String) (replicas : String → ReplicaPool) :
    Fleet where
  rollout := Rollout.start registry replicaIds
  replicas := replicas

def setReplica (id : String) (p : ReplicaPool) : Fleet :=
  { f with replicas := Function.update f.replicas id p }

/-- The Drain call can return with this answer: with OK only once a handler has returned. -/
def answers : DrainReply → Bool
  | .ok success =>
    match f.rollout.pc with
    | .drainRpc id _ => success && decide (.drain .drained ∈ (f.replicas id).calls)
    | _ => false
  | .deadlineExceeded | .failed => true

/-- A step of `Update`, with what it does to the replicas: `DrainReplica` sends its request, and
`restart_fn` starts a new process, which knows nothing of requests to the old one. -/
def updated (r : Rollout) : Fleet :=
  match f.rollout.pc, r.pc with
  | .getReplica id _, .drainRpc _ _ => { f with rollout := r, drains := id :: f.drains }
  | .restartFn id _, _ =>
    { rollout := r
      replicas := Function.update f.replicas id newReplica
      drains := f.drains.filter (· ≠ id) }
  | _, _ => { f with rollout := r }

/-- One step of the updater, of the gossip, of the network or of a replica. -/
def step (rejoinTimeoutMs : ℤ) (f : Fleet) : FleetAct → Option Fleet
  | .rollout .update => (f.rollout.step rejoinTimeoutMs .update).map f.updated
  | .rollout (.drainReply r) =>
    if f.answers r then
      (f.rollout.step rejoinTimeoutMs (.drainReply r)).map fun rollout => { f with rollout }
    else none
  | .rollout l => (f.rollout.step rejoinTimeoutMs l).map fun rollout => { f with rollout }
  | .deliver id =>
    if id ∈ f.drains then
      (replicaProgram.step (f.replicas id) (.spawn .drain)).map fun p =>
        { f.setReplica id p with drains := f.drains.erase id }
    else none
  | .replica id l =>
    if l = .spawn .drain then none
    else (replicaProgram.step (f.replicas id) l).map (f.setReplica id)

/-! ## What a run has done -/

/-- The replica whose Drain call runs into its deadline in the step. -/
def expires (f : Fleet) : FleetAct → List String
  | .rollout l => f.rollout.expires l
  | _ => []

/-- The process whose `Drain` handler sets the flag in the step: its replica, and how often that has
been restarted. -/
def stores (f : Fleet) : FleetAct → List (String × ℕ)
  | .replica id (.call i _) =>
    if (f.replicas id).calls[i]? = some (.drain .entered) then [(id, f.rollout.inst id)] else []
  | _ => []

/-- The replicas whose drain has timed out in a run. -/
def timeouts (ms : ℤ) (f₀ : Fleet) (es : List FleetAct) : List String := trace (step ms) expires f₀ es

/-- The processes whose handlers have set their flags in a run. -/
def stored (ms : ℤ) (f₀ : Fleet) (es : List FleetAct) : List (String × ℕ) :=
  trace (step ms) stores f₀ es

/-- The gateway routes to the replica, and the replica does not turn new calls away. -/
structure Restored (f : Fleet) (id : String) : Prop where
  routable : ∀ info, f.rollout.registry.getReplica id = some info → info.draining = false
  accepting : (f.replicas id).shared.draining = false

/-- Once the update has given up, the replica whose drain has timed out is as it was. -/
def GivesBack (ms : ℤ) (f₀ : Fleet) (es : List FleetAct) (f : Fleet) : Prop :=
  f.rollout.pc = .returned false → ∀ id ∈ timeouts ms f₀ es, f.Restored id

/-- No `Drain` handler of the running process has set the flag, and it was not set when the update
began. -/
def Unflagged (ms : ℤ) (f₀ : Fleet) (es : List FleetAct) (f : Fleet) (id : String) : Prop :=
  (f.rollout.inst id = 0 → (f₀.replicas id).shared.draining = false) ∧
    (id, f.rollout.inst id) ∉ stored ms f₀ es

end Fleet

/-! ## The registry -/

/-- The replica is not marked draining. -/
def ReplicaRegistry.Routable (r : ReplicaRegistry) (id : String) : Prop :=
  ∀ info, r.getReplica id = some info → info.draining = false

theorem routable_setDraining (r : ReplicaRegistry) (id : String) :
    (r.setDraining id false).Routable id := by
  intro info h
  unfold ReplicaRegistry.setDraining at h
  rw [ReplicaRegistry.getReplica_modify] at h
  obtain ⟨old, -, rfl⟩ := Option.map_eq_some_iff.mp h
  rfl

theorem ReplicaRegistry.Routable.updateFromGossip {r : ReplicaRegistry} {id id' : String}
    {u : MembershipUpdate} (h : r.Routable id) : (r.updateFromGossip id' u).1.Routable id := by
  intro info hinfo
  by_cases hid : id = id'
  · subst hid
    have hold : (((r.getReplica id).getD {}).refresh u).draining = false := by
      show ((r.getReplica id).getD {}).draining = false
      cases hget : r.getReplica id with
      | none => rfl
      | some old => exact h old hget
    simp only [ReplicaRegistry.updateFromGossip] at hinfo
    split_ifs at hinfo
    · split at hinfo <;>
      · rw [ReplicaRegistry.getReplica_set] at hinfo
        cases hinfo
        exact hold
    · rw [ReplicaRegistry.getReplica_set] at hinfo
      cases hinfo
      exact hold
  · rw [ReplicaRegistry.getReplica_updateFromGossip_of_ne u hid] at hinfo
    exact h info hinfo

/-! ## The updater -/

namespace Rollout

variable {s s' : Rollout} {l : RolloutAct} {ms : ℤ} {ts : List String} {b : Bool}

/-- The drain that has timed out so far, and the mark of its replica on the way out. -/
def Undrained (s : Rollout) (ts : List String) : Prop :=
  match s.pc with
  | .undrain id => ts = [id]
  | .undrainRing id => ts = [id] ∧ s.registry.Routable id
  | .returned false => ∃ id, ts = [id] ∧ s.registry.Routable id
  | _ => ts = []

theorem Undrained.updateStep (h : s.Undrained ts) (hs : s.updateStep ms = some s') :
    s'.Undrained ts := by
  unfold Undrained at h
  unfold Rollout.updateStep at hs
  cases hpc : s.pc <;> rw [hpc] at h hs
  case next rest => cases rest <;> cases hs <;> exact h
  case drainRpc => cases hs
  case undrain id =>
    cases hs
    exact ⟨h, routable_setDraining _ _⟩
  case undrainRing id =>
    cases hs
    exact ⟨id, h⟩
  case returned => cases hs
  case getReplica | readClock | poll | sleep =>
    dsimp only at hs
    split_ifs at hs <;> cases hs <;> exact h
  all_goals
    cases hs
    exact h

theorem Undrained.frame (h : s.Undrained ts) (hpc : s'.pc = s.pc)
    (hregistry : ∀ id, s.registry.Routable id → s'.registry.Routable id) : s'.Undrained ts := by
  unfold Undrained at h ⊢
  rw [hpc]
  split at h
  · exact h
  · exact ⟨h.1, hregistry _ h.2⟩
  · exact h.imp fun id h => ⟨h.1, hregistry id h.2⟩
  · exact h

/-- What is not a step of `Update` starts no instance, and leaves the updater where it is unless it
is the answer to a Drain call. -/
theorem outside_step (hl : l ≠ .update) (hs : s.step ms l = some s') :
    s'.instances = s.instances ∧
      ((s'.pc = s.pc ∧ s.expires l = [] ∧
          ∀ id, s.registry.Routable id → s'.registry.Routable id) ∨
        ∃ r id rest, l = .drainReply r ∧ s.pc = .drainRpc id rest) := by
  cases l with
  | tick ns =>
    cases hs
    exact ⟨rfl, Or.inl ⟨rfl, rfl, fun _ hr => hr⟩⟩
  | gossip id u inst =>
    unfold Rollout.step at hs
    dsimp only at hs
    split_ifs at hs
    cases hs
    exact ⟨rfl, Or.inl ⟨rfl, rfl, fun _ hr => hr.updateFromGossip⟩⟩
  | drainReply r =>
    unfold Rollout.step Rollout.drainReply at hs
    cases hpc : s.pc <;> simp only [hpc] at hs
    case drainRpc id rest => cases r <;> cases hs <;> exact ⟨rfl, Or.inr ⟨_, id, rest, rfl, rfl⟩⟩
    all_goals cases hs
  | update => exact absurd rfl hl

/-- **One step of the updater.** -/
theorem Undrained.step (h : s.Undrained ts) (hs : s.step ms l = some s') :
    s'.Undrained (ts ++ s.expires l) := by
  by_cases hl : l = .update
  · subst hl
    rw [show s.expires .update = [] from rfl, List.append_nil]
    exact h.updateStep hs
  · obtain ⟨-, ⟨hpc, hnone, hregistry⟩ | ⟨r, id, rest, rfl, hpc⟩⟩ := outside_step hl hs
    · rw [hnone, List.append_nil]
      exact h.frame hpc hregistry
    · unfold Undrained at h
      unfold expires
      simp only [Rollout.step, Rollout.drainReply, hpc] at h hs ⊢
      subst h
      cases r <;> cases hs <;> rfl

/-- Only `restart_fn` starts an instance. -/
theorem inst_step (hs : s.step ms l = some s') :
    (∃ id rest, l = .update ∧ s.pc = .restartFn id rest ∧
      s'.instances = s.instances.insert id (s.inst id + 1)) ∨
      (l = .update → ∀ id rest, s.pc ≠ .restartFn id rest) ∧ s'.instances = s.instances := by
  by_cases hl : l = .update
  · subst hl
    unfold Rollout.step Rollout.updateStep at hs
    cases hpc : s.pc <;> simp only [hpc] at hs
    case restartFn id rest =>
      cases hs
      exact Or.inl ⟨id, rest, rfl, rfl, rfl⟩
    case drainRpc | returned => cases hs
    case next rest => cases rest <;> cases hs <;> exact Or.inr ⟨fun _ _ _ => nofun, rfl⟩
    case getReplica | readClock | poll | sleep =>
      split_ifs at hs <;> cases hs <;> exact Or.inr ⟨fun _ _ _ => nofun, rfl⟩
    all_goals
      cases hs
      exact Or.inr ⟨fun _ _ _ => nofun, rfl⟩
  · exact Or.inr ⟨fun heq => absurd heq hl, (outside_step hl hs).1⟩

theorem returned_step (h : s.pc = .returned b) (hs : s.step ms l = some s') :
    s'.pc = .returned b ∧ s'.instances = s.instances := by
  by_cases hl : l = .update
  · subst hl
    simp only [Rollout.step, Rollout.updateStep, h] at hs
    cases hs
  · obtain ⟨hinst, ⟨hpc, -, -⟩ | ⟨_, _, _, -, hpc⟩⟩ := outside_step hl hs
    · exact ⟨hpc.trans h, hinst⟩
    · rw [h] at hpc
      cases hpc

end Rollout

/-! ## The flag of a replica -/

namespace Fleet

variable {f f' f₀ : Fleet} {a : FleetAct} {ms : ℤ} {es : List FleetAct} {id : String}
  {st : List (String × ℕ)} {b : Bool}

theorem draining_replicaStep {p p' : ReplicaPool} {l : ReplicaLabel}
    (hs : replicaProgram.step p l = some p') :
    p'.shared.draining = true ↔ p.shared.draining = true ∨
      ∃ i c, l = .call i c ∧ p.calls[i]? = some (.drain .entered) := by
  cases Program.step_cases hs with
  | spawn x => exact (or_iff_left nofun).symm
  | @call i c t t' s hi ht =>
    cases replicaStep_cases ht with
    | generate hg =>
      have hsame : s.draining = p.shared.draining := by cases hg <;> rfl
      rw [hsame]
      refine (or_iff_left ?_).symm
      rintro ⟨_, _, heq, hentered⟩
      cases heq
      rw [hi] at hentered
      cases hentered
    | setFlag => exact iff_of_true rfl (Or.inr ⟨i, c, rfl, hi⟩)
    | poll | drained =>
      refine (or_iff_left ?_).symm
      rintro ⟨_, _, heq, hentered⟩
      cases heq
      rw [hi] at hentered
      cases hentered
  | @env d s henv =>
    have hsame : s.draining = p.shared.draining := by cases d <;> cases henv <;> rfl
    rw [hsame]
    exact (or_iff_left nofun).symm

theorem updated_rollout (r : Rollout) : (f.updated r).rollout = r := by
  unfold updated
  split <;> rfl

theorem updated_replicas (r : Rollout) (h : ∀ id rest, f.rollout.pc ≠ .restartFn id rest) :
    (f.updated r).replicas = f.replicas := by
  unfold updated
  split
  · rfl
  · exact absurd ‹_› (h _ _)
  · rfl

theorem rollout_step {l : RolloutAct} (hs : f.step ms (.rollout l) = some f') :
    f.rollout.step ms l = some f'.rollout ∧
      (l = .update ∧ f' = f.updated f'.rollout ∨ l ≠ .update ∧ f'.replicas = f.replicas) := by
  unfold step at hs
  cases l with
  | update =>
    obtain ⟨r, hr, rfl⟩ := Option.map_eq_some_iff.mp hs
    rw [updated_rollout]
    exact ⟨hr, Or.inl ⟨rfl, rfl⟩⟩
  | drainReply r =>
    dsimp only at hs
    split_ifs at hs
    obtain ⟨r, hr, rfl⟩ := Option.map_eq_some_iff.mp hs
    exact ⟨hr, Or.inr ⟨nofun, rfl⟩⟩
  | tick | gossip =>
    obtain ⟨r, hr, rfl⟩ := Option.map_eq_some_iff.mp hs
    exact ⟨hr, Or.inr ⟨nofun, rfl⟩⟩

theorem replica_step (ha : ∀ l, a ≠ .rollout l) (hs : f.step ms a = some f') :
    ∃ id l p drains, replicaProgram.step (f.replicas id) l = some p ∧
      f' = { f.setReplica id p with drains } ∧ f.stores a = f.stores (.replica id l) := by
  unfold step at hs
  cases a with
  | rollout l => exact absurd rfl (ha l)
  | deliver id | replica id l =>
    dsimp only at hs
    split_ifs at hs
    obtain ⟨p, hp, rfl⟩ := Option.map_eq_some_iff.mp hs
    exact ⟨id, _, p, _, hp, rfl, rfl⟩

/-- The flag of each running process, by what has set it. -/
structure Flagged (f₀ f : Fleet) (st : List (String × ℕ)) : Prop where
  known : ∀ x ∈ st, x.2 ≤ f.rollout.inst x.1
  flag : ∀ id, (f.replicas id).shared.draining = true ↔
    (f.rollout.inst id = 0 ∧ (f₀.replicas id).shared.draining = true) ∨
      (id, f.rollout.inst id) ∈ st

theorem Flagged.frame (h : Flagged f₀ f st) {vs : List (String × ℕ)}
    (hinst : ∀ id, f'.rollout.inst id = f.rollout.inst id)
    (hvs : ∀ x ∈ vs, x.2 = f.rollout.inst x.1)
    (hflag : ∀ id, (f'.replicas id).shared.draining = true ↔
      (f.replicas id).shared.draining = true ∨ (id, f.rollout.inst id) ∈ vs) :
    Flagged f₀ f' (st ++ vs) where
  known x hx := by
    rw [hinst]
    rcases List.mem_append.mp hx with hx | hx
    · exact h.known x hx
    · exact (hvs x hx).le
  flag id := by rw [hinst, hflag, h.flag, List.mem_append, or_assoc]

theorem Flagged.setReplica (h : Flagged f₀ f st) {p : ReplicaPool} {l : ReplicaLabel}
    (hs : replicaProgram.step (f.replicas id) l = some p) (drains : List String) :
    Flagged f₀ { f.setReplica id p with drains } (st ++ f.stores (.replica id l)) := by
  have hstores : f.stores (.replica id l) = [(id, f.rollout.inst id)] ∧
      (∃ i c, l = .call i c ∧ (f.replicas id).calls[i]? = some (.drain .entered)) ∨
      f.stores (.replica id l) = [] ∧
      ¬ ∃ i c, l = .call i c ∧ (f.replicas id).calls[i]? = some (.drain .entered) := by
    unfold stores
    cases l with
    | call i c =>
      dsimp only
      split_ifs with hentered
      · exact Or.inl ⟨rfl, i, c, rfl, hentered⟩
      · refine Or.inr ⟨rfl, ?_⟩
        rintro ⟨_, _, heq, hi⟩
        cases heq
        exact hentered hi
    | spawn | env => exact Or.inr ⟨rfl, nofun⟩
  refine h.frame (fun _ => rfl) ?_ fun id' => ?_
  · intro x hx
    rcases hstores with ⟨heq, -⟩ | ⟨heq, -⟩ <;> rw [heq] at hx
    · rw [List.mem_singleton.mp hx]
    · cases hx
  · show ((Function.update f.replicas id p) id').shared.draining = true ↔ _
    by_cases hid : id' = id
    · subst hid
      rw [Function.update_self, draining_replicaStep hs]
      refine or_congr_right ?_
      rcases hstores with ⟨heq, hstore⟩ | ⟨heq, hnone⟩ <;> rw [heq]
      · exact iff_of_true hstore (List.mem_singleton_self _)
      · exact iff_of_false hnone List.not_mem_nil
    · rw [Function.update_of_ne hid]
      refine (or_iff_left fun hmem => ?_).symm
      rcases hstores with ⟨heq, -⟩ | ⟨heq, -⟩ <;> rw [heq] at hmem
      · exact hid (congrArg Prod.fst (List.mem_singleton.mp hmem))
      · cases hmem

/-- `restart_fn` starts a process whose flag is not set. -/
theorem Flagged.restart (h : Flagged f₀ f st) {r : Rollout} {rest : List String}
    (hpc : f.rollout.pc = .restartFn id rest)
    (hr : r.instances = f.rollout.instances.insert id (f.rollout.inst id + 1)) :
    Flagged f₀ (f.updated r) st := by
  have hself : r.inst id = f.rollout.inst id + 1 := by
    unfold Rollout.inst
    rw [hr, AList.lookup_insert]
    rfl
  have hother : ∀ id', id' ≠ id → r.inst id' = f.rollout.inst id' := by
    intro id' hid
    unfold Rollout.inst
    rw [hr, AList.lookup_insert_ne hid]
  have hreplicas : (f.updated r).replicas = Function.update f.replicas id newReplica := by
    unfold updated
    rw [hpc]
  constructor
  · intro x hx
    rw [updated_rollout]
    by_cases hid : x.1 = id
    · rw [hid, hself, ← hid]
      exact (h.known x hx).trans (Nat.le_succ _)
    · rw [hother _ hid]
      exact h.known x hx
  · intro id'
    rw [updated_rollout, hreplicas]
    by_cases hid : id' = id
    · subst hid
      rw [Function.update_self, hself]
      refine iff_of_false nofun ?_
      rintro (⟨hzero, -⟩ | hmem)
      · exact absurd hzero (Nat.succ_ne_zero _)
      · exact absurd (h.known _ hmem) (Nat.not_succ_le_self _)
    · rw [Function.update_of_ne hid, hother id' hid]
      exact h.flag id'

/-- **One step.** -/
theorem Flagged.step (h : Flagged f₀ f st) (hs : f.step ms a = some f') :
    Flagged f₀ f' (st ++ f.stores a) := by
  by_cases ha : ∀ l, a ≠ .rollout l
  · obtain ⟨id, l, p, drains, hp, rfl, hstores⟩ := replica_step ha hs
    rw [hstores]
    exact h.setReplica hp drains
  · obtain ⟨l, rfl⟩ := not_forall_not.mp ha
    obtain ⟨hr, hkind⟩ := rollout_step hs
    rw [show f.stores (.rollout l) = [] from rfl]
    rcases Rollout.inst_step hr with ⟨id, rest, rfl, hpc, hinst⟩ | ⟨hrestart, hinst⟩
    · rcases hkind with ⟨-, heq⟩ | ⟨hne, -⟩
      · rw [List.append_nil, heq]
        exact h.restart hpc hinst
      · exact absurd rfl hne
    · have hreplicas : f'.replicas = f.replicas := by
        rcases hkind with ⟨hl, heq⟩ | ⟨-, heq⟩
        · rw [heq]
          exact updated_replicas _ (hrestart hl)
        · exact heq
      refine h.frame (fun id => ?_) nofun fun id => ?_
      · unfold Rollout.inst
        rw [hinst]
      · rw [hreplicas]
        exact (or_iff_left List.not_mem_nil).symm

theorem start_flagged (registry : ReplicaRegistry) (replicaIds : List String)
    (replicas : String → ReplicaPool) :
    Flagged (start registry replicaIds replicas) (start registry replicaIds replicas) [] where
  known := nofun
  flag id := by
    refine (or_iff_left List.not_mem_nil).trans ?_ |>.symm
    exact and_iff_right rfl

/-- **The flags of a run.** -/
theorem flagged_iff {registry : ReplicaRegistry} {replicaIds : List String}
    {replicas : String → ReplicaPool}
    (hrun : Run (step ms) (start registry replicaIds replicas) es f) :
    Flagged (start registry replicaIds replicas) f
      (stored ms (start registry replicaIds replicas) es) := by
  induction hrun with
  | nil => exact start_flagged ..
  | snoc hrun hs ih =>
    unfold stored at ih ⊢
    rw [trace_snoc hrun]
    exact ih.step hs

theorem undrained_of_run {registry : ReplicaRegistry} {replicaIds : List String}
    {replicas : String → ReplicaPool}
    (hrun : Run (step ms) (start registry replicaIds replicas) es f) :
    f.rollout.Undrained (timeouts ms (start registry replicaIds replicas) es) := by
  induction hrun with
  | nil => rfl
  | @snoc es a f f' hrun hs ih =>
    unfold timeouts at ih ⊢
    rw [trace_snoc hrun]
    by_cases ha : ∀ l, a ≠ .rollout l
    · obtain ⟨id, l, p, drains, -, rfl, -⟩ := replica_step ha hs
      have hnone : f.expires a = [] := by
        cases a with
        | rollout l => exact absurd rfl (ha l)
        | deliver | replica => rfl
      rw [hnone, List.append_nil]
      exact ih
    · obtain ⟨l, rfl⟩ := not_forall_not.mp ha
      exact ih.step (rollout_step hs).1

theorem returned_run (hpc : f.rollout.pc = .returned b) (hrun : Run (step ms) f es f') :
    f'.rollout.pc = .returned b ∧ ∀ id, f'.rollout.inst id = f.rollout.inst id := by
  refine hrun.invariant (P := fun s => s.rollout.pc = .returned b ∧
    ∀ id, s.rollout.inst id = f.rollout.inst id) ⟨hpc, fun _ => rfl⟩ ?_
  rintro s a s' ⟨hpc, hinst⟩ hs
  by_cases ha : ∀ l, a ≠ .rollout l
  · obtain ⟨id, l, p, drains, -, rfl, -⟩ := replica_step ha hs
    exact ⟨hpc, hinst⟩
  · obtain ⟨l, rfl⟩ := not_forall_not.mp ha
    obtain ⟨hpc', hinst'⟩ := Rollout.returned_step hpc (rollout_step hs).1
    refine ⟨hpc', fun id => ?_⟩
    rw [← hinst id]
    unfold Rollout.inst
    rw [hinst']

/-- **Giving up.** In every run of an update, and of whatever follows its return: once it has returned
false, the replica whose drain has timed out is routable and accepts calls in every state exactly if
its flag was not set before, and no `Drain` handler of its process comes to set it. -/
theorem restored_iff (ms : ℤ) (registry : ReplicaRegistry) (replicaIds : List String)
    (replicas : String → ReplicaPool) (es : List FleetAct) (f : Fleet)
    (hrun : Run (step ms) (start registry replicaIds replicas) es f) :
    Always (step ms) (start registry replicaIds replicas) es
        (GivesBack ms (start registry replicaIds replicas)) ↔
      (f.rollout.pc = .returned false → ∀ id ∈ timeouts ms (start registry replicaIds replicas) es,
        Unflagged ms (start registry replicaIds replicas) es f id) := by
  constructor
  · intro hback hpc id hid
    have haccepting := (hback.last hrun hpc id hid).accepting
    have hflag := (flagged_iff hrun).flag id
    rw [haccepting, iff_false_left Bool.false_ne_true, not_or, not_and] at hflag
    exact ⟨fun hinst => Bool.eq_false_iff.mpr (hflag.1 hinst), hflag.2⟩
  · rintro hun pre s ⟨rest, rfl⟩ hpre hpc id hid
    obtain ⟨s', hpre', hrest⟩ := hrun.split
    obtain rfl := hpre'.deterministic hpre
    obtain ⟨hpc', hinst⟩ := returned_run hpc hrest
    have hundrained := undrained_of_run hpre
    unfold Rollout.Undrained at hundrained
    rw [hpc] at hundrained
    obtain ⟨id', htimeouts, hroutable⟩ := hundrained
    have hid' : id = id' := by
      rw [htimeouts] at hid
      exact List.mem_singleton.mp hid
    subst hid'
    -- what has happened so far has happened at the end
    have hlater : id ∈ timeouts ms (start registry replicaIds replicas) (pre ++ rest) :=
      mem_trace_append hpre hid rest
    obtain ⟨hfirst, hstored⟩ := hun hpc' id hlater
    rw [hinst] at hfirst hstored
    refine ⟨hroutable, Bool.eq_false_iff.mpr fun hflag => ?_⟩
    rcases ((flagged_iff hpre).flag id).mp hflag with ⟨hzero, hset⟩ | hmem
    · rw [hfirst hzero] at hset
      cases hset
    · exact hstored (mem_trace_append hpre hmem rest)

/-- Two replicas of which the first one streams a long response. -/
def oneStreaming (id : String) : ReplicaPool :=
  if id = "replica-1" then
    ⟨{ activeRequests := 1 }, [.generate (.streaming ⟨"req-0", "hello", 1000, 0⟩ 0 [])]⟩
  else newReplica

/-- The update of the first replica, up to its Drain call. -/
def drainsFirst : List FleetAct := List.replicate 3 (.rollout .update)

/-- The deadline, and the error path of `Update`. -/
def givesUp : List FleetAct :=
  .rollout (.drainReply .deadlineExceeded) :: List.replicate 2 (.rollout .update)

/-- The replica cannot be reached, and the request never gets there. -/
theorem restored_iff_unreachable :
    Always (step 10000) (start Rollout.twoAlive ["replica-1", "replica-2"] oneStreaming)
      (drainsFirst ++ givesUp)
      (GivesBack 10000 (start Rollout.twoAlive ["replica-1", "replica-2"] oneStreaming)) := by
  refine (restored_iff 10000 _ _ _ _ _ (run_get (by decide +kernel))).mpr fun _ id hid => ?_
  have htimeouts : timeouts 10000 (start Rollout.twoAlive ["replica-1", "replica-2"] oneStreaming)
      (drainsFirst ++ givesUp) = ["replica-1"] := by decide +kernel
  rw [htimeouts, List.mem_singleton] at hid
  subst hid
  unfold Unflagged
  decide +kernel

/-- The handler of the first replica waits for the stream until the deadline, and after the update
has given up a new call arrives. -/
def drainsStreaming : List FleetAct :=
  drainsFirst ++ [.deliver "replica-1", .replica "replica-1" (.call 1 {})] ++ givesUp ++
    [.replica "replica-1" (.spawn (.generate ⟨"req-1", "hello", 1, 0⟩)),
      .replica "replica-1" (.call 2 {})]

/-- The gateway routes to the replica again, which turns the call away. -/
theorem not_restored_streaming :
    let f₀ := start Rollout.twoAlive ["replica-1", "replica-2"] oneStreaming
    ∃ f, Run (step 10000) f₀ drainsStreaming f ∧ ¬ GivesBack 10000 f₀ drainsStreaming f ∧
      "replica-1" ∈ f.rollout.registry.getAliveReplicas.map Prod.fst ∧
      (f.replicas "replica-1").calls[2]? = some (.generate
        (.returned ⟨"req-1", "hello", 1, 0⟩ ⟨.unavailable, "replica is draining"⟩ [])) := by
  intro f₀
  refine ⟨_, run_get (by decide +kernel), fun h => ?_, by decide +kernel, by decide +kernel⟩
  have hback := h (by decide +kernel) "replica-1" (by decide +kernel)
  exact absurd hback.accepting (by decide +kernel)

end Fleet

end LlmGateway.Gateway
