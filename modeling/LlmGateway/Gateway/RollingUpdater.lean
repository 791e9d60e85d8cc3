import LlmGateway.Lib.Transition
import LlmGateway.Gateway.ReplicaRegistry

/-!
# Rolling updates

`RollingUpdater::Update` next to the gossip that writes the registry. The updater drains a replica,
stops and restarts it by callbacks of its caller, and polls the registry until the replica is back.
One step is one access to the registry or the ring, a clock reading, a call that returns. The answer
to the Drain call and the moment of every step are the environment's. `RebuildRing` writes the ring,
which nothing here reads, and the version only goes to `restart_fn`, so neither leaves a trace.

Beside the program the state keeps what it is judged by: the instance of each replica that was
started last, the instance that caused the update an entry was last written by, and which replicas
are out of service.

1. `Rollout.Inv`: the invariant of a run; a replica other than the one being updated is in service,
   or its rejoin has timed out.
2. `one_out_of_service`: at most one replica is out of service.
-/

namespace LlmGateway.Gateway

open Gossip Transition

/-- How the Drain call ends: with an OK status and `success`, at its deadline, or otherwise. -/
inductive DrainReply
  | ok (success : Bool)
  | deadlineExceeded
  | failed
  deriving DecidableEq, Repr

/-- Where `Update` stands: at the head of its loop with the replicas that are left, or with the
replica it updates and those after it. -/
inductive UpdatePc
  | next (rest : List String)
  | drainRing (id : String) (rest : List String)
  | getReplica (id : String) (rest : List String)
  | drainRpc (id : String) (rest : List String)
  | undrain (id : String)
  | undrainRing (id : String)
  | stopFn (id : String) (rest : List String)
  | restartFn (id : String) (rest : List String)
  | restarted (id : String) (rest : List String)
  | clearDraining (id : String) (rest : List String)
  | clearRing (id : String) (rest : List String)
  | waitForRejoin (id : String) (rest : List String)
  | readClock (id : String) (rest : List String) (deadline : ℤ)
  | poll (id : String) (rest : List String) (deadline : ℤ)
  | sleep (id : String) (rest : List String) (deadline : ℤ) (wakeup : ℕ)
  | returned (success : Bool)
  deriving DecidableEq, Repr

structure Rollout where
  registry : ReplicaRegistry
  clock : ℕ := 0
  pc : UpdatePc
  /-- The instance of a replica that was started last; before the update it is 0. -/
  instances : UnorderedMap String ℕ := ∅
  /-- The instance that caused the last update of a replica's entry. -/
  writers : UnorderedMap String ℕ := ∅
  /-- The replicas marked draining whose restarted instance has not been seen `ALIVE`, with the
  instance that was there when they were marked. -/
  marked : UnorderedMap String ℕ := ∅
  /-- The replicas whose last `WaitForRejoin` has timed out. -/
  timedOut : List String := []
  deriving DecidableEq

inductive RolloutAct
  | tick (ns : ℕ)
  /-- An `UpdateFromGossip` call with an update that an instance of the replica has caused. -/
  | gossip (id : String) (u : MembershipUpdate) (inst : ℕ)
  | drainReply (r : DrainReply)
  | update
  deriving DecidableEq, Repr

namespace Rollout

variable (s : Rollout)

/-- `Update` is called with a list of replicas. -/
def start (registry : ReplicaRegistry) (replicaIds : List String) : Rollout where
  registry := registry
  pc := .next replicaIds

/-- The number of the last instance of a replica. -/
def inst (id : String) : ℕ := (s.instances.lookup id).getD 0

/-- `UpdateFromGossip`, for an update that the instance has caused: an `ALIVE` one of an instance
that was started after the replica was marked brings the replica back. -/
def gossip (id : String) (u : MembershipUpdate) (inst : ℕ) : Rollout :=
  { s with
    registry := (s.registry.updateFromGossip id u).1
    writers := s.writers.insert id inst
    marked := if u.state = .alive ∧ (s.marked.lookup id).any (· < inst) then s.marked.erase id
      else s.marked }

/-- The first step of `DrainReplica`: no new requests are routed to the replica. -/
def drain (id : String) (rest : List String) : Rollout :=
  { s with
    registry := s.registry.setDraining id true
    marked := s.marked.insert id (s.inst id)
    timedOut := s.timedOut.filter (· ≠ id)
    pc := .drainRing id rest }

/-- The test of `WaitForRejoin`. -/
def rejoined (id : String) : Bool :=
  (s.registry.getReplica id).any fun info => info.gossipState = .alive ∧ info.draining = false

/-- One step of `Update`. -/
def updateStep (rejoinTimeoutMs : ℤ) : Option Rollout :=
  match s.pc with
  | .next [] => some { s with pc := .returned true }
  -- DrainReplica
  | .next (id :: rest) => some (s.drain id rest)
  | .drainRing id rest => some { s with pc := .getReplica id rest }
  | .getReplica id rest =>
    if (s.registry.getReplica id).any fun info => info.grpcAddress ≠ "" then
      some { s with pc := .drainRpc id rest }
    else some { s with pc := .stopFn id rest }
  | .drainRpc _ _ => none
  | .undrain id =>
    some { s with registry := s.registry.setDraining id false, pc := .undrainRing id }
  | .undrainRing _ => some { s with pc := .returned false }
  | .stopFn id rest => some { s with pc := .restartFn id rest }
  -- the new instance runs before restart_fn returns
  | .restartFn id rest =>
    some { s with instances := s.instances.insert id (s.inst id + 1), pc := .restarted id rest }
  | .restarted id rest => some { s with pc := .clearDraining id rest }
  | .clearDraining id rest =>
    some { s with registry := s.registry.setDraining id false, pc := .clearRing id rest }
  | .clearRing id rest => some { s with pc := .waitForRejoin id rest }
  -- WaitForRejoin
  | .waitForRejoin id rest =>
    some { s with pc := .readClock id rest (s.clock + rejoinTimeoutMs * 1000000) }
  | .readClock id rest deadline =>
    if (s.clock : ℤ) < deadline then some { s with pc := .poll id rest deadline }
    else some { s with timedOut := id :: s.timedOut, pc := .next rest }
  | .poll id rest deadline =>
    if s.rejoined id then some { s with pc := .next rest }
    else some { s with pc := .sleep id rest deadline (s.clock + 200000000) }
  | .sleep id rest deadline wakeup =>
    if wakeup ≤ s.clock then some { s with pc := .readClock id rest deadline } else none
  | .returned _ => none

/-- The answer to the Drain call. Only a deadline makes `DrainReplica` fail. -/
def drainReply (r : DrainReply) : Option Rollout :=
  match s.pc with
  | .drainRpc id rest =>
    match r with
    | .deadlineExceeded => some { s with pc := .undrain id }
    | .ok _ | .failed => some { s with pc := .stopFn id rest }
  | _ => none

/-- One step next to and of `Update`. Only an instance that has been started causes updates. -/
def step (rejoinTimeoutMs : ℤ) (s : Rollout) : RolloutAct → Option Rollout
  | .tick ns => some { s with clock := s.clock + ns }
  | .gossip id u inst => if inst ≤ s.inst id then some (s.gossip id u inst) else none
  | .drainReply r => s.drainReply r
  | .update => s.updateStep rejoinTimeoutMs

end Rollout

/-! ## The replica being updated -/

/-- The replica that `Update` works on. -/
def UpdatePc.current : UpdatePc → Option String
  | .next _ | .returned _ => none
  | .drainRing id _ | .getReplica id _ | .drainRpc id _ | .undrain id | .undrainRing id
  | .stopFn id _ | .restartFn id _ | .restarted id _ | .clearDraining id _ | .clearRing id _
  | .waitForRejoin id _ | .readClock id _ _ | .poll id _ _ | .sleep id _ _ _ => some id

/-- The same, once `restart_fn` has started the new instance. -/
def UpdatePc.waiting : UpdatePc → Option String
  | .restarted id _ | .clearDraining id _ | .clearRing id _ | .waitForRejoin id _
  | .readClock id _ _ | .poll id _ _ | .sleep id _ _ _ => some id
  | _ => none

namespace Rollout

variable {s s' : Rollout} {l : RolloutAct} {id id' : String} {rest : List String} {ms deadline : ℤ}
  {u : MembershipUpdate} {inst k : ℕ}

/-- The replica has been marked draining, and no update that its restarted instance caused has shown
it `ALIVE` since. -/
def OutOfService (s : Rollout) (id : String) : Prop := (s.marked.lookup id).isSome

/-- The replica is out of service, and its last `WaitForRejoin` has not timed out. -/
def Awaited (s : Rollout) (id : String) : Prop := s.OutOfService id ∧ id ∉ s.timedOut

/-- `WaitForRejoin` finds a replica back only on an entry that was last written by an update of the
newest instance. -/
def RejoinsOnNew (s : Rollout) (l : RolloutAct) : Prop :=
  ∀ id rest deadline, l = .update → s.pc = .poll id rest deadline → s.rejoined id = true →
    s.writers.lookup id = some (s.inst id)

/-- **The invariant of a rolling update.** -/
structure Inv (s : Rollout) : Prop where
  single : ∀ id id', s.Awaited id → s.Awaited id' → id = id'
  busy : ∀ id id', s.pc.current = some id → s.Awaited id' → id' = id
  idle : ∀ id rest, s.pc = .next rest → ¬ s.Awaited id
  written : ∀ id i, s.writers.lookup id = some i → i ≤ s.inst id
  before : ∀ id k, s.marked.lookup id = some k → k ≤ s.inst id
  restarted : ∀ id k, s.pc.waiting = some id → s.marked.lookup id = some k → k < s.inst id
  /-- An `ALIVE` entry of a replica that has not come back is due to an old instance. -/
  stale : ∀ id k i info, s.marked.lookup id = some k → s.writers.lookup id = some i →
    s.registry.getReplica id = some info → info.gossipState = .alive → i ≤ k

theorem gossipState_of_setDraining {r : ReplicaRegistry} {draining : Bool} {info : ReplicaInfo}
    (h : (r.setDraining id draining).getReplica id' = some info) :
    ∃ old, r.getReplica id' = some old ∧ info.gossipState = old.gossipState := by
  unfold ReplicaRegistry.setDraining at h
  by_cases hid : id' = id
  · subst hid
    rw [ReplicaRegistry.getReplica_modify] at h
    obtain ⟨old, hold, rfl⟩ := Option.map_eq_some_iff.mp h
    exact ⟨old, hold, rfl⟩
  · rw [ReplicaRegistry.getReplica_modify_of_ne _ hid] at h
    exact ⟨info, h, rfl⟩

theorem gossipState_of_updateFromGossip {r : ReplicaRegistry} {info : ReplicaInfo}
    (h : (r.updateFromGossip id u).1.getReplica id = some info) : info.gossipState = u.state := by
  simp only [ReplicaRegistry.updateFromGossip] at h
  split_ifs at h
  · split at h <;>
    · rw [ReplicaRegistry.getReplica_set] at h
      cases h
      rfl
  · rw [ReplicaRegistry.getReplica_set] at h
    cases h
    rfl

/-- A step within the update of one replica that keeps the states in the registry. -/
theorem Inv.goto (h : s.Inv) {registry : ReplicaRegistry} {pc : UpdatePc}
    (hregistry : ∀ id info, registry.getReplica id = some info →
      ∃ old, s.registry.getReplica id = some old ∧ info.gossipState = old.gossipState)
    (hcurrent : pc.current = s.pc.current)
    (hwaiting : ∀ id, pc.waiting = some id → s.pc.waiting = some id)
    (hidle : ∀ rest, pc ≠ .next rest) : Inv { s with registry, pc } where
  single := h.single
  busy id id' hid := h.busy id id' (hcurrent ▸ hid)
  idle id rest hpc := absurd hpc (hidle rest)
  written := h.written
  before := h.before
  restarted id k hid := h.restarted id k (hwaiting id hid)
  stale id k i info hk hi hinfo hst := by
    obtain ⟨old, hold, heq⟩ := hregistry id info hinfo
    exact h.stale id k i old hk hi hold (heq ▸ hst)

theorem Inv.finish (h : s.Inv) (hcurrent : s.pc.current = some id) (hout : ¬ s.Awaited id)
    (rest : List String) : Inv { s with pc := .next rest } where
  single := h.single
  busy id id' hid := by cases hid
  idle id' rest hpc hout' := by
    obtain rfl := h.busy id id' hcurrent hout'
    exact hout hout'
  written := h.written
  before := h.before
  restarted id k hid := by cases hid
  stale := h.stale

theorem Inv.return (h : s.Inv) (success : Bool) : Inv { s with pc := .returned success } where
  single := h.single
  busy id id' hid := by cases hid
  idle id' rest hpc := by cases hpc
  written := h.written
  before := h.before
  restarted id k hid := by cases hid
  stale := h.stale

theorem Inv.drain (h : s.Inv) (hpc : s.pc = .next (id :: rest)) : (s.drain id rest).Inv := by
  have hout : ∀ id', (s.drain id rest).Awaited id' → id' = id := by
    rintro id' ⟨hmarked, htimedOut⟩
    by_contra hid
    refine h.idle id' _ hpc ⟨?_, ?_⟩
    · unfold OutOfService Rollout.drain at hmarked
      dsimp only at hmarked
      rwa [AList.lookup_insert_ne hid] at hmarked
    · exact fun hmem => htimedOut (List.mem_filter.mpr ⟨hmem, by simpa using hid⟩)
  have hmarked : ∀ id' k, (s.drain id rest).marked.lookup id' = some k →
      (id' = id ∧ k = s.inst id) ∨ s.marked.lookup id' = some k := by
    intro id' k hk
    unfold Rollout.drain at hk
    dsimp only at hk
    by_cases hid : id' = id
    · subst hid
      rw [AList.lookup_insert] at hk
      exact Or.inl ⟨rfl, (Option.some.inj hk).symm⟩
    · rw [AList.lookup_insert_ne hid] at hk
      exact Or.inr hk
  constructor
  · exact fun id' id'' h' h'' => (hout id' h').trans (hout id'' h'').symm
  · intro id' id'' hid hout'
    cases hid
    exact hout id'' hout'
  · intro id' rest hnext
    cases hnext
  · exact h.written
  · intro id' k hk
    rcases hmarked id' k hk with ⟨rfl, rfl⟩ | hk
    · exact le_refl _
    · exact h.before id' k hk
  · intro id' k hid
    cases hid
  · intro id' k i info hk hi hinfo hst
    obtain ⟨old, hold, heq⟩ := gossipState_of_setDraining hinfo
    rcases hmarked id' k hk with ⟨rfl, rfl⟩ | hk
    · exact h.written id' i hi
    · exact h.stale id' k i old hk hi hold (heq ▸ hst)

/-- `restart_fn` starts an instance that is newer than the one that was marked. -/
theorem Inv.restart (h : s.Inv) (hpc : s.pc.current = some id) (rest : List String) :
    Inv { s with instances := s.instances.insert id (s.inst id + 1), pc := .restarted id rest } := by
  have hinst : ∀ id', s.inst id' ≤ inst { s with
      instances := s.instances.insert id (s.inst id + 1), pc := .restarted id rest } id' ∧
      (id' = id → s.inst id' < inst { s with
        instances := s.instances.insert id (s.inst id + 1), pc := .restarted id rest } id') := by
    intro id'
    unfold Rollout.inst
    by_cases hid : id' = id
    · subst hid
      rw [AList.lookup_insert]
      exact ⟨Nat.le_succ _, fun _ => Nat.lt_succ_self _⟩
    · rw [AList.lookup_insert_ne hid]
      exact ⟨le_refl _, fun h => absurd h hid⟩
  constructor
  · exact h.single
  · intro id' id'' hid hout
    obtain rfl : id = id' := Option.some.inj hid
    exact h.busy id id'' hpc hout
  · intro id' rest' hnext
    cases hnext
  · exact fun id' i hi => (h.written id' i hi).trans (hinst id').1
  · exact fun id' k hk => (h.before id' k hk).trans (hinst id').1
  · intro id' k hid hk
    obtain rfl : id = id' := Option.some.inj hid
    exact (h.before id k hk).trans_lt ((hinst id).2 rfl)
  · exact h.stale

theorem Inv.timeout (h : s.Inv) (hpc : s.pc.current = some id) (rest : List String) :
    Inv { s with timedOut := id :: s.timedOut, pc := .next rest } := by
  have hout : ∀ id', Awaited { s with timedOut := id :: s.timedOut, pc := .next rest } id' →
      s.Awaited id' ∧ id' ≠ id := by
    rintro id' ⟨hmarked, htimedOut⟩
    exact ⟨⟨hmarked, fun hmem => htimedOut (List.mem_cons_of_mem _ hmem)⟩,
      fun heq => htimedOut (heq ▸ List.mem_cons_self)⟩
  constructor
  · exact fun id' id'' h' h'' => h.single id' id'' (hout id' h').1 (hout id'' h'').1
  · intro id' id'' hid
    cases hid
  · intro id' rest' _ hout'
    exact (hout id' hout').2 (h.busy id id' hpc (hout id' hout').1)
  · exact h.written
  · exact h.before
  · intro id' k hid
    cases hid
  · exact h.stale

theorem Inv.gossip (h : s.Inv) (hinst : inst ≤ s.inst id) : (s.gossip id u inst).Inv := by
  have hmarked : ∀ id' k, (s.gossip id u inst).marked.lookup id' = some k →
      s.marked.lookup id' = some k ∧ (id' = id → u.state = .alive → inst ≤ k) := by
    intro id' k hk
    unfold Rollout.gossip at hk
    dsimp only at hk
    split_ifs at hk with hback
    · by_cases hid : id' = id
      · subst hid
        rw [AList.lookup_erase] at hk
        cases hk
      · rw [AList.lookup_erase_ne hid] at hk
        exact ⟨hk, fun h => absurd h hid⟩
    · refine ⟨hk, ?_⟩
      rintro rfl hst
      by_contra hlt
      rw [hk] at hback
      exact hback ⟨hst, by simpa using hlt⟩
  have hout : ∀ id', (s.gossip id u inst).Awaited id' → s.Awaited id' := by
    rintro id' ⟨hsome, htimedOut⟩
    obtain ⟨k, hk⟩ := Option.isSome_iff_exists.mp hsome
    exact ⟨Option.isSome_iff_exists.mpr ⟨k, (hmarked id' k hk).1⟩, htimedOut⟩
  constructor
  · exact fun id' id'' h' h'' => h.single id' id'' (hout id' h') (hout id'' h'')
  · exact fun id' id'' hid hout' => h.busy id' id'' hid (hout id'' hout')
  · exact fun id' rest hpc hout' => h.idle id' rest hpc (hout id' hout')
  · intro id' i hi
    unfold Rollout.gossip at hi
    dsimp only at hi
    by_cases hid : id' = id
    · subst hid
      rw [AList.lookup_insert] at hi
      cases hi
      exact hinst
    · rw [AList.lookup_insert_ne hid] at hi
      exact h.written id' i hi
  · exact fun id' k hk => h.before id' k (hmarked id' k hk).1
  · exact fun id' k hid hk => h.restarted id' k hid (hmarked id' k hk).1
  · intro id' k i info hk hi hinfo hst
    obtain ⟨hold, hback⟩ := hmarked id' k hk
    unfold Rollout.gossip at hi hinfo
    dsimp only at hi hinfo
    by_cases hid : id' = id
    · subst hid
      rw [AList.lookup_insert] at hi
      cases hi
      exact hback rfl ((gossipState_of_updateFromGossip hinfo).symm.trans hst)
    · rw [AList.lookup_insert_ne hid] at hi
      rw [ReplicaRegistry.getReplica_updateFromGossip_of_ne u hid] at hinfo
      exact h.stale id' k i info hold hi hinfo hst

/-- A replica that `WaitForRejoin` finds back by an update of its newest instance is back. -/
theorem Inv.rejoined (h : s.Inv) (hpc : s.pc.waiting = some id) (hback : s.rejoined id = true)
    (hwriter : s.writers.lookup id = some (s.inst id)) : ¬ s.Awaited id := by
  rintro ⟨hmarked, -⟩
  obtain ⟨k, hk⟩ := Option.isSome_iff_exists.mp hmarked
  obtain ⟨info, hinfo, hst⟩ := (Option.any_eq_true _ _).mp hback
  rw [decide_eq_true_eq] at hst
  have hlt := h.restarted id k hpc hk
  have hle := h.stale id k _ info hk hwriter hinfo hst.1
  omega

theorem Inv.updateStep (h : s.Inv) (hnew : s.RejoinsOnNew .update)
    (hs : s.updateStep ms = some s') : s'.Inv := by
  have hkeep : ∀ id info, s.registry.getReplica id = some info →
      ∃ old, s.registry.getReplica id = some old ∧ info.gossipState = old.gossipState :=
    fun _ info hinfo => ⟨info, hinfo, rfl⟩
  unfold Rollout.updateStep at hs
  cases hpc : s.pc <;> rw [hpc] at hs
  case next rest =>
    cases rest with
    | nil =>
      cases hs
      exact h.return true
    | cons id rest =>
      cases hs
      exact h.drain hpc
  case drainRing id rest =>
    cases hs
    exact h.goto hkeep (by rw [hpc]; rfl) (by intro _ hw; cases hw) (by exact nofun)
  case getReplica id rest =>
    dsimp only at hs
    split_ifs at hs <;> cases hs <;>
      exact h.goto hkeep (by rw [hpc]; rfl) (by intro _ hw; cases hw) (by exact nofun)
  case drainRpc id rest => cases hs
  case undrain id =>
    cases hs
    exact h.goto (fun _ _ => gossipState_of_setDraining) (by rw [hpc]; rfl)
      (by intro _ hw; cases hw) (by exact nofun)
  case undrainRing id =>
    cases hs
    exact h.return false
  case stopFn id rest =>
    cases hs
    exact h.goto hkeep (by rw [hpc]; rfl) (by intro _ hw; cases hw) (by exact nofun)
  case restartFn id rest =>
    cases hs
    exact h.restart (by rw [hpc]; rfl) rest
  case restarted id rest =>
    cases hs
    exact h.goto hkeep (by rw [hpc]; rfl) (by rw [hpc]; exact fun _ hw => hw) (by exact nofun)
  case clearDraining id rest =>
    cases hs
    exact h.goto (fun _ _ => gossipState_of_setDraining) (by rw [hpc]; rfl)
      (by rw [hpc]; exact fun _ hw => hw) (by exact nofun)
  case clearRing id rest =>
    cases hs
    exact h.goto hkeep (by rw [hpc]; rfl) (by rw [hpc]; exact fun _ hw => hw) (by exact nofun)
  case waitForRejoin id rest =>
    cases hs
    exact h.goto hkeep (by rw [hpc]; rfl) (by rw [hpc]; exact fun _ hw => hw) (by exact nofun)
  case readClock id rest deadline =>
    dsimp only at hs
    split_ifs at hs <;> cases hs
    · exact h.goto hkeep (by rw [hpc]; rfl) (by rw [hpc]; exact fun _ hw => hw) (by exact nofun)
    · exact h.timeout (by rw [hpc]; rfl) rest
  case poll id rest deadline =>
    dsimp only at hs
    split_ifs at hs with hback <;> cases hs
    · have hwriter := hnew id rest deadline rfl hpc hback
      exact h.finish (by rw [hpc]; rfl) (h.rejoined (by rw [hpc]; rfl) hback hwriter) rest
    · exact h.goto hkeep (by rw [hpc]; rfl) (by rw [hpc]; exact fun _ hw => hw) (by exact nofun)
  case sleep id rest deadline wakeup =>
    dsimp only at hs
    split_ifs at hs
    cases hs
    exact h.goto hkeep (by rw [hpc]; rfl) (by rw [hpc]; exact fun _ hw => hw) (by exact nofun)
  case returned success => cases hs

theorem Inv.step (h : s.Inv) (hnew : s.RejoinsOnNew l) (hs : s.step ms l = some s') : s'.Inv := by
  cases l with
  | tick ns =>
    cases hs
    exact ⟨h.single, h.busy, h.idle, h.written, h.before, h.restarted, h.stale⟩
  | gossip id u inst =>
    unfold Rollout.step at hs
    dsimp only at hs
    split_ifs at hs with hinst
    cases hs
    exact h.gossip hinst
  | drainReply r =>
    have hkeep : ∀ id info, s.registry.getReplica id = some info →
        ∃ old, s.registry.getReplica id = some old ∧ info.gossipState = old.gossipState :=
      fun _ info hinfo => ⟨info, hinfo, rfl⟩
    unfold Rollout.step Rollout.drainReply at hs
    cases hpc : s.pc <;> simp only [hpc] at hs
    case drainRpc id rest =>
      cases r <;> cases hs <;>
        exact h.goto hkeep (by rw [hpc]; rfl) (by intro _ hw; cases hw) (by exact nofun)
    all_goals cases hs
  | update => exact h.updateStep hnew hs

theorem start_inv (registry : ReplicaRegistry) (replicaIds : List String) :
    (start registry replicaIds).Inv where
  single := by rintro id id' ⟨h, -⟩; cases h
  busy := by intro id id' h; cases h
  idle := by rintro id rest - ⟨h, -⟩; cases h
  written := by intro id i h; cases h
  before := by intro id k h; cases h
  restarted := by intro id k h; cases h
  stale := by intro id k i info h; cases h

/-- **One replica at a time.** Whatever the timing of the gossip and of the callbacks: as long as
`WaitForRejoin` only finds a replica back on an entry that its restarted instance has caused, at
every moment at most one replica of the list is out of service, those apart whose `WaitForRejoin`
has timed out, and none is at the head of the loop. -/
theorem one_out_of_service (registry : ReplicaRegistry) (replicaIds : List String) (ms : ℤ)
    (es : List RolloutAct) (s : Rollout) (hrun : Run (step ms) (start registry replicaIds) es s)
    (hnew : EveryStep (step ms) (start registry replicaIds) es fun _ s l => s.RejoinsOnNew l) :
    Always (step ms) (start registry replicaIds) es fun _ s =>
      (∀ id id', s.OutOfService id → s.OutOfService id' → id ∉ s.timedOut → id' ∉ s.timedOut →
        id = id') ∧
      ∀ id rest, s.pc = .next rest → s.OutOfService id → id ∈ s.timedOut := by
  have hinv := always_of_everyStep (P := fun _ s => s.Inv) hrun (start_inv ..)
    (fun pre s l s' _ h hC hs => h.step hC hs) hnew
  refine hinv.mono fun pre s _ h => ⟨fun id id' ho ho' ht ht' => ?_, fun id rest hpc ho => ?_⟩
  · exact h.single id id' ⟨ho, ht⟩ ⟨ho', ht'⟩
  · by_contra ht
    exact h.idle id rest hpc ⟨ho, ht⟩

/-- A test of `RejoinsOnNew`. -/
def rejoinsOnNew (s : Rollout) : RolloutAct → Bool
  | .update =>
    match s.pc with
    | .poll id _ _ => !s.rejoined id || s.writers.lookup id = some (s.inst id)
    | _ => true
  | _ => true

theorem rejoinsOnNew_sound (h : s.rejoinsOnNew l = true) : s.RejoinsOnNew l := by
  rintro id rest deadline rfl hpc hback
  unfold rejoinsOnNew at h
  rw [hpc] at h
  simpa [hback] using h

/-- Two replicas that are `ALIVE`. -/
def twoAlive : ReplicaRegistry :=
  (({} : ReplicaRegistry).set "replica-1" { grpcAddress := "10.0.0.1:7001" }).set "replica-2"
    { grpcAddress := "10.0.0.2:7002" }

/-- The first replica is drained, stopped and restarted, and `WaitForRejoin` starts to poll. -/
def restartFirst : List RolloutAct :=
  List.replicate 3 .update ++ [.drainReply (.ok true)] ++ List.replicate 7 .update

/-- What the gateway hears of the first replica. -/
def aboutFirst (state : MemberState) (incarnation inst : ℕ) : RolloutAct :=
  .gossip "replica-1" ⟨"replica-1", "10.0.0.1:17001", state, incarnation, "", 0, 4⟩ inst

/-- The new instance is seen, and then the second replica is drained. -/
theorem one_out_of_service_rejoined :
    let es := restartFirst ++ [aboutFirst .dead 0 0, aboutFirst .alive 1 1] ++
      List.replicate 3 .update
    let s₀ := start twoAlive ["replica-1", "replica-2"]
    ∃ s, Run (step 10000) s₀ es s ∧ s.OutOfService "replica-2" ∧
      ∀ id, s.OutOfService id → id ∉ s.timedOut → id = "replica-2" := by
  intro es s₀
  have hrun : Run (step 10000) s₀ es _ := run_get (by decide +kernel)
  have hcheck : checkSteps (step 10000) rejoinsOnNew s₀ es = true := by decide +kernel
  have hout : OutOfService ((exec (step 10000) s₀ es).get (by decide +kernel)) "replica-2" := by
    unfold OutOfService
    decide +kernel
  refine ⟨_, hrun, hout, fun id hid ht => ?_⟩
  have hone := ((one_out_of_service _ _ _ _ _ hrun ((everyStep_of_check hcheck).mono
    fun _ _ _ => rejoinsOnNew_sound)).last hrun).1
  exact hone id "replica-2" hid hout ht (by decide +kernel)

/-- The second replica is drained while the first one is out of service: after a `WaitForRejoin` that
has timed out, and after one that has read the `ALIVE` entry of the old instance. -/
theorem two_out_of_service :
    let s₀ := start twoAlive ["replica-1", "replica-2"]
    (∃ s, Run (step 10000) s₀ (restartFirst ++ [aboutFirst .dead 0 0, .update,
        .tick 10000000000] ++ List.replicate 3 .update) s ∧
      s.OutOfService "replica-1" ∧ s.OutOfService "replica-2") ∧
    ∃ s, Run (step 10000) s₀ (restartFirst ++ List.replicate 3 .update) s ∧
      s.OutOfService "replica-1" ∧ s.OutOfService "replica-2" := by
  intro s₀
  unfold OutOfService
  exact ⟨⟨_, run_get (by decide +kernel), by decide +kernel, by decide +kernel⟩,
    ⟨_, run_get (by decide +kernel), by decide +kernel, by decide +kernel⟩⟩

end Rollout

end LlmGateway.Gateway
