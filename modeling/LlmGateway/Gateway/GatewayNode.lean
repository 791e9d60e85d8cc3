import LlmGateway.Lib.Transition
import LlmGateway.Gossip.MembershipCallback
import LlmGateway.Gateway.ReplicaRegistry

/-!
# The gateway's gossip node

A gateway is a SWIM node whose membership callback (`main`) keeps the replica registry. The callback
runs on the thread whose list operation fired it, in steps of its own: it reads the member, writes
the registry and, after a change of state, rebuilds the ring. A thread finishes its callback
(`CallbackPc`) before it goes on with its own program.

`RebuildRing` reads the registry and writes the ring. Nothing here reads the ring, so it is one step
without effect. The request handlers and a rolling update change the registry next to the callback.
An exception in a callback leaves the thread, which ends the process.

1. `gossipStep_cases`: a step of the gossip node is a step of its program, which may start a
   callback, or a step of a callback.
2. `Tracked`: what the registry says of a member is what the list says, or a callback is still to
   write it.
3. `registry_synced`: so the two agree whenever no callback is in progress, if no callback writes a
   state that the list has left.
-/

namespace LlmGateway.Gateway

open Gossip Transition

/-- Where a call of the membership callback stands. -/
inductive CallbackPc
  | getMember (call : CallbackCall)
  | updateFromGossip (call : CallbackCall) (update : MembershipUpdate)
  | rebuildRing (call : CallbackCall)
  deriving DecidableEq, Repr

/-- Only a change of state warrants a rebuild. -/
def CallbackPc.afterUpdate (call : CallbackCall) : Option CallbackPc :=
  if call.oldState ≠ call.newState then some (.rebuildRing call) else none

structure GatewayNode where
  node : Node
  registry : ReplicaRegistry := {}
  senderCallback : Option CallbackPc := none
  receiverCallback : Option CallbackPc := none
  deriving DecidableEq

/-- A step of the gossip node, or what a request handler or a rolling update does to the
registry. -/
inductive GatewayAct
  | gossip (a : Act)
  | incrementActive (id : String)
  | decrementActive (id : String)
  | setDraining (id : String) (draining : Bool)
  deriving DecidableEq, Repr

namespace GatewayNode

variable (g : GatewayNode)

def create (myId myAddress : String) (config : SwimConfig) : GatewayNode where
  node := Node.create myId myAddress config

/-- The callback a thread is in. -/
def callback : GossipThread → Option CallbackPc
  | .sender => g.senderCallback
  | .receiver => g.receiverCallback

def setCallback (t : GossipThread) (pc : Option CallbackPc) : GatewayNode :=
  match t with
  | .sender => { g with senderCallback := pc }
  | .receiver => { g with receiverCallback := pc }

/-- One step of the callback on the thread `t`. -/
def callbackStep (t : GossipThread) : CallbackPc → GatewayNode
  | .getMember call =>
    match g.node.list.getMember call.memberId with
    | some info => g.setCallback t (some (.updateFromGossip call (info.toUpdate call.memberId)))
    | none => g.setCallback t (CallbackPc.afterUpdate call)
  | .updateFromGossip call update =>
    match g.registry.updateFromGossip call.memberId update with
    | (registry, none) => { g with registry }.setCallback t (CallbackPc.afterUpdate call)
    | (registry, some _) => { g with registry, node := g.node.crash }
  | .rebuildRing _ => g.setCallback t none

/-- A step of the gossip node. -/
def gossipStep (a : Act) : Option GatewayNode :=
  match a.thread with
  | none => (g.node.step a).map fun node => { g with node }
  | some t =>
    match g.callback t with
    | some pc => if g.node.crashed then none else some (g.callbackStep t pc)
    | none => (g.node.step a).map fun node =>
        { g with node }.setCallback t ((g.node.fires a).map .getMember)

/-- One step of the gateway. -/
def step : GatewayAct → Option GatewayNode
  | .gossip a => g.gossipStep a
  | .incrementActive id => some { g with registry := g.registry.incrementActive id }
  | .decrementActive id => some { g with registry := g.registry.decrementActive id }
  | .setDraining id draining => some { g with registry := g.registry.setDraining id draining }

variable {g} {g' : GatewayNode} {a : Act} {t t' : GossipThread} {pc : CallbackPc} {id : String}
  {call call' : CallbackCall} {u : MembershipUpdate} {c : Option CallbackPc}

@[simp] theorem setCallback_node : (g.setCallback t c).node = g.node := by cases t <;> rfl

@[simp] theorem setCallback_registry : (g.setCallback t c).registry = g.registry := by
  cases t <;> rfl

@[simp] theorem callback_setCallback : (g.setCallback t c).callback t = c := by cases t <;> rfl

theorem callback_setCallback_of_ne (h : t' ≠ t) :
    (g.setCallback t c).callback t' = g.callback t' := by
  cases t <;> cases t' <;> first | rfl | exact absurd rfl h

/-- A step of the gossip node's own program, and the callback it starts. -/
structure ProgramStep (g : GatewayNode) (a : Act) (g' : GatewayNode) : Prop where
  idle : ∀ t, a.thread = some t → g.callback t = none
  node : g.node.step a = some g'.node
  registry : g'.registry = g.registry
  started : ∀ t, a.thread = some t → g'.callback t = (g.node.fires a).map .getMember
  others : ∀ t, a.thread ≠ some t → g'.callback t = g.callback t

/-- **The steps of the gossip node.** -/
theorem gossipStep_cases (hs : g.gossipStep a = some g') :
    ProgramStep g a g' ∨ ∃ t pc, a.thread = some t ∧ g.callback t = some pc ∧
      g.node.crashed = false ∧ g' = g.callbackStep t pc := by
  unfold gossipStep at hs
  cases hthread : a.thread with
  | none =>
    rw [hthread] at hs
    obtain ⟨node, hnode, rfl⟩ := Option.map_eq_some_iff.mp hs
    refine Or.inl ⟨?_, hnode, rfl, ?_, fun _ _ => rfl⟩ <;>
    · intro t ht
      rw [hthread] at ht
      cases ht
  | some t =>
    rw [hthread] at hs
    dsimp only at hs
    cases hpc : g.callback t with
    | none =>
      rw [hpc] at hs
      obtain ⟨node, hnode, rfl⟩ := Option.map_eq_some_iff.mp hs
      refine Or.inl ⟨?_, by rwa [setCallback_node], setCallback_registry, ?_, ?_⟩
      · intro t' ht'
        rw [hthread] at ht'
        cases ht'
        exact hpc
      · intro t' ht'
        rw [hthread] at ht'
        cases ht'
        exact callback_setCallback
      · intro t' ht'
        have hne : t' ≠ t := fun h => ht' (by rw [hthread, h])
        rw [callback_setCallback_of_ne hne]
        cases t' <;> rfl
    | some pc =>
      rw [hpc] at hs
      dsimp only at hs
      split_ifs at hs with hcrashed
      cases hs
      exact Or.inr ⟨t, pc, rfl, hpc, by simpa using hcrashed, rfl⟩

/-! ## The state of a member in the list and in the registry -/

/-- The state that the list has for a member. -/
def listState (g : GatewayNode) (id : String) : Option MemberState :=
  (g.node.list.getMember id).map MemberInfo.state

/-- The `gossip_state` that the registry has for a replica. -/
def registryState (g : GatewayNode) (id : String) : Option MemberState :=
  (g.registry.getReplica id).map ReplicaInfo.gossipState

theorem registryState_modify {f : ReplicaInfo → ReplicaInfo} {id' : String}
    (hf : ∀ info, (f info).gossipState = info.gossipState) :
    registryState { g with registry := g.registry.modify id' f } id = g.registryState id := by
  unfold registryState
  by_cases hid : id = id'
  · subst hid
    rw [ReplicaRegistry.getReplica_modify, Option.map_map]
    exact congrArg (fun f => (g.registry.getReplica id).map f) (funext hf)
  · rw [ReplicaRegistry.getReplica_modify_of_ne f hid]

theorem gossipState_updateFromGossip (r : ReplicaRegistry) (id : String) (u : MembershipUpdate) :
    ((r.updateFromGossip id u).1.getReplica id).map ReplicaInfo.gossipState = some u.state := by
  simp only [ReplicaRegistry.updateFromGossip]
  split_ifs
  · split <;> rw [ReplicaRegistry.getReplica_set] <;> rfl
  · rw [ReplicaRegistry.getReplica_set]
    rfl

theorem ProgramStep.listState (h : ProgramStep g a g') (hid : id ≠ g.node.list.myId)
    {s : MemberState} (hs : g.listState id = some s) :
    (g'.listState id).isSome ∧ (g'.listState id = some s ∨
      ∃ t call, g'.callback t = some (.getMember call) ∧ call.memberId = id) := by
  obtain ⟨e, he, hst⟩ := Option.map_eq_some_iff.mp hs
  obtain ⟨e', he', hstate⟩ := (Node.step_spec h.node).list.announces hid he
  have hnew : g'.listState id = some e'.state := by
    rw [GatewayNode.listState, he']
    rfl
  refine ⟨by rw [hnew]; rfl, ?_⟩
  rcases hstate with hsame | ⟨call, hfires, hcall⟩
  · exact Or.inl (by rw [hnew, hsame, hst])
  · cases hthread : a.thread with
    | none =>
      rw [Node.fires_of_thread hthread] at hfires
      cases hfires
    | some t => exact Or.inr ⟨t, call, by rw [h.started t hthread, hfires]; rfl, hcall⟩

/-! ## Callbacks that are still to write -/

/-- The callback on `t` is still to write the state that the list has for the member. -/
def WillWrite (g : GatewayNode) (t : GossipThread) (id : String) : Prop :=
  (∃ call, g.callback t = some (.getMember call) ∧ call.memberId = id) ∨
  ∃ call u, g.callback t = some (.updateFromGossip call u) ∧ call.memberId = id ∧
    g.listState id = some u.state

/-- No callback is in progress. -/
def Idle (g : GatewayNode) : Prop := ∀ t, g.callback t = none

/-- An `UpdateFromGossip` call for another member writes the state that the list has for it, or the
other thread has a callback that is still to write it. -/
def WritesCurrent (g : GatewayNode) (l : GatewayAct) : Prop :=
  ∀ a t call u, l = .gossip a → a.thread = some t →
    g.callback t = some (.updateFromGossip call u) → call.memberId ≠ g.node.list.myId →
    g.listState call.memberId = some u.state ∨ g.WillWrite t.other call.memberId

/-- The registry is up to date on every other member that it knows, or a callback is still to bring
it up to date. -/
structure Tracked (g : GatewayNode) : Prop where
  known : ∀ id, id ≠ g.node.list.myId → (g.registryState id).isSome → (g.listState id).isSome
  read : ∀ t call u, g.callback t = some (.updateFromGossip call u) →
    call.memberId ≠ g.node.list.myId → (g.listState call.memberId).isSome
  tracked : ∀ id, id ≠ g.node.list.myId → (g.registryState id).isSome →
    g.registryState id = g.listState id ∨ ∃ t, g.WillWrite t id

theorem create_tracked (myId myAddress : String) (config : SwimConfig) :
    Tracked (create myId myAddress config) where
  known := by intro id _ h; cases h
  read := by intro t call u h; cases t <;> cases h
  tracked := by intro id _ h; cases h

theorem Tracked.frame (h : g.Tracked) (hnode : g'.node = g.node)
    (hregistry : ∀ id, g'.registryState id = g.registryState id)
    (hcallback : ∀ t, g'.callback t = g.callback t) : g'.Tracked := by
  have hlist : ∀ id, g'.listState id = g.listState id := by
    intro id
    rw [listState, hnode]
    rfl
  constructor
  · intro id hid hk
    rw [hlist]
    exact h.known id (by rwa [hnode] at hid) (by rwa [hregistry] at hk)
  · intro t call u hc hid
    rw [hlist]
    exact h.read t call u (by rwa [hcallback] at hc) (by rwa [hnode] at hid)
  · intro id hid hk
    unfold WillWrite
    simp only [hlist, hregistry, hcallback]
    exact h.tracked id (by rwa [hnode] at hid) (by rwa [hregistry] at hk)

theorem Tracked.program (h : g.Tracked) (hs : ProgramStep g a g') : g'.Tracked := by
  have hmyId : g'.node.list.myId = g.node.list.myId := (Node.step_spec hs.node).list.myId
  have hregistry : ∀ id, g'.registryState id = g.registryState id := by
    intro id
    rw [registryState, hs.registry]
    rfl
  constructor
  · intro id hid hk
    rw [hmyId] at hid
    rw [hregistry] at hk
    obtain ⟨s, hs'⟩ := Option.isSome_iff_exists.mp (h.known id hid hk)
    exact (hs.listState hid hs').1
  · intro t call u hc hid
    rw [hmyId] at hid
    by_cases ht : a.thread = some t
    · rw [hs.started t ht] at hc
      obtain ⟨_, -, hc⟩ := Option.map_eq_some_iff.mp hc
      cases hc
    · rw [hs.others t ht] at hc
      obtain ⟨s, hs'⟩ := Option.isSome_iff_exists.mp (h.read t call u hc hid)
      exact (hs.listState hid hs').1
  · intro id hid hk
    rw [hmyId] at hid
    rw [hregistry] at hk ⊢
    obtain ⟨s, hs'⟩ := Option.isSome_iff_exists.mp (h.known id hid hk)
    rcases (hs.listState hid hs').2 with hsame | ⟨t, call, hc, hcall⟩
    · rcases h.tracked id hid hk with heq | ⟨t, hwill⟩
      · exact Or.inl (by rw [hsame, heq, hs'])
      · -- the thread is in a callback, so it is not the one that takes this step
        have hbusy : a.thread ≠ some t := by
          intro ht
          rcases hwill with ⟨call, hc, -⟩ | ⟨call, u, hc, -⟩ <;>
          · rw [hs.idle t ht] at hc
            cases hc
        refine Or.inr ⟨t, ?_⟩
        unfold WillWrite at hwill ⊢
        rwa [hs.others t hbusy, hsame, ← hs']
    · exact Or.inr ⟨t, Or.inl ⟨call, hc, hcall⟩⟩

/-- A step of the callback on `t`, by what it does to the registry and to the callbacks. -/
structure CallbackEffect (g : GatewayNode) (t : GossipThread) (g' : GatewayNode) : Prop where
  list : g'.node.list = g.node.list
  others : ∀ t', t' ≠ t → g'.callback t' = g.callback t'

theorem afterUpdate_ne : CallbackPc.afterUpdate call ≠ some (.getMember call') ∧
    CallbackPc.afterUpdate call ≠ some (.updateFromGossip call' u) := by
  unfold CallbackPc.afterUpdate
  constructor <;>
  · intro h
    split_ifs at h
    cases h

theorem callbackStep_effect (g : GatewayNode) (t : GossipThread) (pc : CallbackPc) :
    CallbackEffect g t (g.callbackStep t pc) := by
  have hset : ∀ c, CallbackEffect g t (g.setCallback t c) := fun c =>
    ⟨by rw [setCallback_node], fun t' ht' => callback_setCallback_of_ne ht'⟩
  cases pc with
  | getMember call =>
    unfold callbackStep
    dsimp only
    cases g.node.list.getMember call.memberId <;> exact hset _
  | updateFromGossip call u =>
    unfold callbackStep
    dsimp only
    split
    · refine ⟨by rw [setCallback_node], fun t' ht' => ?_⟩
      rw [callback_setCallback_of_ne ht']
      cases t' <;> rfl
    · refine ⟨rfl, fun t' _ => ?_⟩
      cases t' <;> rfl
  | rebuildRing call => exact hset _

/-- The callback of the other thread is still to write what it was. -/
theorem CallbackEffect.willWrite (h : CallbackEffect g t g') (ht : t' ≠ t) :
    g'.WillWrite t' id ↔ g.WillWrite t' id := by
  unfold WillWrite listState
  rw [h.others t' ht, h.list]

/-- `GetMember` reads the state that the list has, which the callback is then to write. -/
theorem willWrite_getMember (hknown : (g.listState call.memberId).isSome) :
    (g.callbackStep t (.getMember call)).WillWrite t call.memberId := by
  obtain ⟨s, hs⟩ := Option.isSome_iff_exists.mp hknown
  obtain ⟨info, hinfo, hst⟩ := Option.map_eq_some_iff.mp hs
  refine Or.inr ⟨call, info.toUpdate call.memberId, ?_, rfl, ?_⟩
  · simp only [callbackStep, hinfo, callback_setCallback]
  · rw [listState, (callbackStep_effect g t _).list, hinfo]
    rfl

/-- Where a callback stands after `UpdateFromGossip`: the call has returned or has thrown. -/
theorem callbackStep_updateFromGossip (g : GatewayNode) (t : GossipThread) (call : CallbackCall)
    (u : MembershipUpdate) : (g.callbackStep t (.updateFromGossip call u)).registry =
      (g.registry.updateFromGossip call.memberId u).1 ∧
    ((g.callbackStep t (.updateFromGossip call u)).callback t = CallbackPc.afterUpdate call ∨
      (g.callbackStep t (.updateFromGossip call u)).callback t = g.callback t) := by
  unfold callbackStep
  dsimp only
  split
  · rename_i registry heq
    exact ⟨by rw [setCallback_registry, heq], Or.inl callback_setCallback⟩
  · rename_i registry exception heq
    refine ⟨by rw [heq], Or.inr ?_⟩
    cases t <;> rfl

theorem read_callbackStep (h : g.Tracked) (hc : g.callback t = some pc)
    (hc' : (g.callbackStep t pc).callback t = some (.updateFromGossip call u))
    (hid : call.memberId ≠ g.node.list.myId) : (g.listState call.memberId).isSome := by
  cases pc with
  | getMember call₀ =>
    unfold callbackStep at hc'
    dsimp only at hc'
    cases hmember : g.node.list.getMember call₀.memberId with
    | some info =>
      rw [hmember] at hc'
      dsimp only at hc'
      rw [callback_setCallback] at hc'
      cases hc'
      rw [listState, hmember]
      rfl
    | none =>
      rw [hmember] at hc'
      dsimp only at hc'
      rw [callback_setCallback] at hc'
      exact absurd hc' afterUpdate_ne.2
  | updateFromGossip call₀ u₀ =>
    rcases (callbackStep_updateFromGossip g t call₀ u₀).2 with h' | h' <;> rw [h'] at hc'
    · exact absurd hc' afterUpdate_ne.2
    · exact h.read t call u hc' hid
  | rebuildRing call₀ =>
    unfold callbackStep at hc'
    dsimp only at hc'
    rw [callback_setCallback] at hc'
    cases hc'

theorem registry_callbackStep (hpc : ∀ call u, pc ≠ .updateFromGossip call u) :
    (g.callbackStep t pc).registry = g.registry := by
  cases pc with
  | getMember call =>
    unfold callbackStep
    dsimp only
    cases g.node.list.getMember call.memberId <;> exact setCallback_registry
  | updateFromGossip call u => exact absurd rfl (hpc call u)
  | rebuildRing call => exact setCallback_registry

theorem Tracked.callback (h : g.Tracked) (hc : g.callback t = some pc)
    (hcurrent : ∀ call u, pc = .updateFromGossip call u → call.memberId ≠ g.node.list.myId →
      g.listState call.memberId = some u.state ∨ g.WillWrite t.other call.memberId) :
    (g.callbackStep t pc).Tracked := by
  have heffect := callbackStep_effect g t pc
  have hlist : ∀ id, (g.callbackStep t pc).listState id = g.listState id := by
    intro id
    rw [listState, heffect.list]
    rfl
  -- the registry after the step: as it was, or with the state of one more update
  have hregistry : ∀ id, (g.callbackStep t pc).registryState id = g.registryState id ∨
      ∃ call u, pc = .updateFromGossip call u ∧ id = call.memberId ∧
        (g.callbackStep t pc).registryState id = some u.state := by
    intro id
    unfold registryState
    cases pc with
    | updateFromGossip call u =>
      rw [(callbackStep_updateFromGossip g t call u).1]
      by_cases hid : id = call.memberId
      · subst hid
        exact Or.inr ⟨call, u, rfl, rfl, gossipState_updateFromGossip ..⟩
      · exact Or.inl (by rw [ReplicaRegistry.getReplica_updateFromGossip_of_ne u hid])
    | _ => exact Or.inl (by rw [registry_callbackStep (by exact nofun)])
  have hknown : ∀ id, id ≠ g.node.list.myId →
      ((g.callbackStep t pc).registryState id).isSome → (g.listState id).isSome := by
    intro id hid hk
    rcases hregistry id with heq | ⟨call, u, rfl, rfl, -⟩
    · exact h.known id hid (by rwa [heq] at hk)
    · exact h.read t call u hc hid
  constructor
  · intro id hid hk
    rw [heffect.list] at hid
    rw [hlist]
    exact hknown id hid hk
  · intro t' call u hc' hid
    rw [heffect.list] at hid
    rw [hlist]
    by_cases ht : t' = t
    · subst ht
      exact read_callbackStep h hc hc' hid
    · exact h.read t' call u (by rwa [heffect.others t' ht] at hc') hid
  · intro id hid hk
    rw [heffect.list] at hid
    have hsome := hknown id hid hk
    rw [hlist]
    rcases hregistry id with heq | ⟨call, u, rfl, rfl, hwrote⟩
    · rw [heq] at hk ⊢
      rcases h.tracked id hid hk with hsynced | ⟨t', hwill⟩
      · exact Or.inl hsynced
      · by_cases ht : t' = t
        · subst ht
          rcases hwill with ⟨call, hc', rfl⟩ | ⟨call, u, hc', rfl, hst⟩
          · rw [hc'] at hc
            cases hc
            exact Or.inr ⟨t', willWrite_getMember hsome⟩
          · rw [hc'] at hc
            cases hc
            -- this call has just written the state of the list
            refine Or.inl ?_
            rw [← heq, hst, registryState, (callbackStep_updateFromGossip g t' call u).1]
            exact gossipState_updateFromGossip ..
        · exact Or.inr ⟨t', (heffect.willWrite ht).mpr hwill⟩
    · rcases hcurrent call u rfl hid with hst | hwill
      · exact Or.inl (by rw [hwrote, hst])
      · have hother : t.other ≠ t := by cases t <;> exact nofun
        exact Or.inr ⟨t.other, (heffect.willWrite hother).mpr hwill⟩

theorem Tracked.step {l : GatewayAct} (h : g.Tracked) (hcurrent : g.WritesCurrent l)
    (hs : g.step l = some g') : g'.Tracked := by
  have hmodify : ∀ (id : String) (f : ReplicaInfo → ReplicaInfo),
      (∀ info, (f info).gossipState = info.gossipState) →
      Tracked { g with registry := g.registry.modify id f } := fun id f hf =>
    h.frame rfl (fun id => registryState_modify hf) fun t => by cases t <;> rfl
  cases l with
  | gossip a =>
    rcases gossipStep_cases hs with hprogram | ⟨t, pc, ht, hc, -, rfl⟩
    · exact h.program hprogram
    · refine h.callback hc fun call u hpc hid => ?_
      subst hpc
      exact hcurrent a t call u rfl ht hc hid
  | incrementActive id | decrementActive id | setDraining id draining =>
    cases hs
    exact hmodify _ _ fun _ => rfl

/-! ## The registry follows the list -/

/-- The registry has, of every other member that it knows, the state that the list has. -/
def Synced (g : GatewayNode) : Prop :=
  ∀ id info, id ≠ g.node.list.myId → g.registry.getReplica id = some info →
    ∃ e, g.node.list.getMember id = some e ∧ info.gossipState = e.state

theorem Tracked.synced (h : g.Tracked) (hidle : g.Idle) : g.Synced := by
  intro id info hid hinfo
  have hregistry : g.registryState id = some info.gossipState := by
    rw [registryState, hinfo]
    rfl
  rcases h.tracked id hid (by rw [hregistry]; rfl) with heq | ⟨t, hwill⟩
  · rw [hregistry] at heq
    obtain ⟨e, he, hst⟩ := Option.map_eq_some_iff.mp heq.symm
    exact ⟨e, he, hst.symm⟩
  · unfold WillWrite at hwill
    rw [hidle t] at hwill
    rcases hwill with ⟨_, hc, -⟩ | ⟨_, _, hc, -⟩ <;> cases hc

/-- **The registry follows the list.** In every run in which no callback writes a state that the
list has left while the other thread has nothing more to write about that member, the registry
agrees with the list whenever no callback is in progress. -/
theorem registry_synced (myId myAddress : String) (config : SwimConfig) (es : List GatewayAct)
    (g : GatewayNode) (hrun : Run step (create myId myAddress config) es g)
    (hcurrent : EveryStep step (create myId myAddress config) es fun _ g l => g.WritesCurrent l) :
    Always step (create myId myAddress config) es fun _ g => g.Idle → g.Synced := by
  have htracked := always_of_everyStep (P := fun _ g => g.Tracked) hrun (create_tracked ..)
    (fun pre g l g' _ h hC hs => h.step hC hs) hcurrent
  exact htracked.mono fun pre g _ h => h.synced

/-- A test that is enough for `WritesCurrent`: what is written is what the list has. -/
def writesList (g : GatewayNode) : GatewayAct → Bool
  | .gossip a =>
    match a.thread.bind g.callback with
    | some (.updateFromGossip call u) => g.listState call.memberId = some u.state
    | _ => true
  | _ => true

theorem writesCurrent_of_writesList {l : GatewayAct} (h : g.writesList l = true) :
    g.WritesCurrent l := by
  rintro a t call u rfl ht hc -
  unfold writesList at h
  dsimp only at h
  rw [ht, Option.bind_some, hc] at h
  exact Or.inl (of_decide_eq_true h)

/-- The gateway hears of a replica, which then misses a probe. -/
def suspectedRun : List GatewayAct :=
  .gossip (.arrive ⟨.ping, "replica-1", "", 1,
    [⟨"replica-1", "127.0.0.1:17001", .alive, 0, "", 0, 4⟩]⟩ ⟨"127.0.0.1", 17001⟩) ::
  List.replicate 10 (.gossip .receiver) ++ [.gossip (.sender (.peer "replica-1"))] ++
  List.replicate 4 (.gossip (.sender .none)) ++ [.gossip (.tick 200000000)] ++
  List.replicate 7 (.gossip (.sender .none))

/-- The registry has taken over the suspicion. -/
theorem registry_synced_suspected :
    ∃ g, Run step (create "gateway-1" "127.0.0.1:18080" {}) suspectedRun g ∧ g.Idle ∧
      g.registryState "replica-1" = some .suspect ∧ g.Synced := by
  have hrun : Run step (create "gateway-1" "127.0.0.1:18080" {}) suspectedRun _ :=
    run_get (by decide +kernel)
  have hcheck : checkSteps step writesList (create "gateway-1" "127.0.0.1:18080" {})
      suspectedRun = true := by decide +kernel
  have hidle : Idle ((exec step (create "gateway-1" "127.0.0.1:18080" {}) suspectedRun).get
      (by decide +kernel)) := by
    intro t
    cases t <;> decide +kernel
  refine ⟨_, hrun, hidle, by decide +kernel, ?_⟩
  exact (registry_synced _ _ _ _ _ hrun ((everyStep_of_check hcheck).mono fun _ _ _ h =>
    writesCurrent_of_writesList h)).last hrun hidle

/-- The suspicion times out. The callback of `MarkDead` reads `DEAD`, the refutation of the replica
arrives and its callback runs, and then the callback of `MarkDead` writes what it has read. -/
def lostUpdate : List GatewayAct :=
  [.gossip (.tick 2000000000), .gossip (.sender (.order
    [("replica-1", ⟨"127.0.0.1:17001", .suspect, 0, "", 0, 4, 200000000⟩)]))] ++
  List.replicate 3 (.gossip (.sender .none)) ++
  [.gossip (.arrive ⟨.ping, "replica-1", "", 2,
    [⟨"replica-1", "127.0.0.1:17001", .alive, 1, "", 0, 4⟩]⟩ ⟨"127.0.0.1", 17001⟩)] ++
  List.replicate 6 (.gossip .receiver) ++ List.replicate 2 (.gossip (.sender .none))

/-- No callback is in progress, and the live replica is `DEAD` in the registry. -/
theorem not_synced_lostUpdate :
    ∃ g, Run step (create "gateway-1" "127.0.0.1:18080" {}) (suspectedRun ++ lostUpdate) g ∧
      g.Idle ∧ g.listState "replica-1" = some .alive ∧ g.registryState "replica-1" = some .dead ∧
      ¬ g.Synced := by
  have hrun : Run step (create "gateway-1" "127.0.0.1:18080" {}) (suspectedRun ++ lostUpdate) _ :=
    run_get (by decide +kernel)
  have hlist : listState ((exec step (create "gateway-1" "127.0.0.1:18080" {})
      (suspectedRun ++ lostUpdate)).get (by decide +kernel)) "replica-1" = some .alive := by
    decide +kernel
  have hregistry : registryState ((exec step (create "gateway-1" "127.0.0.1:18080" {})
      (suspectedRun ++ lostUpdate)).get (by decide +kernel)) "replica-1" = some .dead := by
    decide +kernel
  refine ⟨_, hrun, ?_, hlist, hregistry, fun hsynced => ?_⟩
  · intro t
    cases t <;> decide +kernel
  · obtain ⟨info, hinfo, hst⟩ := Option.map_eq_some_iff.mp hregistry
    obtain ⟨e, he, heq⟩ := hsynced "replica-1" info (by decide +kernel) hinfo
    rw [listState, he, Option.map_some, ← heq, hst] at hlist
    cases hlist

end GatewayNode

end LlmGateway.Gateway
