import LlmGateway.Gossip.LoadReports
import LlmGateway.Gateway.GatewayNode
import LlmGateway.Replica.ReplicaServer

/-!
# A gateway and its replicas

The processes of a deployment over a network that may lose, duplicate, delay and reorder datagrams.
A replica is a server and a SWIM node; the loop of its `main` reads `active_requests_` and publishes
it with `SetMyLoad`, next to the capacity and the model version of the command line. The gateway is
a SWIM node whose callback keeps the registry.

1. `GatewayNode.Reporting`: what a gateway knows, holds and has in its registry are loads that have
   been published, and its callbacks keep that (`GatewayNode.Reporting.step`).
2. `Inv.step`: so it is with all processes of a deployment.
3. `registry_reports`: the load the registry has for a replica is one that its server once had.
-/

namespace LlmGateway.Gateway

open Gossip Transition Replica

/-! ## The registry -/

/-- The load of an entry of the registry has been published by the replica. -/
structure ReplicaInfo.Reported (P : LoadPred) (id : String) (info : ReplicaInfo) : Prop where
  load : (info.reportedActiveRequests = 0 ∧ info.maxCapacity = 0) ∨
    ∃ version, P id info.reportedActiveRequests info.maxCapacity version
  version : info.modelVersion = "" ∨ ∃ active capacity, P id active capacity info.modelVersion

variable {P Q : LoadPred} {id id' : String} {info : ReplicaInfo} {u : MembershipUpdate}
  {r : ReplicaRegistry}

theorem ReplicaInfo.Reported.mono (h : info.Reported P id)
    (hPQ : ∀ id k m v, P id k m v → Q id k m v) : info.Reported Q id where
  load := h.load.imp_right fun ⟨v, hv⟩ => ⟨v, hPQ _ _ _ _ hv⟩
  version := h.version.imp_right fun ⟨k, m, hk⟩ => ⟨k, m, hPQ _ _ _ _ hk⟩

namespace ReplicaRegistry

/-- Every load in the registry has been published. -/
def Reports (P : LoadPred) (r : ReplicaRegistry) : Prop :=
  ∀ id info, r.getReplica id = some info → info.Reported P id

theorem Reports.set (h : r.Reports P) (hinfo : info.Reported P id) : (r.set id info).Reports P := by
  intro id' info' hget
  by_cases hid : id' = id
  · subst hid
    rw [getReplica_set] at hget
    cases hget
    exact hinfo
  · rw [getReplica_set_of_ne hid] at hget
    exact h id' info' hget

theorem Reports.modify (h : r.Reports P) {f : ReplicaInfo → ReplicaInfo}
    (hf : ∀ info, info.Reported P id → (f info).Reported P id) : (r.modify id f).Reports P := by
  unfold ReplicaRegistry.modify
  cases hget : r.getReplica id with
  | none => exact h
  | some info => exact h.set (hf info (h id info hget))

/-- `UpdateFromGossip` takes the load from the update. -/
theorem Reports.updateFromGossip (h : r.Reports P) (hu : Reported P u) (hid : u.memberId = id) :
    (r.updateFromGossip id u).1.Reports P := by
  subst hid
  have hold : ((r.getReplica u.memberId).getD {}).modelVersion = "" ∨
      ∃ k m, P u.memberId k m ((r.getReplica u.memberId).getD {}).modelVersion := by
    cases hget : r.getReplica u.memberId with
    | none => exact Or.inl rfl
    | some info => exact (h _ info hget).version
  have hinfo : ∀ address, ReplicaInfo.Reported P u.memberId
      { ((r.getReplica u.memberId).getD {}).refresh u with grpcAddress := address } := by
    refine fun address => ⟨hu.load, ?_⟩
    simp only [ReplicaInfo.refresh]
    split_ifs
    · exact hu.version
    · exact hold
  simp only [ReplicaRegistry.updateFromGossip]
  split_ifs
  · split
    · exact h.set (hinfo _)
    · exact h.set (hinfo _)
    · exact h.set (hinfo _)
  · exact h.set (hinfo _)

end ReplicaRegistry

/-! ## The gateway -/

namespace GatewayNode

variable {g g' : GatewayNode} {a : Act} {l : GatewayAct} {t : GossipThread} {pc : CallbackPc}

/-- Every load the gateway knows, holds, sends or has in its registry has been published. -/
structure Reporting (P : LoadPred) (g : GatewayNode) : Prop where
  node : g.node.Reporting P
  registry : g.registry.Reports P
  callbacks : ∀ t call u, g.callback t = some (.updateFromGossip call u) →
    Reported P u ∧ u.memberId = call.memberId

theorem Reporting.mono (h : g.Reporting P) (hPQ : ∀ id k m v, P id k m v → Q id k m v) :
    g.Reporting Q where
  node := h.node.mono hPQ
  registry id info hget := (h.registry id info hget).mono hPQ
  callbacks t call u hc := ⟨(h.callbacks t call u hc).1.mono hPQ, (h.callbacks t call u hc).2⟩

theorem create_reporting (myId myAddress : String) (config : SwimConfig) :
    (create myId myAddress config).Reporting P where
  node := Node.create_reporting ..
  registry := by intro id info hget; cases hget
  callbacks := by intro t call u hc; cases t <;> cases hc

/-- A callback leaves the node as it is, or ends the process. -/
theorem callbackStep_node (g : GatewayNode) (t : GossipThread) (pc : CallbackPc) :
    (g.callbackStep t pc).node = g.node ∨ (g.callbackStep t pc).node = g.node.crash := by
  cases pc with
  | getMember call =>
    unfold callbackStep
    dsimp only
    cases g.node.list.getMember call.memberId <;> exact Or.inl setCallback_node
  | updateFromGossip call u =>
    unfold callbackStep
    dsimp only
    split
    · exact Or.inl setCallback_node
    · exact Or.inr rfl
  | rebuildRing call => exact Or.inl setCallback_node

theorem ProgramStep.reporting (h : g.Reporting P) (hs : ProgramStep g a g')
    (hnode : g'.node.Reporting P) : g'.Reporting P where
  node := hnode
  registry := by rw [hs.registry]; exact h.registry
  callbacks t call u hc := by
    by_cases ht : a.thread = some t
    · rw [hs.started t ht] at hc
      cases hfires : g.node.fires a <;> rw [hfires] at hc <;> cases hc
    · rw [hs.others t ht] at hc
      exact h.callbacks t call u hc

theorem Reporting.callback (h : g.Reporting P) (hc : g.callback t = some pc) :
    (g.callbackStep t pc).Reporting P where
  node := by
    rcases callbackStep_node g t pc with heq | heq <;> rw [heq]
    · exact h.node
    · exact { h.node with }
  registry := by
    cases pc with
    | updateFromGossip call u =>
      obtain ⟨hu, hid⟩ := h.callbacks t call u hc
      rw [(callbackStep_updateFromGossip g t call u).1]
      exact h.registry.updateFromGossip hu hid
    | getMember | rebuildRing =>
      rw [registry_callbackStep fun _ _ heq => by cases heq]
      exact h.registry
  callbacks t' call' u hc' := by
    by_cases ht : t' = t
    · subst ht
      cases pc with
      | getMember call =>
        unfold callbackStep at hc'
        dsimp only at hc'
        cases hget : g.node.list.getMember call.memberId <;> rw [hget] at hc' <;>
          rw [callback_setCallback] at hc'
        · exact absurd hc' afterUpdate_ne.2
        · cases hc'
          exact ⟨h.node.reports.members _ _ hget, rfl⟩
      | updateFromGossip call u' =>
        rcases (callbackStep_updateFromGossip g t' call u').2 with heq | heq <;> rw [heq] at hc'
        · exact absurd hc' afterUpdate_ne.2
        · exact h.callbacks t' call' u hc'
      | rebuildRing call =>
        rw [show g.callbackStep t' (.rebuildRing call) = g.setCallback t' none from rfl,
          callback_setCallback] at hc'
        cases hc'
    · rw [(callbackStep_effect g t pc).others t' ht] at hc'
      exact h.callbacks t' call' u hc'

/-- **A step of the gateway.** -/
theorem Reporting.step (h : g.Reporting P) (hknown : g.node.OwnKnown)
    (hload : ∀ k m v, l ≠ .gossip (.setMyLoad k m v)) (harrive : ∀ msg src, l ≠ .gossip (.arrive msg src))
    (hs : g.step l = some g') : g'.Reporting P ∧ g'.node.OwnKnown := by
  cases l with
  | gossip a =>
    rcases gossipStep_cases hs with hprogram | ⟨t, pc, -, hc, -, rfl⟩
    · refine ⟨ProgramStep.reporting h hprogram (h.node.step hknown ?_ ?_ hprogram.node),
        (hknown.step hprogram.node).1⟩
      · rintro k m v rfl
        exact absurd rfl (hload k m v)
      · rintro msg src rfl
        exact absurd rfl (harrive msg src)
    · refine ⟨h.callback hc, ?_⟩
      rcases callbackStep_node g t pc with heq | heq <;> rw [heq]
      · exact hknown
      · exact { hknown with }
  | incrementActive id | decrementActive id | setDraining id draining =>
    cases hs
    refine ⟨⟨h.node, h.registry.modify fun info hinfo => ⟨hinfo.load, hinfo.version⟩, ?_⟩, hknown⟩
    exact fun t call u hc => h.callbacks t call u (by cases t <;> exact hc)

end GatewayNode

/-! ## The deployment -/

/-- What `main` of a replica is started with. -/
structure ReplicaArgs where
  id : String
  gossipAddress : String
  config : SwimConfig := {}
  maxCapacity : ℤ
  modelVersion : String

/-- A replica: its server, its SWIM node, and what the loop of `main` has read of
`active_requests_`. -/
structure ReplicaProcess where
  server : ReplicaPool
  node : Node
  loaded : Option ℤ

/-- `main` of a replica up to its loop, less `JoinCluster`. -/
def ReplicaArgs.start (x : ReplicaArgs) : ReplicaProcess where
  server := newReplica
  node := { Node.create x.id x.gossipAddress x.config with
    myActiveRequests := 0
    myMaxCapacity := x.maxCapacity
    myModelVersion := x.modelVersion }
  loaded := none

structure Deployment (ι : Type) where
  gateway : GatewayNode
  replicas : ι → ReplicaProcess

namespace Deployment

variable {ι : Type} [DecidableEq ι]

/-- The SWIM nodes: that of the gateway, and one for each replica. -/
def node (d : Deployment ι) : Option ι → Node
  | none => d.gateway.node
  | some i => (d.replicas i).node

def setReplica (d : Deployment ι) (i : ι) (x : ReplicaProcess) : Deployment ι :=
  { d with replicas := Function.update d.replicas i x }

def setNode (d : Deployment ι) (n : Node) : Option ι → Deployment ι
  | none => { d with gateway := { d.gateway with node := n } }
  | some i => d.setReplica i { d.replicas i with node := n }

/-- Neither an arrival nor a call of `SetMyLoad`: what a SWIM node does by itself. -/
def isOwn : Act → Bool
  | .arrive _ _ | .setMyLoad _ _ _ => false
  | _ => true

def isOwnGateway : GatewayAct → Bool
  | .gossip a => isOwn a
  | _ => true

inductive Label (ι : Type)
  | gateway (a : GatewayAct)
  | serve (i : ι) (l : ReplicaLabel)
  | gossip (i : ι) (a : Act)
  /-- The loop of `main` reads `active_requests_`. -/
  | readLoad (i : ι)
  /-- It calls `SetMyLoad` with what it has read. -/
  | publish (i : ι)
  /-- A message that the node `j` has sent arrives at the node `i`. -/
  | deliver (i j : Option ι) (msg : GossipMessage) (src : Address)

/-- One step of the deployment. -/
def step (args : ι → ReplicaArgs) (d : Deployment ι) : Label ι → Option (Deployment ι)
  | .gateway a =>
    if isOwnGateway a then (d.gateway.step a).map fun gateway => { d with gateway } else none
  | .serve i l =>
    (replicaProgram.step (d.replicas i).server l).map fun server =>
      d.setReplica i { d.replicas i with server }
  | .gossip i a =>
    if isOwn a then ((d.replicas i).node.step a).map fun node =>
      d.setReplica i { d.replicas i with node }
    else none
  | .readLoad i =>
    some (d.setReplica i
      { d.replicas i with loaded := some (d.replicas i).server.shared.activeRequests })
  | .publish i =>
    (d.replicas i).loaded.bind fun active =>
      ((d.replicas i).node.step (.setMyLoad active (args i).maxCapacity (args i).modelVersion)).map
        fun node => d.setReplica i { d.replicas i with node, loaded := none }
  | .deliver i j msg src =>
    if msg ∈ (d.node j).sent.map Datagram.msg then
      ((d.node i).step (.arrive msg src)).map fun n => d.setNode n i
    else none

/-- The start of a deployment. -/
def start (gatewayId gatewayAddress : String) (config : SwimConfig) (args : ι → ReplicaArgs) :
    Deployment ι where
  gateway := GatewayNode.create gatewayId gatewayAddress config
  replicas i := (args i).start

variable {args : ι → ReplicaArgs} {d d' d₀ : Deployment ι} {l : Label ι} {es : List (Label ι)}
  {i : ι} {n : Node} {x : ReplicaProcess}

/-- The loads that the replicas of a run from `d₀` have had: the calls streaming at some moment, next
to the capacity and the version of the command line. -/
def Had (args : ι → ReplicaArgs) (d₀ : Deployment ι) (es : List (Label ι)) : LoadPred :=
  fun id k m v => ∃ i pre d, (args i).id = id ∧ pre <+: es ∧ Run (step args) d₀ pre d ∧
    k = ((d.replicas i).server.calls.countP ReplicaCall.streaming : ℕ) ∧
    m = (args i).maxCapacity ∧ v = (args i).modelVersion

theorem Had.append {id v : String} {k m : ℤ} (h : Had args d₀ es id k m v) (fs : List (Label ι)) :
    Had args d₀ (es ++ fs) id k m v := by
  obtain ⟨i, pre, d, hid, hpre, hrun, hload⟩ := h
  exact ⟨i, pre, d, hid, hpre.trans (List.prefix_append _ _), hrun, hload⟩

/-- A replica that knows, holds and publishes loads as `P` says. -/
structure ReplicaInv (P : LoadPred) (x : ReplicaArgs) (p : ReplicaProcess) : Prop where
  node : p.node.Reporting P
  known : p.node.OwnKnown
  myId : p.node.list.myId = x.id
  server : ∃ ls, Run replicaProgram.step newReplica ls p.server
  loaded : ∀ k, p.loaded = some k → P x.id k x.maxCapacity x.modelVersion

/-- What holds of every process in a run. -/
structure Inv (P : LoadPred) (args : ι → ReplicaArgs) (d : Deployment ι) : Prop where
  gateway : d.gateway.Reporting P ∧ d.gateway.node.OwnKnown
  replicas : ∀ i, ReplicaInv P (args i) (d.replicas i)

theorem ReplicaInv.mono {P Q : LoadPred} {y : ReplicaArgs} (h : ReplicaInv P y x)
    (hPQ : ∀ id k m v, P id k m v → Q id k m v) : ReplicaInv Q y x where
  node := h.node.mono hPQ
  known := h.known
  myId := h.myId
  server := h.server
  loaded k hk := hPQ _ _ _ _ (h.loaded k hk)

omit [DecidableEq ι] in
theorem Inv.mono {P Q : LoadPred} (h : Inv P args d)
    (hPQ : ∀ id k m v, P id k m v → Q id k m v) : Inv Q args d where
  gateway := ⟨h.gateway.1.mono hPQ, h.gateway.2⟩
  replicas i := (h.replicas i).mono hPQ

theorem Inv.setReplica {P : LoadPred} (h : Inv P args d) (hx : ReplicaInv P (args i) x) :
    Inv P args (d.setReplica i x) where
  gateway := h.gateway
  replicas j := by
    show ReplicaInv P (args j) (Function.update d.replicas i x j)
    by_cases hj : j = i
    · subst hj
      rwa [Function.update_self]
    · rw [Function.update_of_ne hj]
      exact h.replicas j

omit [DecidableEq ι] in
theorem Inv.sent {P : LoadPred} (h : Inv P args d) (j : Option ι) :
    ∀ m ∈ (d.node j).sent, ∀ u ∈ m.msg.updates, Reported P u := by
  cases j with
  | none => exact h.gateway.1.node.sent
  | some j => exact (h.replicas j).node.sent

theorem ReplicaInv.gossip {P : LoadPred} {y : ReplicaArgs} {a : Act} (h : ReplicaInv P y x)
    (hload : ∀ k m v, a = .setMyLoad k m v → P x.node.list.myId k m v)
    (harrive : ∀ msg src, a = .arrive msg src → ∀ u ∈ msg.updates, Reported P u)
    (hs : x.node.step a = some n) (k : Option ℤ) (hk : ∀ v, k = some v → x.loaded = some v) :
    ReplicaInv P y { x with node := n, loaded := k } where
  node := h.node.step h.known hload harrive hs
  known := (h.known.step hs).1
  myId := (h.known.step hs).2.trans h.myId
  server := h.server
  loaded v hv := h.loaded v (hk v hv)

/-- **A step of the deployment.** The loads that the servers have at the step may be published from
then on. -/
theorem Inv.step {P : LoadPred} (h : Inv P args d)
    (hP : ∀ i, P (args i).id (d.replicas i).server.shared.activeRequests (args i).maxCapacity
      (args i).modelVersion)
    (hs : step args d l = some d') : Inv P args d' := by
  cases l with
  | gateway a =>
    simp only [Deployment.step] at hs
    split_ifs at hs with hown
    obtain ⟨g, hg, rfl⟩ := Option.map_eq_some_iff.mp hs
    refine ⟨h.gateway.1.step h.gateway.2 ?_ ?_ hg, h.replicas⟩
    · rintro k m v rfl
      cases hown
    · rintro msg src rfl
      cases hown
  | serve i l =>
    obtain ⟨server, hserver, rfl⟩ := Option.map_eq_some_iff.mp hs
    obtain ⟨ls, hls⟩ := (h.replicas i).server
    exact h.setReplica { h.replicas i with server := ⟨ls ++ [l], hls.snoc hserver⟩ }
  | gossip i a =>
    simp only [Deployment.step] at hs
    split_ifs at hs with hown
    obtain ⟨n, hn, rfl⟩ := Option.map_eq_some_iff.mp hs
    refine h.setReplica ((h.replicas i).gossip ?_ ?_ hn _ fun _ hv => hv)
    · rintro k m v rfl
      cases hown
    · rintro msg src rfl
      cases hown
  | readLoad i =>
    cases hs
    refine h.setReplica { h.replicas i with loaded := ?_ }
    intro k hk
    cases hk
    exact hP i
  | publish i =>
    obtain ⟨active, hactive, hs⟩ := Option.bind_eq_some_iff.mp hs
    obtain ⟨n, hn, rfl⟩ := Option.map_eq_some_iff.mp hs
    refine h.setReplica ((h.replicas i).gossip ?_ ?_ hn none (by intro v hv; cases hv))
    · intro k m v heq
      cases heq
      rw [(h.replicas i).myId]
      exact (h.replicas i).loaded active hactive
    · intro msg src heq
      cases heq
  | deliver i j msg src =>
    simp only [Deployment.step] at hs
    split_ifs at hs with hmem
    obtain ⟨n, hn, rfl⟩ := Option.map_eq_some_iff.mp hs
    obtain ⟨m, hm, rfl⟩ := List.mem_map.mp hmem
    have harrive : ∀ msg' src', Act.arrive m.msg src = .arrive msg' src' →
        ∀ u ∈ msg'.updates, Reported P u := by
      rintro msg' src' ⟨⟩
      exact h.sent j m hm
    have hload : ∀ (id : String) (k k' : ℤ) (v : String),
        Act.arrive m.msg src = .setMyLoad k k' v → P id k k' v := by
      intro id k k' v heq
      cases heq
    cases i with
    | none =>
      refine ⟨⟨{ h.gateway.1 with node := ?_ }, ?_⟩, h.replicas⟩
      · exact h.gateway.1.node.step h.gateway.2 (hload _) harrive hn
      · exact (h.gateway.2.step hn).1
    | some i => exact h.setReplica ((h.replicas i).gossip (hload _) harrive hn _ fun _ hv => hv)

theorem create_myId (y : ReplicaArgs) :
    (Node.create y.id y.gossipAddress y.config).list.myId = y.id :=
  MembershipList.addMember_own.2

/-- A replica as it starts, which has published that it is idle. -/
theorem ReplicaInv.start {P : LoadPred} {y : ReplicaArgs}
    (hP : P y.id 0 y.maxCapacity y.modelVersion) : ReplicaInv P y y.start where
  node := { Node.create_reporting (P := P) y.id y.gossipAddress y.config with
    own := Or.inr (by
      show P (Node.create y.id y.gossipAddress y.config).list.myId 0 y.maxCapacity y.modelVersion
      rwa [create_myId]) }
  known := { Node.create_ownKnown y.id y.gossipAddress y.config with }
  myId := create_myId y
  server := ⟨[], .nil⟩
  loaded := by intro k hk; cases hk

theorem inv_of_run {gatewayId gatewayAddress : String} {config : SwimConfig}
    (hrun : Run (step args) (start gatewayId gatewayAddress config args) es d) :
    Inv (Had args (start gatewayId gatewayAddress config args) es) args d := by
  induction hrun with
  | nil =>
    refine ⟨⟨GatewayNode.create_reporting .., Node.create_ownKnown ..⟩, fun i => .start ?_⟩
    exact ⟨i, [], _, rfl, List.prefix_rfl, .nil, rfl, rfl, rfl⟩
  | @snoc es l d d' hrun hs ih =>
    refine (ih.mono fun _ _ _ _ h => h.append [l]).step (fun i => ?_) hs
    obtain ⟨ls, hls⟩ := (ih.replicas i).server
    exact ⟨i, es, d, rfl, List.prefix_append _ _, hrun, active_eq_count hls, rfl, rfl⟩

/-- **The load in the registry.** In every run of a deployment, whatever the network does: the load
and the capacity that the gateway's registry has for a replica are the zeros of an entry that has
none, or the replica was started with that capacity and there was a moment at which that many
`Generate` calls were streaming on it; and the model version is empty or the one the replica was
started with. -/
theorem registry_reports {gatewayId gatewayAddress id : String} {config : SwimConfig}
    {info : ReplicaInfo}
    (hrun : Run (step args) (start gatewayId gatewayAddress config args) es d)
    (hinfo : d.gateway.registry.getReplica id = some info) :
    ((info.reportedActiveRequests = 0 ∧ info.maxCapacity = 0) ∨
      ∃ i pre d', (args i).id = id ∧ info.maxCapacity = (args i).maxCapacity ∧ pre <+: es ∧
        Run (step args) (start gatewayId gatewayAddress config args) pre d' ∧
        info.reportedActiveRequests =
          ((d'.replicas i).server.calls.countP ReplicaCall.streaming : ℕ)) ∧
    (info.modelVersion = "" ∨
      ∃ i, (args i).id = id ∧ info.modelVersion = (args i).modelVersion) := by
  obtain ⟨hload, hversion⟩ := (inv_of_run hrun).gateway.1.registry id info hinfo
  refine ⟨hload.imp_right ?_, hversion.imp_right ?_⟩
  · rintro ⟨-, i, pre, d', hid, hpre, hd', hactive, hcapacity, -⟩
    exact ⟨i, pre, d', hid, hcapacity, hpre, hd', hactive⟩
  · rintro ⟨-, -, i, pre, d', hid, -, -, -, -, hversion⟩
    exact ⟨i, hid, hversion⟩

def oneReplica (_ : Unit) : ReplicaArgs where
  id := "replica-1"
  gossipAddress := "10.0.0.1:17001"
  config := { maxPiggybackUpdates := 0 }
  maxCapacity := 4
  modelVersion := "v2"

/-- A replica is streaming when it reads its load; its next `PING` tells the gateway, whose callback
writes the registry. The call ends meanwhile. -/
def reportingRun : List (Label Unit) :=
  [.gossip () (.joinCluster ["10.0.0.9:17000"]),
    .serve () (.spawn (.generate ⟨"req-1", "hello", 1, 0⟩))] ++
  List.replicate 4 (.serve () (.call 0 {})) ++ [.readLoad (), .publish ()] ++
  List.replicate 4 (.serve () (.call 0 {})) ++
  [.gossip () (.sender (.peer "seed-10.0.0.9:17000"))] ++
  List.replicate 3 (.gossip () (.sender .none)) ++
  [.deliver none (some ()) ⟨.ping, "replica-1", "", 1,
    [⟨"replica-1", "10.0.0.1:17001", .alive, 0, "v2", 1, 4⟩]⟩ ⟨"10.0.0.1", 17001⟩] ++
  List.replicate 6 (.gateway (.gossip .receiver))

theorem registry_reports_one :
    ∃ d info, Run (step oneReplica) (start "gateway-1" "10.0.0.9:17000" {} oneReplica) reportingRun d ∧
      d.gateway.registry.getReplica "replica-1" = some info ∧ info.reportedActiveRequests = 1 ∧
      ∃ i pre d', (oneReplica i).id = "replica-1" ∧ info.maxCapacity = (oneReplica i).maxCapacity ∧
        pre <+: reportingRun ∧
        Run (step oneReplica) (start "gateway-1" "10.0.0.9:17000" {} oneReplica) pre d' ∧
        info.reportedActiveRequests =
          ((d'.replicas i).server.calls.countP ReplicaCall.streaming : ℕ) := by
  have hrun : Run (step oneReplica) (start "gateway-1" "10.0.0.9:17000" {} oneReplica)
      reportingRun _ := run_get (by decide +kernel)
  have hinfo : ((exec (step oneReplica) (start "gateway-1" "10.0.0.9:17000" {} oneReplica)
      reportingRun).get (by decide +kernel)).gateway.registry.getReplica "replica-1" = some _ :=
    (Option.some_get (by decide +kernel)).symm
  have h := registry_reports hrun hinfo
  exact ⟨_, _, hrun, hinfo, by decide +kernel, h.1.resolve_left (by decide +kernel)⟩

end Deployment

end LlmGateway.Gateway
