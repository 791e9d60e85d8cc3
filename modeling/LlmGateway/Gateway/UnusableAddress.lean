import LlmGateway.Gossip.UsableAddress
import LlmGateway.Gateway.GatewayNode

/-!
# Updates with an address that cannot be parsed

`ApplyUpdate` stores the address of an update without a look at it. On a gateway the callback then
hands it to `UpdateFromGossip`, which writes most of the entry before `std::stoi` reads the port; on
every node `ParseAddress` reads it when a thread is to send to the member. An exception in one of
these ends the process.

1. `updateFromGossip_of_usable`: an address that `ParseAddress` reads gives no exception in the
   registry either.
2. `GatewayNode.Steady`: no thread of a gateway raises an exception, in its program or in a callback.
3. `no_exception`: the runs in which nothing is raised.
-/

namespace LlmGateway.Gossip.Node

open MembershipList

/-- An update whose address is not usable leaves the list as it is. -/
def Unaffected (n : Node) (a : Act) : Prop :=
  ∀ msg src u rest n', a = .receiver → n.receiver = .apply msg src u rest → ¬ Usable u.address →
    n.step a = some n' → Same n.list n'.list

theorem Harmless.unaffected {n : Node} {a : Act} (h : n.Harmless a) : n.Unaffected a := by
  rintro msg src u rest n' rfl hpc hu hs
  rw [(step_apply hpc hs).1]
  exact (applyUpdate_of_ignores ((h.updates msg src u rest rfl hpc).resolve_left hu)).1

end LlmGateway.Gossip.Node

namespace LlmGateway.Gateway

open Gossip Transition

variable {s id : String} {r : ReplicaRegistry} {u : MembershipUpdate}

/-- The port that `ParseAddress` reads is the one that the gRPC address is derived from. -/
theorem deriveGrpcAddress_of_usable (h : Usable s) : ∃ a, deriveGrpcAddress s = .ok a := by
  obtain ⟨a, ha⟩ := h
  unfold parseAddress at ha
  unfold deriveGrpcAddress
  cases hsplit : rfindSplit ':' s.toList with
  | none => exact ⟨none, rfl⟩
  | some p =>
    rw [hsplit] at ha
    dsimp only at ha ⊢
    cases hport : stoi p.2 with
    | error e =>
      rw [hport] at ha
      cases ha
    | ok port => exact ⟨_, rfl⟩

theorem updateFromGossip_of_usable (h : Usable u.address) : (r.updateFromGossip id u).2 = none := by
  obtain ⟨a, ha⟩ := deriveGrpcAddress_of_usable h
  have haddress : (((r.getReplica id).getD {}).refresh u).gossipAddress = u.address := rfl
  unfold ReplicaRegistry.updateFromGossip
  dsimp only
  rw [haddress, ha]
  split
  · cases a <;> rfl
  · rfl

namespace GatewayNode

variable {g g' : GatewayNode} {l : GatewayAct} {t : GossipThread} {pc : CallbackPc}

/-- The node is steady, and what a callback is to write has a usable address. -/
structure Steady (g : GatewayNode) : Prop where
  node : g.node.Steady
  own : g.node.OwnKnown
  callbacks : ∀ t call u, g.callback t = some (.updateFromGossip call u) → Usable u.address

theorem Steady.program {a : Act} (h : g.Steady) (ha : g.node.Harmless a)
    (hs : ProgramStep g a g') : g'.Steady where
  node := h.node.step h.own.known ha hs.node
  own := (h.own.step hs.node).1
  callbacks t call u hc := by
    by_cases ht : a.thread = some t
    · rw [hs.started t ht] at hc
      obtain ⟨_, -, hc⟩ := Option.map_eq_some_iff.mp hc
      cases hc
    · rw [hs.others t ht] at hc
      exact h.callbacks t call u hc

theorem Steady.setCallback (h : g.Steady) {c : Option CallbackPc}
    (hc : ∀ call u, c = some (.updateFromGossip call u) → Usable u.address) :
    (g.setCallback t c).Steady where
  node := by rw [setCallback_node]; exact h.node
  own := by rw [setCallback_node]; exact h.own
  callbacks t' call u hc' := by
    by_cases ht : t' = t
    · subst ht
      rw [callback_setCallback] at hc'
      exact hc call u hc'
    · rw [callback_setCallback_of_ne ht] at hc'
      exact h.callbacks t' call u hc'

theorem Steady.callback (h : g.Steady) (hc : g.callback t = some pc) :
    (g.callbackStep t pc).Steady := by
  cases pc with
  | getMember call =>
    unfold callbackStep
    dsimp only
    cases hmember : g.node.list.getMember call.memberId with
    | some info =>
      refine h.setCallback fun call' u hpc => ?_
      cases hpc
      exact h.node.members _ _ hmember
    | none => exact h.setCallback fun call' u hpc => absurd hpc afterUpdate_ne.2
  | updateFromGossip call u =>
    have hnone : (g.registry.updateFromGossip call.memberId u).2 = none :=
      updateFromGossip_of_usable (h.callbacks t call u hc)
    unfold callbackStep
    dsimp only
    split
    · rename_i registry heq
      have hregistry : Steady { g with registry } :=
        ⟨h.node, h.own, fun t call u hc => h.callbacks t call u (by cases t <;> exact hc)⟩
      exact hregistry.setCallback fun call' u hpc => absurd hpc afterUpdate_ne.2
    · rename_i registry exception heq
      rw [heq] at hnone
      cases hnone
  | rebuildRing call => exact h.setCallback fun call' u hpc => by cases hpc

/-- What the gossip node is given is harmless. -/
def Harmless (g : GatewayNode) (l : GatewayAct) : Prop := ∀ a, l = .gossip a → g.node.Harmless a

theorem Steady.step (h : g.Steady) (hl : g.Harmless l) (hs : g.step l = some g') : g'.Steady := by
  cases l with
  | gossip a =>
    rcases gossipStep_cases hs with hprogram | ⟨t, pc, -, hc, -, rfl⟩
    · exact h.program (hl a rfl) hprogram
    · exact h.callback hc
  | incrementActive id | decrementActive id | setDraining id draining =>
    cases hs
    exact ⟨h.node, h.own, fun t call u hc => h.callbacks t call u (by cases t <;> exact hc)⟩

/-- An update whose address is not usable leaves the list and the registry as they are, and starts
no callback. -/
def Unaffected (g : GatewayNode) (l : GatewayAct) : Prop :=
  ∀ msg src u rest g', l = .gossip .receiver → g.callback .receiver = none →
    g.node.receiver = .apply msg src u rest → ¬ Usable u.address → g.step l = some g' →
    MembershipList.Same g.node.list g'.node.list ∧ g'.registry = g.registry ∧
      g'.callback .receiver = none

theorem Harmless.unaffected (h : g.Harmless l) : g.Unaffected l := by
  rintro msg src u rest g' rfl hidle hpc hu hs
  have hignores := ((h .receiver rfl).updates msg src u rest rfl hpc).resolve_left hu
  have hs : g.gossipStep .receiver = some g' := hs
  rcases gossipStep_cases hs with hprogram | ⟨t, pc, ht, hc, -, -⟩
  · refine ⟨(h .receiver rfl).unaffected msg src u rest _ rfl hpc hu hprogram.node,
      hprogram.registry, ?_⟩
    rw [hprogram.started .receiver rfl, Node.fires, hpc]
    dsimp only
    rw [(MembershipList.applyUpdate_of_ignores hignores).2]
    rfl
  · cases ht
    rw [hidle] at hc
    cases hc

/-- **No exception.** With a usable own address, in every run in which the seeds are usable and every
update that `ApplyUpdate` is called with has a usable address or no effect, no thread of a node and
no callback of a gateway raises an exception, and an update with an address that is not usable
changes neither the list nor the registry. -/
theorem no_exception (myId myAddress : String) (config : SwimConfig) (haddress : Usable myAddress)
    (hconfig : 0 ≤ config.maxPiggybackUpdates) :
    (∀ es n, Run Node.step (Node.create myId myAddress config) es n →
      (EveryStep Node.step (Node.create myId myAddress config) es fun _ n a => n.Harmless a) →
      (Always Node.step (Node.create myId myAddress config) es fun _ n => n.crashed = false) ∧
      EveryStep Node.step (Node.create myId myAddress config) es fun _ n a => n.Unaffected a) ∧
    ∀ es g, Run GatewayNode.step (create myId myAddress config) es g →
      (EveryStep GatewayNode.step (create myId myAddress config) es fun _ g l => g.Harmless l) →
      (Always GatewayNode.step (create myId myAddress config) es
        fun _ g => g.node.crashed = false) ∧
      EveryStep GatewayNode.step (create myId myAddress config) es fun _ g l => g.Unaffected l := by
  have hsteady : (Node.create myId myAddress config).Steady := Node.create_steady haddress hconfig
  have hown := Node.create_ownKnown myId myAddress config
  constructor
  · intro es n hrun hharmless
    have halways := always_of_everyStep (P := fun _ (n : Node) => n.Steady ∧ n.OwnKnown) hrun
      ⟨hsteady, hown⟩ (fun pre n a n' _ h ha hs =>
        ⟨h.1.step h.2.known ha hs, (h.2.step hs).1⟩) hharmless
    exact ⟨halways.mono fun _ _ _ h => h.1.alive,
      hharmless.mono fun _ _ _ h => h.unaffected⟩
  · intro es g hrun hharmless
    have halways := always_of_everyStep (P := fun _ (g : GatewayNode) => g.Steady) hrun
      ⟨hsteady, hown, fun t call u hc => by cases t <;> cases hc⟩
      (fun pre g l g' _ h hl hs => h.step hl hs) hharmless
    exact ⟨halways.mono fun _ _ _ h => h.node.alive,
      hharmless.mono fun _ _ _ h => h.unaffected⟩

/-- A test that is enough for `Harmless`: no seeds, and every address parses. -/
def parses (g : GatewayNode) : GatewayAct → Bool
  | .gossip (.joinCluster _) => false
  | .gossip .receiver =>
    match g.node.receiver with
    | .apply _ _ u _ => (parseAddress u.address).toOption.isSome
    | _ => true
  | _ => true

theorem harmless_of_parses (h : g.parses l = true) : g.Harmless l := by
  rintro a rfl
  constructor
  · rintro seeds rfl
    cases h
  · rintro msg src u rest rfl hpc
    unfold parses at h
    dsimp only at h
    rw [hpc] at h
    dsimp only at h
    cases hparse : parseAddress u.address with
    | ok a => exact Or.inl ⟨a, hparse⟩
    | error e =>
      rw [hparse] at h
      cases h

/-- A replica with a usable address is taken up, suspected and registered. -/
theorem no_exception_suspected :
    ∃ g, Run step (create "gateway-1" "127.0.0.1:18080" {}) suspectedRun g ∧
      g.registryState "replica-1" = some .suspect ∧ g.node.crashed = false := by
  have hrun : Run step (create "gateway-1" "127.0.0.1:18080" {}) suspectedRun _ :=
    run_get (by decide +kernel)
  have hcheck : checkSteps step parses (create "gateway-1" "127.0.0.1:18080" {}) suspectedRun =
      true := by decide +kernel
  refine ⟨_, hrun, by decide +kernel, ?_⟩
  exact (((no_exception "gateway-1" "127.0.0.1:18080" {} ⟨⟨"127.0.0.1", 18080⟩, by decide⟩
    (by decide)).2 _ _ hrun ((everyStep_of_check hcheck).mono fun _ _ _ h =>
      harmless_of_parses h)).1).last hrun

/-- A PING about a member whose port is not a number. -/
def unusablePing : Act :=
  .arrive ⟨.ping, "replica-1", "", 1, [⟨"replica-9", "x:y", .alive, 0, "", 0, 4⟩]⟩
    ⟨"127.0.0.1", 17001⟩

/-- A node stores the address, and the next round that probes the member raises the exception. A
gateway raises it in the callback, with most of the registry entry written. -/
theorem exception_unusablePing :
    (∃ n, Run Node.step (Node.create "replica-2" "127.0.0.1:17002" {})
        ([unusablePing] ++ List.replicate 7 .receiver ++
          [.sender (.peer "replica-9"), .sender .none]) n ∧
      (n.list.getMember "replica-9").map MemberInfo.address = some "x:y" ∧ n.crashed = true) ∧
    ∃ g, Run step (create "gateway-1" "127.0.0.1:18080" {})
        (([unusablePing] ++ List.replicate 5 Act.receiver).map .gossip) g ∧
      (g.registry.getReplica "replica-9").map ReplicaInfo.gossipAddress = some "x:y" ∧
      g.node.crashed = true :=
  ⟨⟨_, run_get (by decide +kernel), by decide +kernel, by decide +kernel⟩,
    ⟨_, run_get (by decide +kernel), by decide +kernel, by decide +kernel⟩⟩

end GatewayNode

end LlmGateway.Gateway
