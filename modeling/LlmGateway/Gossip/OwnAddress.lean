import LlmGateway.Gossip.Held
import LlmGateway.Gossip.Refutation

/-!
# The address a node gossips of itself

`SendMessage` ends every message with the node's own update, and `LeaveCluster` sends an update of
its own. Both take the address from `my_address_`, which the constructor sets and nothing changes:
`advertises_of_run`.
-/

namespace LlmGateway.Gossip

open Transition

/-- The last update of the message is about this node, with this address. -/
def GossipMessage.Introduces (id address : String) (msg : GossipMessage) : Prop :=
  ∃ u, msg.updates.getLast? = some u ∧ u.memberId = id ∧ u.address = address

namespace Node

/-- The node introduces itself under this id with this address, in what it has sent and in what
`LeaveCluster` is about to send. -/
structure Advertises (id address : String) (n : Node) : Prop where
  ownId : n.list.myId = id
  ownAddress : n.myAddress = address
  sent : ∀ d ∈ n.sent, d.msg.Introduces id address
  leaver : ∀ u ∈ n.leaver.held, u.memberId = id ∧ u.address = address

variable {n n' : Node} {a : Act} {c : Choice} {id myId myAddress address : String}
  {config : SwimConfig} {es : List Act}

namespace Advertises

open MembershipList

theorem keep (h : n.Advertises id address) (haddress : n'.myAddress = n.myAddress)
    (hsent : n'.sent = n.sent) (hleaver : n'.leaver = n.leaver)
    (hid : n'.list.myId = n.list.myId) : n'.Advertises id address where
  ownId := hid.trans h.ownId
  ownAddress := haddress.trans h.ownAddress
  sent := hsent ▸ h.sent
  leaver := hleaver ▸ h.leaver

theorem register (h : n.Advertises id address) : n.register.Advertises id address := { h with }

theorem withAddress (h : n.Advertises id address) {s : String} {k : Address → Node}
    (hk : ∀ a, (k a).Advertises id address) : (n.withAddress s k).Advertises id address := by
  unfold Node.withAddress
  cases parseAddress s with
  | ok a => exact hk a
  | error _ => exact { h with }

theorem joinCluster (h : n.Advertises id address) (seeds : List String) :
    (n.joinCluster seeds).Advertises id address := by
  refine h.keep rfl rfl rfl ?_
  rw [joinCluster_list]
  exact MembershipList.addMembers_own.2

/-- **`SendMessage`.** What it sends ends with the node's own update. -/
theorem sendStep (h : n.Advertises id address) (m : Sending) :
    (n.sendStep m).1.Advertises id address := by
  cases m with
  | collect o =>
    rcases n.sendStep_collect o with hr | ⟨k, hr⟩ <;> rw [hr] <;> exact { h with }
  | transmit o updates =>
    refine { h with sent := ?_ }
    intro d hd
    rcases List.mem_append.mp hd with hd | hd
    · exact h.sent d hd
    · rw [List.mem_singleton.mp hd]
      exact ⟨n.selfUpdate, List.getLast?_concat, h.ownId, h.ownAddress⟩

theorem sending (h : n.Advertises id address) (m : Sending) {more : Node → Sending → Node}
    {done : Node → Node}
    (hmore : ∀ n' m', n'.Advertises id address → (more n' m').Advertises id address)
    (hdone : ∀ n', n'.Advertises id address → (done n').Advertises id address) :
    (match n.sendStep m with
      | (n', some m') => more n' m'
      | (n', none) => done n').Advertises id address := by
  have hsend := h.sendStep m
  refine sendStep_elim (fun n' m' hr => ?_) fun n' hr => ?_ <;> rw [hr] at hsend
  · exact hmore n' m' hsend
  · exact hdone n' hsend

theorem senderStep (h : n.Advertises id address) (hs : n.senderStep c = some n') :
    n'.Advertises id address := by
  cases senderStep_move hs with
  | goto seqs => exact { h with }
  | pick => exact { h with }
  | probe => exact h.register.withAddress fun a => { h with }
  | send => exact h.sending _ (fun _ _ hn => { hn with }) fun _ hn => { hn with }
  | suspect => exact h.keep rfl rfl rfl markSuspect_own.2
  | expire => exact h.keep rfl rfl rfl markDead_own.2

theorem receiverStep (h : n.Advertises id address) (hs : n.receiverStep = some n') :
    n'.Advertises id address := by
  cases receiverStep_move hs with
  | refute => exact h.keep rfl rfl rfl incrementMyIncarnation_myId
  | apply => exact h.keep rfl rfl rfl applyUpdate_own.2
  | ping =>
    refine h.keep rfl rfl rfl ?_
    dsimp only
    split_ifs
    · exact addMember_own.2
    · rfl
  | relayProbe => exact h.register.withAddress fun a => { h with }
  | ackPing | relayPing | relayAck =>
    exact h.sending _ (fun _ _ hn => { hn with }) fun _ hn => { hn with }
  | receive | handled | toRefute | toApply | unknown | pingReq | ack | waiting | answered
  | timedOut | relayForget => exact { h with }

theorem leaverStep (h : n.Advertises id address) (hs : n.leaverStep = some n') :
    n'.Advertises id address := by
  cases leaverStep_move hs with
  | snapshot => exact { h with leaver := by intro u hu; cases hu }
  | readIncarnation =>
    refine { h with leaver := ?_ }
    intro u hu
    rw [List.mem_singleton.mp hu]
    exact ⟨h.ownId, h.ownAddress⟩
  | done => exact { h with leaver := by intro u hu; cases hu }
  | @announce leave peer peers hpc =>
    have hleave := h.leaver
    rw [hpc] at hleave
    refine withAddress ?_ fun dest => ?_
    · exact { h with }
    · refine { h with leaver := hleave, sent := ?_ }
      intro d hd
      rcases List.mem_append.mp hd with hd | hd
      · exact h.sent d hd
      · rw [List.mem_singleton.mp hd]
        exact ⟨leave, rfl, hleave leave (List.mem_singleton_self leave)⟩

/-- **One step of a node.** -/
theorem step (h : n.Advertises id address) (hs : n.step a = some n') :
    n'.Advertises id address := by
  cases step_move hs with
  | tick | setMyLoad | arrive => exact { h with }
  | joinCluster seeds => exact h.joinCluster seeds
  | sender _ hs => exact h.senderStep hs
  | receiver _ hs => exact h.receiverStep hs
  | leaver _ hs => exact h.leaverStep hs

theorem run (h : n.Advertises id address) (hrun : Run Node.step n es n') : n'.Advertises id address :=
  hrun.invariant h fun _ _ _ hs hstep => hs.step hstep

end Advertises

theorem create_advertises (myId myAddress : String) (config : SwimConfig) :
    (create myId myAddress config).Advertises myId myAddress where
  ownId := MembershipList.addMember_own.2
  ownAddress := rfl
  sent := by intro d hd; cases hd
  leaver := by intro u hu; cases hu

/-- **The own address.** Whatever reaches the node, all it sends introduces it with the id and the
address it was created with. -/
theorem advertises_of_run (hrun : Run step (create myId myAddress config) es n) :
    ∀ d ∈ n.sent, d.msg.Introduces myId myAddress :=
  ((create_advertises myId myAddress config).run hrun).sent

end Node

end LlmGateway.Gossip
