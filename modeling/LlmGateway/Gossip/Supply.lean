import LlmGateway.Gossip.Held
import LlmGateway.Gossip.Piggyback

/-!
# How often a node can tell something

An update leaves a node for each of the sends that its entry in the piggyback buffer has left, and no
more. `Node.supply P` counts the sends of updates that satisfy `P`: those left in the buffer, those
that a `SendMessage` call has in hand and those that have been sent. Only a new entry in the buffer
raises it (`Node.step_supply`).
-/

namespace LlmGateway.Gossip

open MembershipList

/-- The updates that the receiver thread is sending. -/
def ReceiverPc.outgoing (pc : ReceiverPc) : List MembershipUpdate := pc.sending.elim [] Sending.held

namespace Node

variable {P : MembershipUpdate → Bool} {n n' : Node} {c : Choice} {a : Act}

/-- How often updates that satisfy `P` have been sent. -/
def told (P : MembershipUpdate → Bool) (n : Node) : ℕ :=
  (n.sent.map fun d => d.msg.updates.countP P).sum

/-- How often updates that satisfy `P` have been sent or can be. -/
def supply (P : MembershipUpdate → Bool) (n : Node) : ℕ :=
  n.told P + n.list.sendsLeft P + n.sender.held.countP P + n.receiver.outgoing.countP P

/-- **`SendMessage`.** What it sends has been in the buffer, and the node's own update does not
count. -/
theorem sendStep_supply (hqueued : n.list.Queued) (hself : P n.selfUpdate = false) (m : Sending) :
    (n.sendStep m).1.told P + (n.sendStep m).1.list.sendsLeft P +
        (n.sendStep m).2.elim 0 (fun m' => m'.held.countP P) ≤
      n.told P + n.list.sendsLeft P + m.held.countP P := by
  cases m with
  | collect o =>
    rcases n.sendStep_collect o with h | ⟨k, h⟩ <;> rw [h]
    · exact le_refl _
    · have htaken := hqueued.sendsLeft_takeUpdates (P := P) k
      show n.told P + (n.list.takeUpdates k).2.sendsLeft P + (n.list.takeUpdates k).1.countP P ≤
        n.told P + n.list.sendsLeft P + 0
      omega
  | transmit o updates =>
    have htold : (n.sendStep (.transmit o updates)).1.told P = n.told P + updates.countP P := by
      show ((n.sent ++ [_]).map _).sum = _
      rw [List.map_append, List.sum_append, List.map_singleton, List.sum_singleton]
      show _ + (updates ++ [n.selfUpdate]).countP P = _
      rw [List.countP_append, List.countP_singleton, if_neg (by rw [hself]; exact Bool.false_ne_true),
        Nat.add_zero]
      rfl
    rw [htold]
    show n.told P + updates.countP P + n.list.sendsLeft P + 0 ≤
      n.told P + n.list.sendsLeft P + updates.countP P
    omega

/-- A `SendMessage` step of a thread, when the other one has `b` in hand. -/
theorem sending_supply (hqueued : n.list.Queued) (hself : P n.selfUpdate = false) {m : Sending}
    {more : Node → Sending → Node} {done : Node → Node} {b : ℕ}
    (hm : n.supply P = n.told P + n.list.sendsLeft P + m.held.countP P + b)
    (hmore : ∀ n' m', SendSpec n m n' →
      (more n' m').supply P = n'.told P + n'.list.sendsLeft P + m'.held.countP P + b)
    (hdone : ∀ n', SendSpec n m n' → (done n').supply P = n'.told P + n'.list.sendsLeft P + b) :
    (match n.sendStep m with
      | (n', some m') => more n' m'
      | (n', none) => done n').supply P ≤ n.supply P := by
  obtain ⟨hspec, -⟩ := n.sendStep_spec m
  have hsupply := sendStep_supply hqueued hself m
  refine sendStep_elim (C := fun n' => n'.supply P ≤ n.supply P) (fun n' m' hr => ?_)
    fun n' hr => ?_ <;> rw [hr] at hspec hsupply
  · rw [hmore n' m' hspec, hm]
    exact Nat.add_le_add_right hsupply b
  · rw [hdone n' hspec, hm]
    exact Nat.add_le_add_right hsupply b

/-- A step that sends nothing, after which a thread that has moved on has nothing in hand. -/
theorem supply_le (hlist : n'.list.sendsLeft P ≤ n.list.sendsLeft P) (hsent : n'.sent = n.sent)
    (hsender : n'.sender.held = n.sender.held ∨ n'.sender.held = [])
    (hreceiver : n'.receiver.outgoing = n.receiver.outgoing ∨ n'.receiver.outgoing = []) :
    n'.supply P ≤ n.supply P := by
  have htold : n'.told P = n.told P := by unfold told; rw [hsent]
  have hsender : n'.sender.held.countP P ≤ n.sender.held.countP P := by
    rcases hsender with h | h <;> rw [h]
    exact Nat.zero_le _
  have hreceiver : n'.receiver.outgoing.countP P ≤ n.receiver.outgoing.countP P := by
    rcases hreceiver with h | h <;> rw [h]
    exact Nat.zero_le _
  unfold supply
  omega

theorem withAddress_supply {s : String} {k : Address → Node}
    (h : ∀ dest, (k dest).supply P ≤ n.supply P) :
    (n.register.withAddress s k).supply P ≤ n.supply P := by
  unfold Node.withAddress
  cases parseAddress s with
  | ok dest => exact h dest
  | error _ => exact le_refl _

section

variable (hqueued : n.list.Queued) (hself : P n.selfUpdate = false)
  (hlist : n'.list.sendsLeft P ≤ n.list.sendsLeft P)

include hqueued hself hlist

theorem senderStep_supply (hs : n.senderStep c = some n') : n'.supply P ≤ n.supply P := by
  cases senderStep_move hs with
  | goto seqs hpc => exact supply_le hlist rfl (Or.inr (SenderPc.held_of_none hpc.1)) (Or.inl rfl)
  | pick _ hpc => exact supply_le hlist rfl (Or.inr (SenderPc.held_of_none hpc)) (Or.inl rfl)
  | probe _ hpc =>
    refine withAddress_supply fun dest => supply_le (le_refl _) rfl (Or.inr ?_) (Or.inl rfl)
    rw [SenderPc.held_of_some (hpc dest)]
    rfl
  | @send m more done hm hmore _ _ hdone =>
    refine sending_supply (b := n.receiver.outgoing.countP P) hqueued hself ?_ (fun n' m' h => ?_)
      fun n' h => ?_
    · rw [supply, SenderPc.held_of_some hm]
    · rw [supply, SenderPc.held_of_some (hmore m'), ← h.receiver]
      rfl
    · rw [supply, SenderPc.held_of_none hdone.1, ← h.receiver]
      rfl
  | suspect | expire => exact supply_le hlist rfl (Or.inr rfl) (Or.inl rfl)

theorem receiverStep_supply (hs : n.receiverStep = some n') : n'.supply P ≤ n.supply P := by
  cases receiverStep_move hs with
  | relayProbe =>
    exact withAddress_supply fun dest => supply_le (le_refl _) rfl (Or.inl rfl) (Or.inr rfl)
  | ackPing hpc | relayPing hpc | relayAck hpc =>
    refine sending_supply (b := n.sender.held.countP P) hqueued hself ?_ (fun n' m' h => ?_)
      fun n' h => ?_
    · rw [supply, hpc, Nat.add_right_comm]
      rfl
    · rw [supply, Nat.add_right_comm, ← h.sender]
      rfl
    · rw [supply, Nat.add_right_comm, ← h.sender]
      rfl
  | receive | handled | toRefute | toApply | refute | apply | ping | unknown | pingReq | ack
  | waiting | answered | timedOut | relayForget => exact supply_le hlist rfl (Or.inl rfl) (Or.inr rfl)

/-- **A step of a node that is not leaving.** It tells nothing that was not in the buffer. -/
theorem step_supply (hs : n.step a = some n') (hleave : a ≠ .leaver) :
    n'.supply P ≤ n.supply P := by
  cases step_move hs with
  | tick | setMyLoad | joinCluster | arrive =>
    exact supply_le hlist rfl (Or.inl rfl) (Or.inl rfl)
  | sender _ hs => exact senderStep_supply hqueued hself hlist hs
  | receiver _ hs => exact receiverStep_supply hqueued hself hlist hs
  | leaver => exact absurd rfl hleave

end

end Node

end LlmGateway.Gossip
