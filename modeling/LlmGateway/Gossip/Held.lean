import LlmGateway.Gossip.Effects

/-!
# The updates a node has in hand

Besides its list a node holds updates in the locals of its threads, in its socket and in what it has
sent. `Held U` says that all of them satisfy `U`. They come from the buffer of the list, from what
arrives and from the node itself, and from nowhere else (`Held.step`).
-/

namespace LlmGateway.Gossip

/-- The updates a `SendMessage` call has taken from the buffer. -/
def Sending.held : Sending → List MembershipUpdate
  | .collect _ => []
  | .transmit _ updates => updates

def SenderPc.held : SenderPc → List MembershipUpdate
  | .ping _ _ m => m.held
  | .pingReq _ _ _ m => m.held
  | _ => []

theorem SenderPc.held_of_none {pc : SenderPc} (h : pc.sending = none) : pc.held = [] := by
  cases pc <;> first | rfl | cases h

theorem SenderPc.held_of_some {pc : SenderPc} {m : Sending} (h : pc.sending = some m) :
    pc.held = m.held := by
  cases pc <;> cases h <;> rfl

/-- The updates the receiver thread holds: those still to be processed, or being sent on. -/
def ReceiverPc.held : ReceiverPc → List MembershipUpdate
  | .updates _ _ rest => rest
  | .refute _ _ u rest => u :: rest
  | .apply _ _ u rest => u :: rest
  | .ackPing m => m.held
  | .relayPing _ _ _ m => m.held
  | .relayAck _ m => m.held
  | _ => []

def LeaverPc.held : LeaverPc → List MembershipUpdate
  | .announce leave _ => [leave]
  | _ => []

namespace Node

/-- All updates in the threads of the node, in its socket and in what it has sent satisfy `U`. -/
structure Held (U : MembershipUpdate → Prop) (n : Node) : Prop where
  sender : ∀ u ∈ n.sender.held, U u
  receiver : ∀ u ∈ n.receiver.held, U u
  leaver : ∀ u ∈ n.leaver.held, U u
  socket : ∀ d ∈ n.socket, ∀ u ∈ d.1.updates, U u
  sent : ∀ d ∈ n.sent, ∀ u ∈ d.msg.updates, U u

variable {U : MembershipUpdate → Prop} {n n' : Node} {c : Choice} {a : Act}

theorem create_held (myId myAddress : String) (config : SwimConfig) :
    (create myId myAddress config).Held U where
  sender := by intro u hu; cases hu
  receiver := by intro u hu; cases hu
  leaver := by intro u hu; cases hu
  socket := by intro d hd; cases hd
  sent := by intro d hd; cases hd

/-- What a message may take from the buffer satisfies `U`. -/
def Buffered (U : MembershipUpdate → Prop) (n : Node) : Prop :=
  0 < n.config.maxPiggybackUpdates → ∀ q ∈ n.list.piggybackBuffer, U q.update

theorem Buffered.taken (h : n.Buffered U) :
    ∀ u ∈ (n.list.takeUpdates n.config.maxPiggybackUpdates.toNat).1, U u := by
  intro u hu
  obtain ⟨q, hq, rfl⟩ := List.mem_map.mp hu
  by_cases hm : 0 < n.config.maxPiggybackUpdates
  · exact h hm q (List.mem_of_mem_take hq)
  · rw [Int.toNat_of_nonpos (not_lt.mp hm)] at hq
    cases hq

namespace Held

theorem withSender (h : n.Held U) {pc : SenderPc} (hpc : ∀ u ∈ pc.held, U u) :
    Held U { n with sender := pc } := { h with sender := hpc }

theorem withReceiver (h : n.Held U) {pc : ReceiverPc} (hpc : ∀ u ∈ pc.held, U u) :
    Held U { n with receiver := pc } := { h with receiver := hpc }

theorem idleSender (h : n.Held U) {pc : SenderPc} (hpc : pc.held = []) :
    Held U { n with sender := pc } := h.withSender (by rw [hpc]; simp)

theorem idleReceiver (h : n.Held U) {pc : ReceiverPc} (hpc : pc.held = []) :
    Held U { n with receiver := pc } := h.withReceiver (by rw [hpc]; simp)

theorem register (h : n.Held U) : n.register.Held U := { h with }

theorem eraseAcks (h : n.Held U) (seqs : List ℕ) : (n.eraseAcks seqs).Held U := { h with }

theorem withAddress (h : n.Held U) {s : String} {k : Address → Node} (hk : ∀ a, (k a).Held U) :
    (n.withAddress s k).Held U := by
  unfold Node.withAddress
  cases parseAddress s with
  | ok a => exact hk a
  | error _ => exact { h with }

/-- **`SendMessage`.** It sends the updates it holds and the node's own, and holds what it has
collected. -/
theorem sendStep (h : n.Held U) (hbuffer : n.Buffered U)
    (hself : U n.selfUpdate) {m : Sending} (hm : ∀ u ∈ m.held, U u) :
    (n.sendStep m).1.Held U ∧ ∀ m', (n.sendStep m).2 = some m' → ∀ u ∈ m'.held, U u := by
  cases m with
  | collect o =>
    unfold Node.sendStep MembershipList.getUpdatesForPiggyback
    by_cases hneg : n.config.maxPiggybackUpdates < 0
    · rw [if_pos hneg]
      refine ⟨{ h with }, ?_⟩
      intro m' hm'
      cases hm'
    · rw [if_neg hneg]
      refine ⟨{ h with }, ?_⟩
      rintro m' ⟨⟩
      exact hbuffer.taken
  | transmit o updates =>
    refine ⟨{ h with sent := ?_ }, ?_⟩
    · intro d hd u hu
      rcases List.mem_append.mp hd with hd | hd
      · exact h.sent d hd u hu
      · rw [List.mem_singleton.mp hd] at hu
        rcases List.mem_append.mp hu with hu | hu
        · exact hm u hu
        · rw [List.mem_singleton.mp hu]
          exact hself
    · intro m' hm'
      cases hm'

/-- A `SendMessage` step of a thread that goes on holding what the call holds. -/
theorem sending (h : n.Held U) (hbuffer : n.Buffered U) (hself : U n.selfUpdate) {m : Sending}
    (hm : ∀ u ∈ m.held, U u) {more : Node → Sending → Node} {done : Node → Node}
    (hmore : ∀ n' m', n'.Held U → (∀ u ∈ m'.held, U u) → (more n' m').Held U)
    (hdone : ∀ n', n'.Held U → (done n').Held U) :
    (match n.sendStep m with
      | (n', some m') => more n' m'
      | (n', none) => done n').Held U := by
  obtain ⟨hn, hheld⟩ := h.sendStep hbuffer hself hm
  refine sendStep_elim (fun n' m' hr => ?_) fun n' hr => ?_ <;> rw [hr] at hn hheld
  · exact hmore n' m' hn (hheld m' rfl)
  · exact hdone n' hn

theorem senderStep (h : n.Held U) (hbuffer : n.Buffered U)
    (hself : U n.selfUpdate) (hs : n.senderStep c = some n') : n'.Held U := by
  cases senderStep_move hs with
  | goto seqs hpc => exact (h.eraseAcks seqs).idleSender (SenderPc.held_of_none hpc.1)
  | pick _ hpc => exact h.idleSender (SenderPc.held_of_none hpc)
  | probe _ hpc =>
    refine h.register.withAddress fun a => h.register.idleSender ?_
    rw [SenderPc.held_of_some (hpc a)]
    rfl
  | send hm hmore _ _ hdone =>
    refine h.sending hbuffer hself ?_ (fun n' m' hn hm' => hn.withSender ?_)
      fun n' hn => hn.idleSender (SenderPc.held_of_none hdone.1)
    · rw [← SenderPc.held_of_some hm]
      exact h.sender
    · rw [SenderPc.held_of_some (hmore m')]
      exact hm'
  | suspect => exact { h with sender := by intro u hu; cases hu }
  | expire => exact { h with sender := by intro u hu; cases hu }

theorem receiverStep (h : n.Held U) (hbuffer : n.Buffered U)
    (hself : U n.selfUpdate) (hs : n.receiverStep = some n') : n'.Held U := by
  have hheld := h.receiver
  cases receiverStep_move hs with
  | receive hpc hsock =>
    have hd := h.socket
    rw [hsock] at hd
    exact { h with
      socket := fun d' hd' => hd d' (List.mem_cons_of_mem _ hd')
      receiver := hd _ List.mem_cons_self }
  | toRefute hpc | toApply hpc | refute hpc =>
    rw [hpc] at hheld
    exact { h with receiver := hheld }
  | apply hpc =>
    rw [hpc] at hheld
    exact { h with receiver := fun v hv => hheld v (List.mem_cons_of_mem _ hv) }
  | handled | ping | unknown | pingReq | ack | waiting | answered | timedOut | relayForget =>
    exact { h with receiver := by intro u hu; cases hu }
  | relayProbe => exact h.register.withAddress fun a => h.register.idleReceiver rfl
  | ackPing hpc | relayPing hpc | relayAck hpc =>
    rw [hpc] at hheld
    exact h.sending hbuffer hself hheld (fun _ _ hn hm' => hn.withReceiver hm')
      fun _ hn => hn.idleReceiver rfl

/-- **Sources of updates.** A node that is not leaving holds and sends what arrives, what is in its
buffer, and its own update. -/
theorem step (h : n.Held U) (hbuffer : n.Buffered U)
    (hself : U n.selfUpdate) (harrive : ∀ msg src, a = .arrive msg src → ∀ u ∈ msg.updates, U u)
    (hleave : a ≠ .leaver) (hs : n.step a = some n') : n'.Held U := by
  cases step_move hs with
  | tick | setMyLoad | joinCluster => exact { h with }
  | arrive msg src =>
    refine { h with socket := ?_ }
    intro d hd
    rcases List.mem_append.mp hd with hd | hd
    · exact h.socket d hd
    · rw [List.mem_singleton.mp hd]
      exact harrive msg src rfl
  | sender _ hs => exact h.senderStep hbuffer hself hs
  | receiver _ hs => exact h.receiverStep hbuffer hself hs
  | leaver => exact absurd rfl hleave

end Held

end Node

end LlmGateway.Gossip
