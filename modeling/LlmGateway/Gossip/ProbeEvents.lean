import LlmGateway.Gossip.SequenceNumbers

/-!
# What an answer rests on

The two sides of a probe, at one node.

1. `Event`: what a receiver thread does that an ACK may rest on. `Genuine`: every ACK a node sends
   repeats the number of a `PING` it has handled, or of a `PING_REQ` whose own probe was acknowledged,
   and goes back to where that came from (`Genuine.step`).
2. An entry of `pending_acks_` becomes true only through an ACK with its number (`step_isAcked`).
3. `ProbesSent`: what the sender thread waits for has been sent to the peer of the round, or to a
   proxy on its behalf; `senderStep_round`: how the round ends.
-/

namespace LlmGateway.Gossip

open Transition

/-- What the receiver thread does that an ACK may rest on. -/
inductive Event
  /-- `HandleMessage` dispatches on the message. -/
  | handles (msg : GossipMessage) (src : Address)
  /-- `HandlePingReq` draws `probeSeq` for its own ping, to the address it has for the target. -/
  | probesFor (msg : GossipMessage) (src : Address) (target : MemberInfo) (probeSeq : ℕ)
  /-- `HandlePingReq` finds its own ping acknowledged. -/
  | probeAcked (msg : GossipMessage) (src : Address) (probeSeq : ℕ)
  deriving DecidableEq

/-- The message that is being handled, and where it came from. -/
def Event.origin : Event → GossipMessage × Address
  | .handles msg src => (msg, src)
  | .probesFor msg src _ _ => (msg, src)
  | .probeAcked msg src _ => (msg, src)

/-- The message the receiver thread is handling, and where it came from. -/
def ReceiverPc.message : ReceiverPc → Option (GossipMessage × Address)
  | .updates msg src _ => some (msg, src)
  | .refute msg src _ _ => some (msg, src)
  | .apply msg src _ _ => some (msg, src)
  | .dispatch msg src => some (msg, src)
  | .relayProbe msg src _ => some (msg, src)
  | .relayPing msg src _ _ => some (msg, src)
  | .relayWait msg src _ _ => some (msg, src)
  | _ => none

/-- A probe has been answered, as far as the events `J` of the node that received it go: the `PING`
has been handled, or the own ping for the `PING_REQ` has been acknowledged. -/
def ProbeAnswered (J : Event → Prop) (msg : GossipMessage) (src : Address) : Prop :=
  msg.type = .ping ∧ J (.handles msg src) ∨
    msg.type = .pingReq ∧ ∃ target probeSeq, J (.probesFor msg src target probeSeq) ∧
      J (.probeAcked msg src probeSeq)

/-- An ACK to `dest` with the number `seq` answers a probe from there. -/
def AckJustified (J : Event → Prop) (dest : Address) (seq : ℕ) : Prop :=
  ∃ msg : GossipMessage, msg.sequenceNum = seq ∧ ProbeAnswered J msg dest

/-- What the receiver thread is about to send or to wait for rests on the events so far. -/
def ReceiverPc.Justified (J : Event → Prop) : ReceiverPc → Prop
  | .ackPing m => AckJustified J m.outgoing.dest m.outgoing.seqNum
  | .relayProbe msg _ _ => msg.type = .pingReq
  | .relayPing msg src probeSeq m =>
    msg.type = .pingReq ∧ m.outgoing.type = .ping ∧ ∃ target, J (.probesFor msg src target probeSeq)
  | .relayWait msg src probeSeq _ =>
    msg.type = .pingReq ∧ ∃ target, J (.probesFor msg src target probeSeq)
  | .relayAck _ m => AckJustified J m.outgoing.dest m.outgoing.seqNum
  | _ => True

section

variable {J J' : Event → Prop} {msg : GossipMessage} {src : Address} {seq : ℕ}

theorem ProbeAnswered.mono (h : ProbeAnswered J msg src) (hJ : ∀ ev, J ev → J' ev) :
    ProbeAnswered J' msg src := by
  rcases h with ⟨htype, h⟩ | ⟨htype, target, probeSeq, hprobe, hacked⟩
  · exact Or.inl ⟨htype, hJ _ h⟩
  · exact Or.inr ⟨htype, target, probeSeq, hJ _ hprobe, hJ _ hacked⟩

theorem ProbeAnswered.event (h : ProbeAnswered J msg src) :
    msg.type ≠ .ack ∧ ∃ ev, J ev ∧ ev.origin = (msg, src) := by
  rcases h with ⟨htype, h⟩ | ⟨htype, target, probeSeq, h, -⟩
  · exact ⟨by rw [htype]; decide, _, h, rfl⟩
  · exact ⟨by rw [htype]; decide, _, h, rfl⟩

theorem AckJustified.mono (h : AckJustified J src seq) (hJ : ∀ ev, J ev → J' ev) :
    AckJustified J' src seq := by
  obtain ⟨msg, hseq, h⟩ := h
  exact ⟨msg, hseq, h.mono hJ⟩

theorem ReceiverPc.Justified.mono {pc : ReceiverPc} (h : pc.Justified J)
    (hJ : ∀ ev, J ev → J' ev) : pc.Justified J' := by
  cases pc with
  | ackPing m => exact AckJustified.mono h hJ
  | relayProbe msg src target => exact h
  | relayPing msg src probeSeq m =>
    obtain ⟨htype, hping, target, h⟩ := h
    exact ⟨htype, hping, target, hJ _ h⟩
  | relayWait msg src probeSeq w =>
    obtain ⟨htype, target, h⟩ := h
    exact ⟨htype, target, hJ _ h⟩
  | relayAck probeSeq m => exact AckJustified.mono h hJ
  | _ => trivial

end

namespace Node

variable {n n' : Node} {a : Act} {c : Choice} {W W' : GossipMessage → Address → Prop}
  {J J' : Event → Prop} {s : ℕ}

/-- What the next step of the receiver thread does. -/
def event (n : Node) : Option Event :=
  match n.receiver with
  | .dispatch msg src => some (.handles msg src)
  | .relayProbe msg src target => some (.probesFor msg src target n.nextSeqNum)
  | .relayWait msg src probeSeq (.blocked _) =>
    if n.isAcked probeSeq then some (.probeAcked msg src probeSeq) else none
  | _ => none

theorem event_message {ev : Event} (h : n.event = some ev) : n.receiver.message = some ev.origin := by
  unfold event at h
  cases hpc : n.receiver <;> rw [hpc] at h
  case dispatch => cases h; rfl
  case relayProbe => cases h; rfl
  case relayWait msg src probeSeq w =>
    cases w with
    | enter => cases h
    | blocked deadline =>
      dsimp only at h
      split_ifs at h
      cases h
      rfl
  all_goals cases h

/-- Everything the node has received satisfies `W`, and every ACK it sends rests on the events
`J`. -/
structure Genuine (W : GossipMessage → Address → Prop) (J : Event → Prop) (n : Node) : Prop where
  socket : ∀ p ∈ n.socket, W p.1 p.2
  message : ∀ p ∈ n.receiver.message, W p.1 p.2
  justified : n.receiver.Justified J
  probes : ∀ m, n.sender.sending = some m → m.type ≠ .ack
  acks : ∀ d ∈ n.sent, d.msg.type = .ack → AckJustified J d.dest d.msg.sequenceNum

theorem create_genuine (myId myAddress : String) (config : SwimConfig) :
    (create myId myAddress config).Genuine W J where
  socket := by intro p hp; cases hp
  message := by intro p hp; cases hp
  justified := trivial
  probes := by intro m hm; cases hm
  acks := by intro d hd; cases hd

theorem Genuine.mono (h : n.Genuine W J) (hW : ∀ msg src, W msg src → W' msg src)
    (hJ : ∀ ev, J ev → J' ev) : n.Genuine W' J' where
  socket p hp := hW _ _ (h.socket p hp)
  message p hp := hW _ _ (h.message p hp)
  justified := h.justified.mono hJ
  probes := h.probes
  acks d hd htype := (h.acks d hd htype).mono hJ

theorem Genuine.outside (h : n.Genuine W J) (hspec : StepSpec n a n') (ha : a ≠ .receiver)
    (hsocket : n'.socket = n.socket) : n'.Genuine W J where
  socket := hsocket ▸ h.socket
  message := hspec.receiver ha ▸ h.message
  justified := hspec.receiver ha ▸ h.justified
  probes m hm := by
    rcases hspec.sending m hm with hne | ⟨m₀, hm₀, ht⟩
    · exact hne
    · rw [ht]
      exact h.probes m₀ hm₀
  acks d hd htype := by
    rcases hspec.sent ha with heq | ⟨d', heq, hd'⟩ <;> rw [heq] at hd
    · exact h.acks d hd htype
    · rcases List.mem_append.mp hd with hd | hd
      · exact h.acks d hd htype
      · rw [List.mem_singleton.mp hd] at htype
        rcases hd' with hping | ⟨m, hm, heq⟩
        · rw [hping] at htype
          cases htype
        · exact absurd (heq.symm.trans htype) (h.probes m hm)

theorem Genuine.goto (h : n.Genuine W J) {pc : ReceiverPc} (hsender : n'.sender = n.sender)
    (hsent : n'.sent = n.sent) (hsocket : ∀ p ∈ n'.socket, p ∈ n.socket) (hpc : n'.receiver = pc)
    (hmessage : ∀ p ∈ pc.message, W p.1 p.2) (hjustified : pc.Justified J) :
    n'.Genuine W J where
  socket p hp := h.socket p (hsocket p hp)
  message := hpc ▸ hmessage
  justified := hpc ▸ hjustified
  probes := hsender ▸ h.probes
  acks := hsent ▸ h.acks

theorem Genuine.send (h : n.Genuine W J) {m : Sending} {more : Sending → ReceiverPc}
    {done : ReceiverPc}
    (hack : m.outgoing.type = .ack → AckJustified J m.outgoing.dest m.outgoing.seqNum)
    (hmore : ∀ m', m'.outgoing = m.outgoing →
      (∀ p ∈ (more m').message, W p.1 p.2) ∧ (more m').Justified J)
    (hdone : (∀ p ∈ done.message, W p.1 p.2) ∧ done.Justified J) :
    (match n.sendStep m with
      | (n', some m') => { n' with receiver := more m' }
      | (n', none) => { n' with receiver := done } : Node).Genuine W J := by
  cases m with
  | collect o =>
    rcases n.sendStep_collect o with hr | ⟨k, hr⟩ <;> rw [hr]
    · exact h.goto rfl rfl (fun _ hp => hp) rfl hdone.1 hdone.2
    · obtain ⟨hmessage, hjustified⟩ := hmore (.transmit o (n.list.takeUpdates k).1) rfl
      exact h.goto rfl rfl (fun _ hp => hp) rfl hmessage hjustified
  | transmit o updates =>
    refine ⟨h.socket, hdone.1, hdone.2, h.probes, ?_⟩
    intro d hd htype
    rcases List.mem_append.mp hd with hd | hd
    · exact h.acks d hd htype
    · rw [List.mem_singleton.mp hd] at htype ⊢
      exact hack htype

/-- An ACK that is to be sent stays justified while it is sent. -/
theorem Genuine.sendAck (h : n.Genuine W J) {m : Sending} {more : Sending → ReceiverPc}
    {done : ReceiverPc} (hjustified : AckJustified J m.outgoing.dest m.outgoing.seqNum)
    (hmore : ∀ m', (more m').message = none ∧
      ((more m').Justified J ↔ AckJustified J m'.outgoing.dest m'.outgoing.seqNum))
    (hdone : done.message = none ∧ done.Justified J) :
    (match n.sendStep m with
      | (n', some m') => { n' with receiver := more m' }
      | (n', none) => { n' with receiver := done } : Node).Genuine W J := by
  refine h.send (fun _ => hjustified) (fun m' hm' => ⟨?_, (hmore m').2.mpr (hm' ▸ hjustified)⟩)
    ⟨?_, hdone.2⟩
  · intro p hp
    rw [(hmore m').1] at hp
    cases hp
  · intro p hp
    rw [hdone.1] at hp
    cases hp

/-- **One step of the receiver thread.** -/
theorem Genuine.receiverStep (h : n.Genuine W J) (hev : ∀ ev, n.event = some ev → J ev)
    (hs : n.receiverStep = some n') : n'.Genuine W J := by
  have hmessage := h.message
  have hjustified := h.justified
  unfold Node.event at hev
  -- a program counter without a message and without an ACK
  have hrest : ∀ {m : Node} {pc : ReceiverPc}, m.sender = n.sender → m.sent = n.sent →
      m.socket = n.socket → m.receiver = pc → pc.message = none → pc.Justified J →
      m.Genuine W J := by
    intro m pc hsender hsent hsocket hpc hnone hj
    refine h.goto hsender hsent (fun p hp => hsocket ▸ hp) hpc (fun p hp => ?_) hj
    rw [hnone] at hp
    cases hp
  cases receiverStep_move hs with
  | receive hpc hsock =>
    have hp := h.socket _ (by rw [hsock]; exact List.mem_cons_self)
    refine h.goto rfl rfl (fun q hq => ?_) rfl ?_ trivial
    · rw [hsock]
      exact List.mem_cons_of_mem _ hq
    · rintro q ⟨⟩
      exact hp
  | handled hpc | toRefute hpc | toApply hpc | refute hpc | apply hpc =>
    rw [hpc] at hmessage
    exact h.goto rfl rfl (fun _ hp => hp) rfl hmessage trivial
  | @ping msg src hpc htype =>
    rw [hpc] at hev
    exact hrest rfl rfl rfl rfl rfl ⟨msg, rfl, Or.inl ⟨htype, hev _ rfl⟩⟩
  | unknown | ack | timedOut | relayForget => exact hrest rfl rfl rfl rfl rfl trivial
  | pingReq hpc htype =>
    rw [hpc] at hmessage
    exact h.goto rfl rfl (fun _ hp => hp) rfl hmessage htype
  | ackPing hpc | relayAck hpc =>
    rw [hpc] at hjustified
    exact h.sendAck hjustified (fun _ => ⟨rfl, Iff.rfl⟩) ⟨rfl, trivial⟩
  | @relayProbe msg src target hpc =>
    rw [hpc] at hmessage hjustified hev
    unfold Node.withAddress
    cases parseAddress target.address with
    | ok dest =>
      exact h.goto rfl rfl (fun _ hp => hp) rfl hmessage ⟨hjustified, rfl, target, hev _ rfl⟩
    | error _ => exact h.goto rfl rfl (fun _ hp => hp) rfl h.message h.justified
  | relayPing hpc =>
    rw [hpc] at hmessage hjustified
    obtain ⟨htype, hping, hprobe⟩ := hjustified
    refine h.send (fun hack => ?_) (fun m' hm' => ⟨hmessage, htype, ?_, hprobe⟩)
      ⟨hmessage, htype, hprobe⟩
    · rw [hping] at hack
      cases hack
    · rw [hm']
      exact hping
  | waiting hpc =>
    rw [hpc] at hmessage hjustified
    exact h.goto rfl rfl (fun _ hp => hp) rfl hmessage hjustified
  | @answered msg src probeSeq w hpc hr =>
    rw [hpc] at hjustified hev
    obtain ⟨htype, target, hprobe⟩ := hjustified
    refine hrest rfl rfl rfl rfl rfl ⟨msg, rfl, Or.inr ⟨htype, target, probeSeq, hprobe, ?_⟩⟩
    -- the wait has ended because the ACK was there
    cases w with
    | enter => cases hr
    | blocked deadline =>
      refine hev _ (if_pos ?_)
      unfold Node.waitStep at hr
      dsimp only at hr
      split_ifs at hr with hready
      · exact hready
      · cases hr

/-- **One step of a node.** What it sends as an ACK stays justified. -/
theorem Genuine.step (h : n.Genuine W J)
    (harrive : ∀ msg src, a = .arrive msg src → W msg src)
    (hev : a = .receiver → ∀ ev, n.event = some ev → J ev) (hs : n.step a = some n') :
    n'.Genuine W J := by
  have hspec := step_spec hs
  cases step_move hs with
  | tick | setMyLoad | joinCluster => exact h.outside hspec nofun rfl
  | arrive msg src =>
    refine { h with socket := ?_ }
    intro p hp
    rcases List.mem_append.mp hp with hp | hp
    · exact h.socket p hp
    · rw [List.mem_singleton.mp hp]
      exact harrive msg src rfl
  | sender _ hs => exact h.outside hspec nofun (senderStep_spec hs).socket
  | receiver _ hs => exact h.receiverStep (hev rfl) hs
  | leaver _ hs =>
    refine h.outside hspec nofun ?_
    cases leaverStep_move hs with
    | snapshot | readIncarnation | done => rfl
    | announce =>
      unfold Node.withAddress
      split <;> rfl

/-! ## What the steps keep -/

theorem isAcked_recordAck {seq : ℕ} (h : (n.recordAck seq).isAcked s) : n.isAcked s ∨ s = seq := by
  by_cases hs : s = seq
  · exact Or.inr hs
  · refine Or.inl ?_
    unfold recordAck at h
    cases hl : n.pendingAcks.lookup seq with
    | none => rwa [hl] at h
    | some b =>
      rw [hl] at h
      unfold isAcked at h ⊢
      dsimp only at h
      rwa [AList.lookup_insert_ne hs] at h

/-- Only an ACK with the number makes an entry of `pending_acks_` true. -/
theorem receiverStep_isAcked (hs : n.receiverStep = some n') (h : n'.isAcked s) :
    n.isAcked s ∨ ∃ msg src, n.receiver = .dispatch msg src ∧ msg.type = .ack ∧
      msg.sequenceNum = s := by
  have hsend : ∀ {m : Sending} {more : Sending → ReceiverPc} {done : ReceiverPc},
      (match n.sendStep m with
        | (n', some m') => { n' with receiver := more m' }
        | (n', none) => { n' with receiver := done } : Node).isAcked s → n.isAcked s := by
    intro m more done
    have hacks := (n.sendStep_spec m).1.pendingAcks
    unfold isAcked
    rw [← hacks]
    cases n.sendStep m with
    | mk n' r => cases r <;> exact id
  cases receiverStep_move hs with
  | @ack msg src hpc htype =>
    rcases isAcked_recordAck (n := n) h with h | rfl
    · exact Or.inl h
    · exact Or.inr ⟨msg, src, hpc, htype, rfl⟩
  | relayProbe =>
    unfold Node.withAddress at h
    split at h <;> exact Or.inl (isAcked_of_register h)
  | @relayForget probeSeq =>
    have h : (n.eraseAcks [probeSeq]).isAcked s := h
    exact Or.inl (isAcked_of_eraseAcks h)
  | ackPing | relayPing | relayAck => exact Or.inl (hsend h)
  | receive | handled | toRefute | toApply | refute | apply | ping | unknown | pingReq | waiting
  | answered | timedOut => exact Or.inl h

theorem step_isAcked (hs : n.step a = some n') (h : n'.isAcked s) :
    n.isAcked s ∨ a = .receiver ∧ ∃ msg src, n.receiver = .dispatch msg src ∧ msg.type = .ack ∧
      msg.sequenceNum = s := by
  by_cases ha : a = .receiver
  · subst ha
    rcases receiverStep_isAcked (receiverStep_of_step hs) h with h | h
    · exact Or.inl h
    · exact Or.inr ⟨rfl, h⟩
  · exact Or.inl ((step_spec hs).acked ha s h)

end Node

/-! ## The probes of a ping round -/

/-- The direct probe of `peer` under the number `seq`. -/
def DirectProbe (peer : Peer) (seq : ℕ) (d : Datagram) : Prop :=
  d.msg.type = .ping ∧ d.msg.sequenceNum = seq ∧ parseAddress peer.2.address = .ok d.dest

/-- The request to a proxy to probe `peer`, under the number `seq`. -/
def IndirectProbe (peer : Peer) (seq : ℕ) (d : Datagram) : Prop :=
  d.msg.type = .pingReq ∧ d.msg.sequenceNum = seq ∧ d.msg.targetId = peer.1

/-- What the sender thread waits for has been sent, in this round. -/
def SenderPc.Probes (sent : List Datagram) : SenderPc → Prop
  | .ping peer seq m =>
    ∃ dest, parseAddress peer.2.address = .ok dest ∧ m.outgoing = ⟨dest, .ping, "", seq⟩
  | .awaitAck peer seq _ => ∃ d ∈ sent, DirectProbe peer seq d
  | .pickProxy peer _ r => ∀ t ∈ r.seqs, ∃ d ∈ sent, IndirectProbe peer t d
  | .probeProxy peer _ r _ => ∀ t ∈ r.seqs, ∃ d ∈ sent, IndirectProbe peer t d
  | .pingReq peer _ r m => ∃ seqs t dest, r.seqs = seqs ++ [t] ∧
    m.outgoing = ⟨dest, .pingReq, peer.1, t⟩ ∧ ∀ t ∈ seqs, ∃ d ∈ sent, IndirectProbe peer t d
  | .awaitIndirect peer _ r _ => ∀ t ∈ r.seqs, ∃ d ∈ sent, IndirectProbe peer t d
  | _ => True

/-- A round that has found an answer and is about to return. -/
def SenderPc.decided : SenderPc → Bool
  | .acked _ => true
  | .forget _ _ gotIndirectAck => gotIndirectAck
  | _ => false

theorem SenderPc.undecided {pc : SenderPc} (h : pc.inPingRound = false) : pc.decided = false := by
  cases pc <;> first | rfl | cases h

theorem SenderPc.probes_of_not_inPingRound {sent : List Datagram} {pc : SenderPc}
    (h : pc.inPingRound = false) : pc.Probes sent := by
  cases pc <;> trivial

theorem SenderPc.Probes.mono {sent sent' : List Datagram} {pc : SenderPc} (h : pc.Probes sent)
    (hsent : sent <+: sent') : pc.Probes sent' := by
  have hmem : ∀ {P : Datagram → Prop}, (∃ d ∈ sent, P d) → ∃ d ∈ sent', P d := by
    rintro P ⟨d, hd, hP⟩
    exact ⟨d, hsent.subset hd, hP⟩
  cases pc with
  | ping peer seq m => exact h
  | awaitAck peer seq w => exact hmem h
  | pickProxy peer seq r => exact fun t ht => hmem (h t ht)
  | probeProxy peer seq r proxy => exact fun t ht => hmem (h t ht)
  | pingReq peer seq r m =>
    obtain ⟨seqs, t, dest, hseqs, hm, h⟩ := h
    exact ⟨seqs, t, dest, hseqs, hm, fun t ht => hmem (h t ht)⟩
  | awaitIndirect peer seq r w => exact fun t ht => hmem (h t ht)
  | _ => trivial

namespace Node

variable {n n' : Node} {a : Act} {c : Choice}

/-- While the process runs, what its sender thread waits for has been sent. -/
def ProbesSent (n : Node) : Prop := n.crashed = false → n.sender.Probes n.sent

theorem afterLoop_probes {sent : List Datagram} {peer : Peer} {seq : ℕ} {r : Indirect}
    (h : ∀ t ∈ r.seqs, ∃ d ∈ sent, IndirectProbe peer t d) :
    (r.afterLoop peer seq).Probes sent := by
  unfold Indirect.afterLoop
  split_ifs
  · trivial
  · exact h

/-- A `SendMessage` step of the sender thread raises an exception, goes on with the same arguments,
or has sent them. -/
theorem sendStep_probes (n : Node) (m : Sending) {more : Sending → SenderPc} {done : SenderPc}
    (hmore : ∀ m', m'.outgoing = m.outgoing → (more m').Probes n.sent)
    (hdone : ∀ d : Datagram, d.dest = m.outgoing.dest → d.msg.type = m.outgoing.type →
      d.msg.targetId = m.outgoing.targetId → d.msg.sequenceNum = m.outgoing.seqNum →
      done.Probes (n.sent ++ [d])) :
    (match n.sendStep m with
      | (n', some m') => { n' with sender := more m' }
      | (n', none) => { n' with sender := done } : Node).ProbesSent := by
  cases m with
  | collect o =>
    rcases n.sendStep_collect o with hr | ⟨k, hr⟩ <;> rw [hr]
    · intro hcrash
      cases hcrash
    · exact fun _ => hmore (.transmit o (n.list.takeUpdates k).1) rfl
  | transmit o updates => exact fun _ => hdone _ rfl rfl rfl rfl

theorem senderStep_probesSent (h : n.sender.Probes n.sent) (hs : n.senderStep c = some n') :
    n'.ProbesSent := by
  unfold Node.senderStep at hs
  cases hpc : n.sender <;> rw [hpc] at hs h <;> dsimp only [Node.pingRoundStep] at hs
  case round =>
    obtain ⟨r, -, rfl⟩ := Option.map_eq_some_iff.mp hs
    cases r <;> exact fun _ => trivial
  case probe peer =>
    cases hs
    unfold Node.withAddress
    cases hparse : parseAddress peer.2.address with
    | ok dest => exact fun _ => ⟨dest, hparse, rfl⟩
    | error _ => intro hcrash; cases hcrash
  case ping peer seq m =>
    cases hs
    obtain ⟨dest, hparse, hm⟩ := h
    refine n.sendStep_probes m (fun m' hm' => ⟨dest, hparse, hm'.trans hm⟩) ?_
    intro d hdest htype _ hseq
    rw [hm] at hdest htype hseq
    exact ⟨d, by simp, htype, hseq, by rw [hparse, hdest]⟩
  case awaitAck peer seq w =>
    obtain ⟨r, -, rfl⟩ := Option.map_eq_some_iff.mp hs
    rcases r with (_ | _) | w'
    · exact fun _ t ht => by cases ht
    · exact fun _ => trivial
    · exact fun _ => h
  case acked => cases hs; exact fun _ => trivial
  case pickProxy peer seq r =>
    split_ifs at hs
    · obtain ⟨p, -, rfl⟩ := Option.map_eq_some_iff.mp hs
      cases p with
      | none => exact fun _ => afterLoop_probes h
      | some proxy => exact fun _ => h
    · cases hs
      exact fun _ => afterLoop_probes h
  case probeProxy peer seq r proxy =>
    cases hs
    unfold Node.withAddress
    cases parseAddress proxy.2.address with
    | ok dest => exact fun _ => ⟨r.seqs, n.nextSeqNum, dest, rfl, rfl, h⟩
    | error _ => intro hcrash; cases hcrash
  case pingReq peer seq r m =>
    cases hs
    obtain ⟨seqs, t, dest, hseqs, hm, hsent⟩ := h
    refine n.sendStep_probes m (fun m' hm' => ⟨seqs, t, dest, hseqs, hm'.trans hm, hsent⟩) ?_
    intro d _ htype htarget hseq t' ht'
    rw [hm] at htype htarget hseq
    rw [hseqs] at ht'
    rcases List.mem_append.mp ht' with ht' | ht'
    · obtain ⟨d', hd', hprobe⟩ := hsent t' ht'
      exact ⟨d', List.mem_append_left _ hd', hprobe⟩
    · rw [List.mem_singleton.mp ht']
      exact ⟨d, by simp, htype, hseq, htarget⟩
  case awaitIndirect peer seq r w =>
    obtain ⟨p, -, rfl⟩ := Option.map_eq_some_iff.mp hs
    cases p with
    | inl got => exact fun _ => trivial
    | inr w' => exact fun _ => h
  case forget peer seq got =>
    cases hs
    intro _
    dsimp only
    split_ifs <;> trivial
  case suspect => cases hs; exact fun _ => trivial
  case timeouts | readClock | expire =>
    obtain ⟨-, L, pc, rfl, hpc'⟩ := suspectTimeoutsStep_eq hs
    exact fun _ => SenderPc.probes_of_not_inPingRound hpc'

/-- The wait of the sender thread is over because an ACK is there. -/
def FindsAck (n : Node) : Prop :=
  (∃ peer seq w, n.sender = .awaitAck peer seq w ∧ n.isAcked seq) ∨
    ∃ peer seq r w, n.sender = .awaitIndirect peer seq r w ∧ ∃ t ∈ r.seqs, n.isAcked t

theorem ready_of_waitStep {ready : Bool} {w : Wait} (hw : n.waitStep ready w = some (.inl true)) :
    ready = true := by
  cases ready with
  | true => rfl
  | false => exact absurd hw (n.waitStep_false w)

theorem afterLoop_inPingRound (r : Indirect) (peer : Peer) (seq : ℕ) :
    (r.afterLoop peer seq).inPingRound = true ∧ (r.afterLoop peer seq).decided = false := by
  unfold Indirect.afterLoop
  split_ifs <;> exact ⟨rfl, rfl⟩

theorem register_inPingRound {s : String} {pc : Address → SenderPc}
    (hold : n.sender.inPingRound = true ∧ n.sender.decided = false)
    (hnew : ∀ dest, (pc dest).inPingRound = true ∧ (pc dest).decided = false) :
    let n' := n.register.withAddress s fun dest => { n.register with sender := pc dest }
    n'.sender.inPingRound = true ∧ n'.sender.decided = false := by
  unfold Node.withAddress
  cases parseAddress s with
  | ok dest => exact hnew dest
  | error _ => exact hold

theorem sendStep_inPingRound (n : Node) (m : Sending) {more : Sending → SenderPc} {done : SenderPc}
    (hmore : ∀ m, (more m).inPingRound = true ∧ (more m).decided = false)
    (hdone : done.inPingRound = true ∧ done.decided = false) :
    let n' : Node := match n.sendStep m with
      | (n', some m') => { n' with sender := more m' }
      | (n', none) => { n' with sender := done }
    n'.sender.inPingRound = true ∧ n'.sender.decided = false := by
  cases n.sendStep m with
  | mk n' r =>
    cases r with
    | none => exact hdone
    | some m' => exact hmore m'

/-- **How a ping round ends.** It comes to an answer only from a wait that has found one, and it
returns from there or by `MarkSuspect`. -/
theorem senderStep_round (hs : n.senderStep c = some n') :
    (n'.sender.decided → n.FindsAck) ∧ (n.sender.inPingRound → n'.sender.inPingRound ∨
      n.sender.decided ∨ ∃ peer, n.sender = .suspect peer) := by
  have hstay : n'.sender.inPingRound = true ∧ n'.sender.decided = false →
      (n'.sender.decided → n.FindsAck) ∧ (n.sender.inPingRound → n'.sender.inPingRound ∨
        n.sender.decided ∨ ∃ peer, n.sender = .suspect peer) := by
    rintro ⟨hin, hundecided⟩
    refine ⟨fun h => ?_, fun _ => Or.inl hin⟩
    rw [hundecided] at h
    cases h
  unfold Node.senderStep at hs
  cases hpc : n.sender <;> rw [hpc] at hs hstay <;> dsimp only [Node.pingRoundStep] at hs
  case round =>
    obtain ⟨r, -, rfl⟩ := Option.map_eq_some_iff.mp hs
    refine ⟨?_, nofun⟩
    cases r <;> exact nofun
  case probe peer =>
    cases hs
    exact hstay (register_inPingRound (by rw [hpc]; exact ⟨rfl, rfl⟩) fun _ => ⟨rfl, rfl⟩)
  case ping peer seq m =>
    cases hs
    exact hstay (n.sendStep_inPingRound m (fun _ => ⟨rfl, rfl⟩) ⟨rfl, rfl⟩)
  case awaitAck peer seq w =>
    obtain ⟨r, hr, rfl⟩ := Option.map_eq_some_iff.mp hs
    rcases r with (_ | _) | w'
    · exact hstay ⟨rfl, rfl⟩
    · exact ⟨fun _ => Or.inl ⟨peer, seq, w, hpc, ready_of_waitStep hr⟩, fun _ => Or.inl rfl⟩
    · exact hstay ⟨rfl, rfl⟩
  case acked =>
    cases hs
    exact ⟨nofun, fun _ => Or.inr (Or.inl rfl)⟩
  case pickProxy peer seq r =>
    split_ifs at hs
    · obtain ⟨p, -, rfl⟩ := Option.map_eq_some_iff.mp hs
      cases p with
      | none => exact hstay (afterLoop_inPingRound r peer seq)
      | some proxy => exact hstay ⟨rfl, rfl⟩
    · cases hs
      exact hstay (afterLoop_inPingRound r peer seq)
  case probeProxy peer seq r proxy =>
    cases hs
    exact hstay (register_inPingRound (by rw [hpc]; exact ⟨rfl, rfl⟩) fun _ => ⟨rfl, rfl⟩)
  case pingReq peer seq r m =>
    cases hs
    exact hstay (n.sendStep_inPingRound m (fun _ => ⟨rfl, rfl⟩) ⟨rfl, rfl⟩)
  case awaitIndirect peer seq r w =>
    obtain ⟨p, hp, rfl⟩ := Option.map_eq_some_iff.mp hs
    rcases p with (_ | _) | w'
    · exact hstay ⟨rfl, rfl⟩
    · refine ⟨fun _ => Or.inr ⟨peer, seq, r, w, hpc, ?_⟩, fun _ => Or.inl rfl⟩
      exact List.any_eq_true.mp (ready_of_waitStep hp)
    · exact hstay ⟨rfl, rfl⟩
  case forget peer seq got =>
    cases hs
    cases got with
    | true => exact ⟨nofun, fun _ => Or.inr (Or.inl rfl)⟩
    | false => exact hstay ⟨rfl, rfl⟩
  case suspect peer =>
    cases hs
    exact ⟨nofun, fun _ => Or.inr (Or.inr ⟨peer, rfl⟩)⟩
  case timeouts | readClock | expire =>
    obtain ⟨-, L, pc, rfl, hpc'⟩ := suspectTimeoutsStep_eq hs
    refine ⟨fun h => ?_, nofun⟩
    have hundecided : pc.decided = false := SenderPc.undecided hpc'
    exact absurd (h : pc.decided = true) (by rw [hundecided]; exact Bool.false_ne_true)

theorem ProbesSent.step (h : n.ProbesSent) (hs : n.step a = some n') : n'.ProbesSent := by
  have hspec := step_spec hs
  have hsent := step_sent hs
  have hkeep : (n'.crashed = false → n.crashed = false) → n'.sender = n.sender →
      n'.ProbesSent := by
    intro hcrash hsender hc
    rw [hsender]
    exact (h (hcrash hc)).mono hsent
  cases step_move hs with
  | tick | setMyLoad | arrive | joinCluster => exact hkeep id rfl
  | sender hc hs => exact senderStep_probesSent (h hc) hs
  | receiver hc | leaver hc => exact hkeep (fun _ => hc) (hspec.sender nofun)

end Node

end LlmGateway.Gossip
