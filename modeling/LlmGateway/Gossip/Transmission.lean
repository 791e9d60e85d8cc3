import LlmGateway.Gossip.LoadReports
import LlmGateway.Gossip.OwnAddress
import LlmGateway.Gossip.ProbeEvents
import LlmGateway.Gossip.UsableAddress
import LlmGateway.Gossip.WireFormat

/-!
# What the messages of a node are made of

The numbers in a message are a sequence number, incarnations and loads, its texts are ids, addresses
and model versions. All of them come from the node itself, from what it is told and from messages
that arrive. `Transmits T` says that the numbers fit into their types and that the texts satisfy
`T`, in all the node holds and sends, and that no message has more updates than
`max_piggyback_updates` and one.
-/

namespace LlmGateway.Gossip

open Transition MembershipList

variable {T : String → Prop}

/-! ## Updates -/

theorem inRange_inherited (hT : T "") : Inherited (MembershipUpdate.InRange T) where
  fresh u hu := ⟨hu.memberId, hT, hT, by simp [MemberInfo.toUpdate], by simp [MemberInfo.toUpdate],
    by simp [MemberInfo.toUpdate]⟩
  overwrite e now u he hu := by
    refine ⟨hu.memberId, hu.address, ?_, hu.incarnation, ?_, ?_⟩ <;>
      simp only [MemberInfo.overwrite, MemberInfo.toUpdate] <;> split_ifs
    · exact hu.modelVersion
    · exact he.modelVersion
    · exact hu.activeRequests
    · exact he.activeRequests
    · exact hu.maxCapacity
    · exact he.maxCapacity
  refreshLoad e u he hu := by
    refine ⟨he.memberId, he.address, ?_, he.incarnation, ?_, ?_⟩ <;>
      simp only [MemberInfo.refreshLoad, MemberInfo.toUpdate] <;> split_ifs
    · exact hu.modelVersion
    · exact he.modelVersion
    · exact hu.activeRequests
    · exact he.activeRequests
    · exact hu.maxCapacity
    · exact he.maxCapacity
  mark e id state suspectTime he := ⟨he.memberId, he.address, he.modelVersion, he.incarnation,
    he.activeRequests, he.maxCapacity⟩
  renew e id k he := ⟨he.memberId, he.address, he.modelVersion, Nat.mod_lt _ (by decide),
    he.activeRequests, he.maxCapacity⟩

/-! ## Headers -/

/-- The receiver can answer a message, and take up its sender. -/
structure Readable (T : String → Prop) (d : GossipMessage × Address) : Prop where
  senderId : T d.1.senderId
  source : T d.2.toString
  sequenceNum : d.1.sequenceNum < 2 ^ 64

/-- What a `SendMessage` call is about to send, but for the updates themselves. -/
structure Sending.Headed (T : String → Prop) (room : ℕ) (m : Sending) : Prop where
  targetId : T m.outgoing.targetId
  seqNum : m.outgoing.seqNum < 2 ^ 64
  count : m.held.length ≤ room

/-- The message, but for the updates themselves. -/
structure GossipMessage.Headed (T : String → Prop) (room : ℕ) (msg : GossipMessage) : Prop where
  senderId : T msg.senderId
  targetId : T msg.targetId
  sequenceNum : msg.sequenceNum < 2 ^ 64
  count : msg.updates.length ≤ room + 1

def SenderPc.Headed (T : String → Prop) (room : ℕ) : SenderPc → Prop
  | .probe peer => T peer.1
  | .ping peer _ m => T peer.1 ∧ m.Headed T room
  | .awaitAck peer _ _ => T peer.1
  | .pickProxy peer _ _ => T peer.1
  | .probeProxy peer _ _ _ => T peer.1
  | .pingReq peer _ _ m => T peer.1 ∧ m.Headed T room
  | _ => True

theorem SenderPc.headed_of_not_inPingRound {room : ℕ} {pc : SenderPc} (h : pc.inPingRound = false) :
    pc.Headed T room := by
  cases pc <;> trivial

structure ReceiverPc.Headed (T : String → Prop) (room : ℕ) (pc : ReceiverPc) : Prop where
  sending : ∀ m, pc.sending = some m → m.Headed T room
  message : ∀ d, pc.message = some d → Readable T d

namespace Node

variable {n n' : Node} {a : Act} {c : Choice} {m : Sending} {room : ℕ}

/-- The headers of all messages at the node are in order, and none takes more than `room` updates
from the buffer. -/
structure Headed (T : String → Prop) (room : ℕ) (n : Node) : Prop where
  config : n.config.maxPiggybackUpdates.toNat ≤ room
  nextSeqNum : n.nextSeqNum < 2 ^ 64
  sender : n.sender.Headed T room
  receiver : n.receiver.Headed T room
  socket : ∀ d ∈ n.socket, Readable T d
  sent : ∀ d ∈ n.sent, d.msg.Headed T room

theorem create_headed (myId myAddress : String) (config : SwimConfig) :
    (create myId myAddress config).Headed T config.maxPiggybackUpdates.toNat where
  config := le_refl _
  nextSeqNum := by simp [create]
  sender := trivial
  receiver := ⟨by simp [create, ReceiverPc.sending], by simp [create, ReceiverPc.message]⟩
  socket := by simp [create]
  sent := by simp [create]

namespace Headed

theorem register (h : n.Headed T room) : n.register.Headed T room :=
  { h with nextSeqNum := Nat.mod_lt _ (by decide) }

theorem withAddress (h : n.Headed T room) {s : String} {k : Address → Node}
    (hk : ∀ a, (k a).Headed T room) : (n.withAddress s k).Headed T room := by
  unfold Node.withAddress
  cases parseAddress s with
  | ok a => exact hk a
  | error _ => exact { h with }

/-- **`SendMessage`.** -/
theorem sendStep (h : n.Headed T room) (hid : T n.list.myId) (hm : m.Headed T room) :
    (n.sendStep m).1.Headed T room ∧ ∀ m', (n.sendStep m).2 = some m' → m'.Headed T room := by
  cases m with
  | collect o =>
    unfold Node.sendStep MembershipList.getUpdatesForPiggyback
    split_ifs
    · exact ⟨{ h with }, by simp⟩
    · refine ⟨{ h with }, ?_⟩
      rintro m' ⟨⟩
      refine ⟨hm.targetId, hm.seqNum, ?_⟩
      have hconfig := h.config
      simp only [Sending.held, List.length_map, List.length_take]
      omega
  | transmit o updates =>
    refine ⟨{ h with sent := ?_ }, nofun⟩
    intro d hd
    rcases List.mem_append.mp hd with hd | hd
    · exact h.sent d hd
    · rw [List.mem_singleton.mp hd]
      refine ⟨hid, hm.targetId, hm.seqNum, ?_⟩
      have hcount : updates.length ≤ room := hm.count
      simp only [List.length_append, List.length_singleton]
      omega

theorem sending (h : n.Headed T room) (hid : T n.list.myId) (hm : m.Headed T room)
    {more : Node → Sending → Node} {done : Node → Node}
    (hmore : ∀ n' m', n'.Headed T room → m'.Headed T room → (more n' m').Headed T room)
    (hdone : ∀ n', n'.Headed T room → (done n').Headed T room) :
    (match n.sendStep m with
      | (n', some m') => more n' m'
      | (n', none) => done n').Headed T room := by
  obtain ⟨hn, hheaded⟩ := h.sendStep hid hm
  refine sendStep_elim (fun n' m' hr => ?_) fun n' hr => ?_ <;> rw [hr] at hn hheaded
  · exact hmore n' m' hn (hheaded m' rfl)
  · exact hdone n' hn

theorem afterLoop (h : n.Headed T room) {r : Indirect} {peer : Peer} {seq : ℕ} :
    Headed T room { n with sender := r.afterLoop peer seq } := by
  refine { h with sender := ?_ }
  unfold Indirect.afterLoop
  split_ifs <;> trivial

/-- **A step of the sender thread.** The peer it probes is a member of its list. -/
theorem senderStep (h : n.Headed T room) (hT : T "") (hid : T n.list.myId)
    (hmembers : ∀ id e, n.list.members.lookup id = some e → T id) (hs : n.senderStep c = some n') :
    n'.Headed T room := by
  have hpick : ∀ {exclude : List String} {peer : Peer},
      n.randomAlivePeer exclude c = some (some peer) → T peer.1 := by
    intro exclude peer hr
    exact hmembers _ _ (lookup_of_mem_alivePeers (mem_of_randomAlivePeer hr))
  have hpeer := h.sender
  have hnext := h.nextSeqNum
  unfold Node.senderStep at hs
  cases hpc : n.sender <;> rw [hpc] at hs hpeer <;> dsimp only [Node.pingRoundStep] at hs
  case round =>
    obtain ⟨r, hr, rfl⟩ := Option.map_eq_some_iff.mp hs
    cases r with
    | none => exact { h with sender := trivial }
    | some peer => exact { h with sender := hpick hr }
  case probe peer =>
    cases hs
    refine h.register.withAddress fun dest => { h.register with sender := ⟨hpeer, ?_⟩ }
    exact ⟨hT, hnext, Nat.zero_le _⟩
  case ping peer seq m =>
    cases hs
    exact h.sending hid hpeer.2 (fun _ _ hn hm' => { hn with sender := ⟨hpeer.1, hm'⟩ })
      fun _ hn => { hn with sender := hpeer.1 }
  case awaitAck peer seq w =>
    obtain ⟨r, -, rfl⟩ := Option.map_eq_some_iff.mp hs
    rcases r with (_ | _) | w'
    · exact { h with sender := hpeer }
    · exact { h with sender := trivial }
    · exact { h with sender := hpeer }
  case acked =>
    cases hs
    exact { h with sender := trivial }
  case pickProxy peer seq r =>
    split_ifs at hs
    · obtain ⟨q, -, rfl⟩ := Option.map_eq_some_iff.mp hs
      cases q with
      | none => exact h.afterLoop
      | some proxy => exact { h with sender := hpeer }
    · cases hs
      exact h.afterLoop
  case probeProxy peer seq r proxy =>
    cases hs
    refine h.register.withAddress fun dest => { h.register with sender := ⟨hpeer, ?_⟩ }
    exact ⟨hpeer, hnext, Nat.zero_le _⟩
  case pingReq peer seq r m =>
    cases hs
    exact h.sending hid hpeer.2 (fun _ _ hn hm' => { hn with sender := ⟨hpeer.1, hm'⟩ })
      fun _ hn => { hn with sender := hpeer.1 }
  case awaitIndirect peer seq r w =>
    obtain ⟨q, -, rfl⟩ := Option.map_eq_some_iff.mp hs
    rcases q with got | w' <;> exact { h with sender := trivial }
  case forget peer seq got =>
    cases hs
    exact { h with sender := by dsimp only; split_ifs <;> trivial }
  case suspect =>
    cases hs
    exact { h with sender := trivial }
  case timeouts | readClock | expire =>
    obtain ⟨-, L, pc, rfl, hpc'⟩ := suspectTimeoutsStep_eq hs
    exact { h with sender := SenderPc.headed_of_not_inPingRound hpc' }

/-- **A step of the receiver thread.** An ACK repeats the number of what it answers. -/
theorem receiverStep (h : n.Headed T room) (hT : T "") (hid : T n.list.myId)
    (hs : n.receiverStep = some n') : n'.Headed T room := by
  have hmessage := h.receiver.message
  have hsending := h.receiver.sending
  have hnext := h.nextSeqNum
  -- a thread that is in no call and goes on with the same message, or with none
  have hgoto : ∀ {pc : ReceiverPc}, pc.sending = none →
      (∀ d, pc.message = some d → Readable T d) → pc.Headed T room :=
    fun hnone hd => ⟨by simp [hnone], hd⟩
  cases receiverStep_move hs with
  | @receive msg src socket hpc hsock =>
    have hsocket := h.socket
    rw [hsock] at hsocket
    refine { h with socket := fun d hd => hsocket d (List.mem_cons_of_mem _ hd), receiver := ?_ }
    refine hgoto rfl ?_
    rintro d ⟨⟩
    exact hsocket _ List.mem_cons_self
  | handled hpc | toRefute hpc | toApply hpc | refute hpc | apply hpc | pingReq hpc | waiting hpc =>
    rw [hpc] at hmessage
    exact { h with receiver := hgoto rfl hmessage }
  | unknown | ack | timedOut | relayForget =>
    exact { h with receiver := hgoto rfl (by simp [ReceiverPc.message]) }
  | @ping msg src hpc | @answered msg src _ _ hpc =>
    rw [hpc] at hmessage
    refine { h with receiver := ⟨?_, by simp [ReceiverPc.message]⟩ }
    rintro m ⟨⟩
    exact ⟨hT, (hmessage _ rfl).sequenceNum, Nat.zero_le _⟩
  | @relayProbe msg src target hpc =>
    rw [hpc] at hmessage
    refine h.register.withAddress fun dest => { h.register with receiver := ⟨?_, hmessage⟩ }
    rintro m ⟨⟩
    exact ⟨hT, hnext, Nat.zero_le _⟩
  | @ackPing m hpc | @relayAck _ m hpc =>
    rw [hpc] at hsending
    refine h.sending hid (hsending m rfl)
      (fun n' m' hn hm' => { hn with receiver := ⟨?_, by simp [ReceiverPc.message]⟩ })
      fun n' hn => { hn with receiver := hgoto rfl (by simp [ReceiverPc.message]) }
    rintro m ⟨⟩
    exact hm'
  | @relayPing msg src probeSeq m hpc =>
    rw [hpc] at hsending hmessage
    refine h.sending hid (hsending m rfl) (fun n' m' hn hm' => { hn with receiver := ⟨?_, hmessage⟩ })
      fun n' hn => { hn with receiver := hgoto rfl hmessage }
    rintro m ⟨⟩
    exact hm'

theorem leaverStep (h : n.Headed T room) (hT : T "") (hid : T n.list.myId)
    (hs : n.leaverStep = some n') : n'.Headed T room := by
  have hnext := h.nextSeqNum
  have hdraw : (n.nextSeqNum + 1) % 2 ^ 64 < 2 ^ 64 := Nat.mod_lt _ (by decide)
  cases leaverStep_move hs with
  | snapshot | readIncarnation | done => exact { h with }
  | announce =>
    have hn : Headed T room { n with nextSeqNum := (n.nextSeqNum + 1) % 2 ^ 64 } :=
      { h with nextSeqNum := hdraw }
    refine hn.withAddress fun dest => { hn with sent := ?_ }
    intro d hd
    rcases List.mem_append.mp hd with hd | hd
    · exact h.sent d hd
    · rw [List.mem_singleton.mp hd]
      exact ⟨hid, hT, hnext, Nat.le_add_left 1 room⟩

end Headed

end Node

/-! ## All of a message -/

/-- What is told to a node, from outside or by a message that arrives, fits into its types and
satisfies `T`. -/
def Act.Tells (T : String → Prop) : Act → Prop
  | .setMyLoad activeRequests maxCapacity modelVersion =>
    (-2 ^ 31 ≤ activeRequests ∧ activeRequests < 2 ^ 31) ∧
      (-2 ^ 31 ≤ maxCapacity ∧ maxCapacity < 2 ^ 31) ∧ T modelVersion
  | .joinCluster seeds => ∀ s ∈ seeds, T s ∧ T ("seed-" ++ s)
  | .arrive msg src => msg.InRange T ∧ T src.toString
  | _ => True

namespace Node

variable {n n' : Node} {a : Act} {c : Choice} {m : Sending} {room : ℕ} {id address : String}

/-- The load of the node fits into its types. -/
def LoadInRange (T : String → Prop) (n : Node) : Prop :=
  Act.Tells T (.setMyLoad n.ownLoad.1 n.ownLoad.2.1 n.ownLoad.2.2)

/-- All the node holds and sends is in range. -/
structure Transmits (T : String → Prop) (room : ℕ) (id address : String) (n : Node) : Prop where
  held : n.Held (MembershipUpdate.InRange T)
  headed : n.Headed T room
  reports : n.list.Reports (MembershipUpdate.InRange T)
  advertises : n.Advertises id address
  incarnation : n.list.myIncarnation < 2 ^ 64
  load : n.LoadInRange T

theorem create_transmits {myId myAddress : String} (hT : T "") (hid : T myId)
    (haddress : T myAddress) (config : SwimConfig) :
    (create myId myAddress config).Transmits T config.maxPiggybackUpdates.toNat myId myAddress where
  held := create_held ..
  headed := create_headed ..
  reports := reports_empty.addMember ⟨hid, haddress, hT, by simp [MemberInfo.toUpdate],
    by simp [MemberInfo.toUpdate], by simp [MemberInfo.toUpdate]⟩
  advertises := create_advertises ..
  incarnation := by
    rw [show (create myId myAddress config).list.myIncarnation = 0 from addMember_own.1]
    decide
  load := by simpa [LoadInRange, Act.Tells, ownLoad, create] using hT

namespace Transmits

theorem selfUpdate (h : n.Transmits T room id address) (hid : T id) (haddress : T address) :
    n.selfUpdate.InRange T where
  memberId := by rw [← h.advertises.ownId] at hid; exact hid
  address := by rw [← h.advertises.ownAddress] at haddress; exact haddress
  modelVersion := h.load.2.2
  incarnation := h.incarnation
  activeRequests := h.load.1
  maxCapacity := h.load.2.1

theorem sent (h : n.Transmits T room id address) {d : Datagram} (hd : d ∈ n.sent) :
    d.msg.InRange T ∧ d.msg.updates.length ≤ room + 1 := by
  have hheaded := h.headed.sent d hd
  refine ⟨⟨hheaded.senderId, hheaded.targetId, hheaded.sequenceNum, h.held.sent d hd, ?_⟩,
    hheaded.count⟩
  obtain ⟨u, hu, -⟩ := h.advertises.sent d hd
  rintro hnil
  rw [hnil] at hu
  cases hu

theorem myIncarnation_lt (h : n.Transmits T room id address) (hs : n.step a = some n') :
    n'.list.myIncarnation < 2 ^ 64 := by
  by_cases hr : a = .receiver ∧ n.isRefuting
  · obtain ⟨rfl, hr⟩ := hr
    obtain ⟨msg, src, u, rest, hpc⟩ := isRefuting_iff.mp hr
    rw [(step_refute hpc hs).1]
    exact Nat.mod_lt _ (by decide)
  · rw [step_myIncarnation hs hr]
    exact h.incarnation

theorem step_headed (h : n.Transmits T room id address) (hT : T "") (hid : T id)
    (htells : a.Tells T) (hs : n.step a = some n') : n'.Headed T room := by
  have hmyId : T n.list.myId := by rw [h.advertises.ownId]; exact hid
  have hheaded := h.headed
  cases step_move hs with
  | tick | setMyLoad | joinCluster => exact { hheaded with }
  | arrive msg src =>
    refine { hheaded with socket := ?_ }
    intro d hd
    rcases List.mem_append.mp hd with hd | hd
    · exact hheaded.socket d hd
    · rw [List.mem_singleton.mp hd]
      exact ⟨htells.1.senderId, htells.2, htells.1.sequenceNum⟩
  | sender _ hs =>
    exact hheaded.senderStep hT hmyId (fun id e he => (h.reports.members id e he).memberId) hs
  | receiver _ hs => exact hheaded.receiverStep hT hmyId hs
  | leaver _ hs => exact hheaded.leaverStep hT hmyId hs

theorem adds (h : n.Transmits T room id address) (htells : a.Tells T) {newId newAddress : String}
    (hadds : n.Adds a newId newAddress) : T newId ∧ T newAddress := by
  cases a with
  | joinCluster seeds =>
    obtain ⟨hmem, rfl⟩ := hadds
    exact ⟨(htells _ hmem).2, (htells _ hmem).1⟩
  | receiver =>
    obtain ⟨msg, src, hpc, rfl, rfl⟩ := hadds
    have hread := h.headed.receiver.message (msg, src) (by rw [hpc]; rfl)
    exact ⟨hread.senderId, hread.source⟩
  | _ => exact hadds.elim

/-- **A step of a node.** -/
theorem step (h : n.Transmits T room id address) (hT : T "") (hid : T id) (haddress : T address)
    (htells : a.Tells T) (hs : n.step a = some n') : n'.Transmits T room id address where
  held := by
    by_cases hleave : a = .leaver
    · subst hleave
      cases step_move hs with
      | leaver _ hs =>
        have hself := h.selfUpdate hid haddress
        refine h.held.leaverStep
          ⟨hself.memberId, hself.address, hT, Nat.mod_lt _ (by decide), ?_, ?_⟩ hs <;>
            simp [leaveUpdate]
    · refine h.held.step (fun _ => h.reports.buffer) (h.selfUpdate hid haddress) ?_ hleave hs
      rintro msg src rfl
      exact htells.1.updates
  headed := h.step_headed hT hid htells hs
  reports := by
    have hnew : ∀ {newId newAddress : String}, T newId → T newAddress →
        (MemberInfo.toUpdate newId { address := newAddress }).InRange T := by
      intro newId newAddress hnewId hnewAddress
      refine ⟨hnewId, hnewAddress, hT, ?_, ?_, ?_⟩ <;> simp [MemberInfo.toUpdate]
    refine reports_step (inRange_inherited hT) h.reports h.held.receiver ?_ ?_ hs
    · rw [h.advertises.ownId]
      exact hnew hid hT
    · intro newId newAddress hadds
      obtain ⟨hnewId, hnewAddress⟩ := h.adds htells hadds
      exact hnew hnewId hnewAddress
  advertises := h.advertises.step hs
  incarnation := h.myIncarnation_lt hs
  load := by
    unfold LoadInRange
    rcases step_ownLoad hs with ⟨k, m, v, rfl, hown⟩ | hown <;> rw [hown]
    · exact htells
    · exact h.load

end Transmits

end Node

end LlmGateway.Gossip
