import Mathlib.Data.List.Perm.Basic
import LlmGateway.Gossip.UdpTransport
import LlmGateway.Gossip.MembershipList

/-!
# A SWIM node

`SwimProtocol` as a labelled machine. A node runs a sender thread (`SenderLoop`: `DoPingRound`,
then `CheckSuspectTimeouts`) and a receiver thread (`ReceiverLoop`: `HandleMessage`); each is a
program counter with the local variables that are live there. One step is one access to what the
threads share: an operation of the membership list, an access to `pending_acks_` under
`ack_mutex_`, a send, a clock reading. `LeaveCluster` runs on a thread of its own.

Two accesses are taken together where what comes between them cannot be told from what comes
before or after: a sequence number is drawn and registered in one step (an ACK with a number that
is not registered is dropped), and a message is completed with the node's own load and handed to
the socket in one step (a later send is a slower network).

`SendMessage` is `Sending`, `WaitForAck` is `Wait`. A raised exception ends the process
(`crashed`). What the sockets have taken is recorded in `sent`, oldest first.
-/

namespace LlmGateway.Gossip

/-- The configuration fields the protocol reads; durations are in milliseconds. -/
structure SwimConfig where
  pingTimeoutMs : ℤ := 200
  suspectTimeoutMs : ℤ := 2000
  indirectPingCount : ℤ := 2
  maxPiggybackUpdates : ℤ := 8
  deriving DecidableEq, Repr

structure Datagram where
  dest : Address
  msg : GossipMessage
  deriving DecidableEq, Repr

/-- The arguments of a `SendMessage` call. -/
structure Outgoing where
  dest : Address
  type : MessageType
  targetId : String
  seqNum : ℕ
  deriving DecidableEq, Repr

/-- `SendMessage`: before `GetUpdatesForPiggyback`, and with the updates it returned. -/
inductive Sending
  | collect (o : Outgoing)
  | transmit (o : Outgoing) (updates : List MembershipUpdate)
  deriving DecidableEq, Repr

/-- A timed wait: before the deadline is computed, and blocked until it. -/
inductive Wait
  | enter
  | blocked (deadline : ℤ)
  deriving DecidableEq, Repr

abbrev Peer := String × MemberInfo

/-- The locals of the indirect-probe loop of `DoPingRound`. -/
structure Indirect where
  i : ℕ
  exclude : List String
  seqs : List ℕ
  deriving DecidableEq, Repr

inductive SenderPc
  | round
  | probe (peer : Peer)
  | ping (peer : Peer) (seq : ℕ) (m : Sending)
  | awaitAck (peer : Peer) (seq : ℕ) (w : Wait)
  | acked (seq : ℕ)
  | pickProxy (peer : Peer) (seq : ℕ) (r : Indirect)
  | probeProxy (peer : Peer) (seq : ℕ) (r : Indirect) (proxy : Peer)
  | pingReq (peer : Peer) (seq : ℕ) (r : Indirect) (m : Sending)
  | awaitIndirect (peer : Peer) (seq : ℕ) (r : Indirect) (w : Wait)
  | forget (peer : Peer) (seq : ℕ) (gotIndirectAck : Bool)
  | suspect (peer : Peer)
  | timeouts
  | readClock (suspects : List Peer)
  | expire (now : ℕ) (suspects : List Peer)
  deriving DecidableEq, Repr

/-- Where `DoPingRound` goes after its loop: without a proxy there is nothing to wait for. -/
def Indirect.afterLoop (peer : Peer) (seq : ℕ) (r : Indirect) : SenderPc :=
  if r.seqs = [] then .forget peer seq false else .awaitIndirect peer seq r .enter

inductive ReceiverPc
  | receive
  | updates (msg : GossipMessage) (src : Address) (rest : List MembershipUpdate)
  | refute (msg : GossipMessage) (src : Address) (u : MembershipUpdate)
      (rest : List MembershipUpdate)
  | apply (msg : GossipMessage) (src : Address) (u : MembershipUpdate)
      (rest : List MembershipUpdate)
  | dispatch (msg : GossipMessage) (src : Address)
  | ackPing (m : Sending)
  | relayProbe (msg : GossipMessage) (src : Address) (target : MemberInfo)
  | relayPing (msg : GossipMessage) (src : Address) (probeSeq : ℕ) (m : Sending)
  | relayWait (msg : GossipMessage) (src : Address) (probeSeq : ℕ) (w : Wait)
  | relayAck (probeSeq : ℕ) (m : Sending)
  | relayForget (probeSeq : ℕ)
  deriving DecidableEq, Repr

inductive LeaverPc
  | idle
  | readIncarnation (peers : List Peer)
  | announce (leave : MembershipUpdate) (peers : List Peer)
  deriving DecidableEq, Repr

structure Node where
  myAddress : String
  config : SwimConfig := {}
  list : MembershipList
  pendingAcks : UnorderedMap ℕ Bool := ∅
  nextSeqNum : ℕ := 1
  myActiveRequests : ℤ := 0
  myMaxCapacity : ℤ := 0
  myModelVersion : String := ""
  clock : ℕ := 0
  socket : List (GossipMessage × Address) := []
  sent : List Datagram := []
  sender : SenderPc := .round
  receiver : ReceiverPc := .receive
  leaver : LeaverPc := .idle
  crashed : Bool := false
  deriving DecidableEq

/-- What a label decides where the code draws at random or iterates an unordered map. -/
inductive Choice
  | none
  | peer (id : String)
  | order (suspects : List Peer)
  deriving DecidableEq, Repr

inductive Act
  | tick (ns : ℕ)
  | setMyLoad (activeRequests maxCapacity : ℤ) (modelVersion : String)
  | joinCluster (seeds : List String)
  | arrive (msg : GossipMessage) (src : Address)
  | sender (c : Choice)
  | receiver
  | leaver
  deriving DecidableEq, Repr

namespace Node

variable (n : Node)

/-- The constructor of `SwimProtocol`: the node is a member of its own list. -/
def create (myId myAddress : String) (config : SwimConfig) : Node where
  myAddress := myAddress
  config := config
  list := MembershipList.addMember { myId := myId } myId myAddress

/-! ## Building blocks -/

/-- `next_seq_num_.fetch_add(1)` and `pending_acks_[seq] = false`. -/
def register : Node :=
  { n with
    nextSeqNum := (n.nextSeqNum + 1) % 2 ^ 64
    pendingAcks := n.pendingAcks.insert n.nextSeqNum false }

/-- `RecordAck`. -/
def recordAck (seq : ℕ) : Node :=
  match n.pendingAcks.lookup seq with
  | none => n
  | some _ => { n with pendingAcks := n.pendingAcks.insert seq true }

/-- The predicate `WaitForAck` waits for. -/
def isAcked (seq : ℕ) : Bool := n.pendingAcks.lookup seq = some true

/-- `pending_acks_.erase(seq)`. -/
def eraseAck (seq : ℕ) : Node := { n with pendingAcks := n.pendingAcks.erase seq }

def eraseAcks (seqs : List ℕ) : Node :=
  { n with pendingAcks := seqs.foldl (fun acks s => acks.erase s) n.pendingAcks }

/-- The update about the node itself that every message carries last. -/
def selfUpdate : MembershipUpdate where
  memberId := n.list.myId
  address := n.myAddress
  state := .alive
  incarnation := n.list.myIncarnation
  modelVersion := n.myModelVersion
  activeRequests := n.myActiveRequests
  maxCapacity := n.myMaxCapacity

def crash : Node := { n with crashed := true }

/-- One step of `SendMessage`: the node after it, and where the call stands, if it goes on. -/
def sendStep : Sending → Node × Option Sending
  | .collect o =>
    match n.list.getUpdatesForPiggyback n.config.maxPiggybackUpdates with
    | none => (n.crash, none)
    | some (updates, list) => ({ n with list := list }, some (.transmit o updates))
  | .transmit o updates =>
    let msg : GossipMessage := ⟨o.type, n.list.myId, o.targetId, o.seqNum, updates ++ [n.selfUpdate]⟩
    ({ n with sent := n.sent ++ [⟨o.dest, msg⟩] }, none)

/-- Collecting the updates either throws or takes some of them. -/
theorem sendStep_collect (o : Outgoing) :
    n.sendStep (.collect o) = (n.crash, none) ∨
      ∃ k, n.sendStep (.collect o) = ({ n with list := (n.list.takeUpdates k).2 },
        some (.transmit o (n.list.takeUpdates k).1)) := by
  unfold sendStep MembershipList.getUpdatesForPiggyback
  by_cases hneg : n.config.maxPiggybackUpdates < 0
  · exact Or.inl (by rw [if_pos hneg])
  · exact Or.inr ⟨n.config.maxPiggybackUpdates.toNat, by rw [if_neg hneg]⟩

/-- One step of a timed wait for `ready`: the result when it ends, or the wait that goes on. A
blocked wait whose deadline is still ahead takes no step. -/
def waitStep (ready : Bool) : Wait → Option (Bool ⊕ Wait)
  | .enter => some (.inr (.blocked (n.clock + n.config.pingTimeoutMs * 1000000)))
  | .blocked deadline =>
    if ready then some (.inl true)
    else if deadline ≤ n.clock then some (.inl false)
    else none

/-- The member `GetRandomAlivePeer(exclude)` returns under the given choice. -/
def randomAlivePeer (exclude : List String) : Choice → Option (Option Peer)
  | .peer id => ((n.list.alivePeers exclude).find? fun p => p.1 = id).map some
  | _ => if n.list.alivePeers exclude = [] then some none else none

/-- `ParseAddress` in a thread: an exception ends the process. -/
def withAddress (s : String) (k : Address → Node) : Node :=
  match parseAddress s with
  | .ok a => k a
  | .error _ => n.crash

/-! ## The sender thread -/

/-- The timer of a suspect has run out (`CheckSuspectTimeouts`). -/
def expired (now : ℕ) (info : MemberInfo) : Bool :=
  n.config.suspectTimeoutMs ≤ elapsedMs info.suspectTime now

/-- `DoPingRound`. -/
def pingRoundStep (c : Choice) : SenderPc → Option Node
  | .round =>
    (n.randomAlivePeer [] c).map fun
      | none => { n with sender := .timeouts }
      | some peer => { n with sender := .probe peer }
  | .probe peer =>
    let seq := n.nextSeqNum
    some (n.register.withAddress peer.2.address fun dest =>
      { n.register with sender := .ping peer seq (.collect ⟨dest, .ping, "", seq⟩) })
  | .ping peer seq m =>
    some (match n.sendStep m with
      | (n', some m') => { n' with sender := .ping peer seq m' }
      | (n', none) => { n' with sender := .awaitAck peer seq .enter })
  | .awaitAck peer seq w =>
    (n.waitStep (n.isAcked seq) w).map fun
      | .inr w' => { n with sender := .awaitAck peer seq w' }
      | .inl true => { n with sender := .acked seq }
      | .inl false => { n with sender := .pickProxy peer seq ⟨0, [peer.1], []⟩ }
  | .acked seq => some { n.eraseAck seq with sender := .timeouts }
  | .pickProxy peer seq r =>
    if r.i < n.config.indirectPingCount then
      (n.randomAlivePeer r.exclude c).map fun
        | none => { n with sender := r.afterLoop peer seq }
        | some proxy => { n with sender := .probeProxy peer seq r proxy }
    else some { n with sender := r.afterLoop peer seq }
  | .probeProxy peer seq r proxy =>
    let indirectSeq := n.nextSeqNum
    some (n.register.withAddress proxy.2.address fun dest =>
      { n.register with
        sender := .pingReq peer seq
          ⟨r.i + 1, r.exclude ++ [proxy.1], r.seqs ++ [indirectSeq]⟩
          (.collect ⟨dest, .pingReq, peer.1, indirectSeq⟩) })
  | .pingReq peer seq r m =>
    some (match n.sendStep m with
      | (n', some m') => { n' with sender := .pingReq peer seq r m' }
      | (n', none) => { n' with sender := .pickProxy peer seq r })
  | .awaitIndirect peer seq r w =>
    (n.waitStep (r.seqs.any n.isAcked) w).map fun
      | .inr w' => { n with sender := .awaitIndirect peer seq r w' }
      | .inl got => { n.eraseAcks r.seqs with sender := .forget peer seq got }
  | .forget peer seq gotIndirectAck =>
    some { n.eraseAck seq with sender := if gotIndirectAck then .timeouts else .suspect peer }
  | .suspect peer =>
    some { n with list := (n.list.markSuspect n.clock peer.1).list, sender := .timeouts }
  | _ => none

/-- `CheckSuspectTimeouts`: the snapshot, the clock reading, then one `MarkDead` per expired
suspect. -/
def suspectTimeoutsStep (c : Choice) : SenderPc → Option Node
  | .timeouts =>
    match c with
    | .order suspects =>
      if suspects.Perm (n.list.getMembersByState .suspect) then
        some { n with sender := .readClock suspects }
      else none
    | _ => none
  | .readClock suspects => some { n with sender := .expire n.clock suspects }
  | .expire _ [] => some { n with sender := .round }
  | .expire now ((id, info) :: rest) =>
    if n.expired now info then
      some { n with list := (n.list.markDead id).list, sender := .expire now rest }
    else some { n with sender := .expire now rest }
  | _ => none

/-- One step of `SenderLoop`. -/
def senderStep (c : Choice) : Option Node :=
  match n.sender with
  | .timeouts | .readClock _ | .expire _ _ => n.suspectTimeoutsStep c n.sender
  | _ => n.pingRoundStep c n.sender

/-! ## The receiver thread -/

/-- The test of `CheckSelfRefutation`. -/
def mustRefute (u : MembershipUpdate) : Bool :=
  u.memberId = n.list.myId ∧ (u.state = .suspect ∨ u.state = .dead) ∧
    n.list.myIncarnation ≤ u.incarnation

/-- The type switch of `HandleMessage`, with the first step of each handler. -/
def dispatchStep (msg : GossipMessage) (src : Address) : Node :=
  match msg.type with
  | .ping =>
    let list := if msg.senderId ≠ "" then n.list.addMember msg.senderId src.toString else n.list
    { n with
      list := list
      receiver := .ackPing (.collect ⟨src, .ack, "", msg.sequenceNum⟩) }
  | .pingReq =>
    match n.list.getMember msg.targetId with
    | none => { n with receiver := .receive }
    | some target => { n with receiver := .relayProbe msg src target }
  | .ack => { n.recordAck msg.sequenceNum with receiver := .receive }

/-- One step of `ReceiverLoop`. -/
def receiverStep : Option Node :=
  match n.receiver with
  | .receive =>
    match n.socket with
    | [] => none
    | (msg, src) :: socket =>
      some { n with socket := socket, receiver := .updates msg src msg.updates }
  -- ProcessPiggybackedUpdates: CheckSelfRefutation, then ApplyUpdate, for each update in turn
  | .updates msg src [] => some { n with receiver := .dispatch msg src }
  | .updates msg src (u :: rest) =>
    some { n with
      receiver := if n.mustRefute u then .refute msg src u rest else .apply msg src u rest }
  | .refute msg src u rest =>
    some { n with list := n.list.incrementMyIncarnation, receiver := .apply msg src u rest }
  | .apply msg src u rest =>
    some { n with
      list := (n.list.applyUpdate n.clock u).list
      receiver := .updates msg src rest }
  | .dispatch msg src => some (n.dispatchStep msg src)
  | .ackPing m =>
    some (match n.sendStep m with
      | (n', some m') => { n' with receiver := .ackPing m' }
      | (n', none) => { n' with receiver := .receive })
  -- HandlePingReq, after GetMember
  | .relayProbe msg src target =>
    let probeSeq := n.nextSeqNum
    some (n.register.withAddress target.address fun dest =>
      { n.register with
        receiver := .relayPing msg src probeSeq (.collect ⟨dest, .ping, "", probeSeq⟩) })
  | .relayPing msg src probeSeq m =>
    some (match n.sendStep m with
      | (n', some m') => { n' with receiver := .relayPing msg src probeSeq m' }
      | (n', none) => { n' with receiver := .relayWait msg src probeSeq .enter })
  | .relayWait msg src probeSeq w =>
    (n.waitStep (n.isAcked probeSeq) w).map fun
      | .inr w' => { n with receiver := .relayWait msg src probeSeq w' }
      | .inl true =>
        { n with receiver := .relayAck probeSeq (.collect ⟨src, .ack, "", msg.sequenceNum⟩) }
      | .inl false => { n with receiver := .relayForget probeSeq }
  | .relayAck probeSeq m =>
    some (match n.sendStep m with
      | (n', some m') => { n' with receiver := .relayAck probeSeq m' }
      | (n', none) => { n' with receiver := .relayForget probeSeq })
  | .relayForget probeSeq => some { n.eraseAck probeSeq with receiver := .receive }

/-! ## `LeaveCluster` -/

def leaverStep : Option Node :=
  match n.leaver with
  | .idle => some { n with leaver := .readIncarnation (n.list.getMembersByState .alive) }
  | .readIncarnation peers =>
    let leave : MembershipUpdate :=
      { memberId := n.list.myId, address := n.myAddress, state := .dead,
        incarnation := (n.list.myIncarnation + 1) % 2 ^ 64 }
    some { n with leaver := .announce leave peers }
  | .announce _ [] => some { n with leaver := .idle }
  | .announce leave (peer :: peers) =>
    let msg : GossipMessage := ⟨.ping, n.list.myId, "", n.nextSeqNum, [leave]⟩
    let n' := { n with nextSeqNum := (n.nextSeqNum + 1) % 2 ^ 64 }
    some (n'.withAddress peer.2.address fun dest =>
      { n' with sent := n.sent ++ [⟨dest, msg⟩], leaver := .announce leave peers })

/-! ## The machine -/

/-- `JoinCluster`. -/
def joinCluster (seeds : List String) : Node :=
  { n with
    list := seeds.foldl (fun list addr =>
      if addr = n.myAddress then list else list.addMember ("seed-" ++ addr) addr) n.list }

/-- One step of the node. -/
def step : Act → Option Node
  | .tick ns => some { n with clock := n.clock + ns }
  | .setMyLoad activeRequests maxCapacity modelVersion =>
    some { n with
      myActiveRequests := activeRequests
      myMaxCapacity := maxCapacity
      myModelVersion := modelVersion }
  | .joinCluster seeds => if n.crashed then none else some (n.joinCluster seeds)
  | .arrive msg src => some { n with socket := n.socket ++ [(msg, src)] }
  | .sender c => if n.crashed then none else n.senderStep c
  | .receiver => if n.crashed then none else n.receiverStep
  | .leaver => if n.crashed then none else n.leaverStep

theorem receiverStep_of_step {n n' : Node} (hs : n.step .receiver = some n') :
    n.receiverStep = some n' := by
  unfold step at hs
  dsimp only at hs
  split_ifs at hs
  exact hs

end Node

end LlmGateway.Gossip
