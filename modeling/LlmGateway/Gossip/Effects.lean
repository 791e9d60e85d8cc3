import LlmGateway.Gossip.Swim

/-!
# What one step of a node does

The threads of a node meet in the membership list, in `pending_acks_` and in the socket. The
lemmas here say once what a step of each thread can do there, so that no invariant has to look at
the program counters again.

1. `ListEffect`: the operations on the membership list, with the program counter they are called
   from.
2. `SenderMove`: the ways in which the sender thread changes the node (`senderStep_move`);
   `SenderSpec`: it leaves the receiver alone, records no ACK and sends no ACK.
3. `ReceiverMove`, `ReceiverSpec`: the same for the receiver thread (`receiverStep_move`,
   `receiverStep_spec`); `LeaverMove`: the same for `LeaveCluster`.
4. `step_move`, `step_spec`: one step of a node.
-/

namespace LlmGateway.Gossip

namespace MembershipList

/-- A sequence of `AddMember` calls with ids and addresses. -/
def addMembers (L : MembershipList) (members : List (String × String)) : MembershipList :=
  members.foldl (fun L m => L.addMember m.1 m.2) L

theorem addMembers_own {L : MembershipList} {members : List (String × String)} :
    (L.addMembers members).myIncarnation = L.myIncarnation ∧ (L.addMembers members).myId = L.myId := by
  induction members generalizing L with
  | nil => exact ⟨rfl, rfl⟩
  | cons m members ih =>
    obtain ⟨hinc, hid⟩ := ih (L := L.addMember m.1 m.2)
    exact ⟨hinc.trans addMember_own.1, hid.trans addMember_own.2⟩

end MembershipList

/-- The type of message a `SendMessage` call sends. -/
def Sending.type : Sending → MessageType
  | .collect o => o.type
  | .transmit o _ => o.type

/-- The `SendMessage` call the sender thread is in. -/
def SenderPc.sending : SenderPc → Option Sending
  | .ping _ _ m => some m
  | .pingReq _ _ _ m => some m
  | _ => none

/-- The `SendMessage` call the receiver thread is in. -/
def ReceiverPc.sending : ReceiverPc → Option Sending
  | .ackPing m => some m
  | .relayPing _ _ _ m => some m
  | .relayAck _ m => some m
  | _ => none

/-- The members the sender thread may still mark `SUSPECT` or `DEAD`. -/
def SenderPc.targets : SenderPc → List String
  | .probe peer => [peer.1]
  | .ping peer _ _ => [peer.1]
  | .awaitAck peer _ _ => [peer.1]
  | .pickProxy peer _ _ => [peer.1]
  | .probeProxy peer _ _ _ => [peer.1]
  | .pingReq peer _ _ _ => [peer.1]
  | .awaitIndirect peer _ _ _ => [peer.1]
  | .forget peer _ _ => [peer.1]
  | .suspect peer => [peer.1]
  | .readClock suspects => suspects.map Prod.fst
  | .expire _ suspects => suspects.map Prod.fst
  | _ => []

/-- The addresses the sender thread is about to parse. -/
def SenderPc.addresses : SenderPc → List String
  | .probe peer => [peer.2.address]
  | .probeProxy _ _ _ proxy => [proxy.2.address]
  | _ => []

/-- The sender thread is in no `SendMessage` call and about to parse no address. -/
def SenderPc.Quiet (pc : SenderPc) : Prop := pc.sending = none ∧ pc.addresses = []

namespace Node

/-- The operations a step can perform on the membership list. -/
inductive ListEffect (n : Node) : Act → MembershipList → Prop
  | keep {a : Act} : ListEffect n a n.list
  | collect {a : Act} (m : ℕ) : ListEffect n a (n.list.takeUpdates m).2
  | suspect {c : Choice} {peer : Peer} : n.sender = .suspect peer →
      ListEffect n (.sender c) (n.list.markSuspect n.clock peer.1).list
  | expire {c : Choice} {now : ℕ} {id : String} {info : MemberInfo} {rest : List Peer} :
      n.sender = .expire now ((id, info) :: rest) → n.expired now info →
      ListEffect n (.sender c) (n.list.markDead id).list
  | add {a : Act} (members : List (String × String)) : ListEffect n a (n.list.addMembers members)
  | refute {msg : GossipMessage} {src : Address} {u : MembershipUpdate}
      {rest : List MembershipUpdate} : n.receiver = .refute msg src u rest →
      ListEffect n .receiver n.list.incrementMyIncarnation
  | apply {msg : GossipMessage} {src : Address} {u : MembershipUpdate}
      {rest : List MembershipUpdate} : n.receiver = .apply msg src u rest →
      ListEffect n .receiver (n.list.applyUpdate n.clock u).list

variable {n n' : Node} {c : Choice} {a : Act}

/-! ## `SendMessage` -/

/-- What a `SendMessage` step leaves alone: everything but the list and what has been sent. -/
structure SendSpec (n : Node) (m : Sending) (n' : Node) : Prop where
  list : n'.list = n.list ∨ ∃ k, n'.list = (n.list.takeUpdates k).2
  sent : n'.sent = n.sent ∨ ∃ d : Datagram, d.msg.type = m.type ∧ n'.sent = n.sent ++ [d]
  sender : n'.sender = n.sender
  receiver : n'.receiver = n.receiver
  clock : n'.clock = n.clock
  config : n'.config = n.config
  pendingAcks : n'.pendingAcks = n.pendingAcks
  socket : n'.socket = n.socket

theorem sendStep_spec (n : Node) (m : Sending) :
    SendSpec n m (n.sendStep m).1 ∧ ∀ m', (n.sendStep m).2 = some m' → m'.type = m.type := by
  cases m with
  | collect o =>
    rcases n.sendStep_collect o with h | ⟨k, h⟩ <;> rw [h]
    · refine ⟨⟨Or.inl rfl, Or.inl rfl, rfl, rfl, rfl, rfl, rfl, rfl⟩, ?_⟩
      intro m' hm'
      cases hm'
    · refine ⟨⟨Or.inr ⟨k, rfl⟩, Or.inl rfl, rfl, rfl, rfl, rfl, rfl, rfl⟩, ?_⟩
      intro m' hm'
      cases hm'
      rfl
  | transmit o updates =>
    refine ⟨⟨Or.inl rfl, Or.inr ⟨_, rfl, rfl⟩, rfl, rfl, rfl, rfl, rfl, rfl⟩, ?_⟩
    intro m' hm'
    cases hm'

/-- The node after a `SendMessage` step of either thread: the call goes on with `more`, or it is over
and the thread with `done`. -/
theorem sendStep_elim {m : Sending} {more : Node → Sending → Node} {done : Node → Node}
    {C : Node → Prop} (hmore : ∀ n' m', n.sendStep m = (n', some m') → C (more n' m'))
    (hdone : ∀ n', n.sendStep m = (n', none) → C (done n')) :
    C (match n.sendStep m with
      | (n', some m') => more n' m'
      | (n', none) => done n') := by
  rcases hr : n.sendStep m with ⟨n', _ | m'⟩
  · exact hdone n' hr
  · exact hmore n' m' hr

theorem SendSpec.listEffect {m : Sending} (h : SendSpec n m n') : ListEffect n a n'.list := by
  rcases h.list with hl | ⟨k, hl⟩ <;> rw [hl]
  · exact .keep
  · exact .collect k

/-! ## The sender thread -/

/-- What a step of the sender thread can do. -/
structure SenderSpec (c : Choice) (n n' : Node) : Prop where
  list : ListEffect n (.sender c) n'.list
  targets : ∀ id ∈ n'.sender.targets, id ∈ n.sender.targets ∨ id ≠ n.list.myId
  sending : ∀ m, n'.sender.sending = some m →
    m.type ≠ .ack ∨ ∃ m₀, n.sender.sending = some m₀ ∧ m.type = m₀.type
  sent : n'.sent = n.sent ∨ ∃ d : Datagram, n'.sent = n.sent ++ [d] ∧
    ∃ m, n.sender.sending = some m ∧ d.msg.type = m.type
  acked : ∀ seq, n'.isAcked seq → n.isAcked seq
  receiver : n'.receiver = n.receiver
  clock : n'.clock = n.clock
  config : n'.config = n.config
  socket : n'.socket = n.socket

theorem lookup_of_lookup_erase {acks : UnorderedMap ℕ Bool} {s seq : ℕ} {b : Bool}
    (h : (acks.erase s).lookup seq = some b) : acks.lookup seq = some b := by
  by_cases hs : seq = s
  · subst hs
    rw [AList.lookup_erase] at h
    cases h
  · rwa [AList.lookup_erase_ne hs] at h

theorem isAcked_of_eraseAcks {seqs : List ℕ} {seq : ℕ} (h : (n.eraseAcks seqs).isAcked seq) :
    n.isAcked seq := by
  unfold isAcked eraseAcks at h
  unfold isAcked
  rw [decide_eq_true_eq] at h ⊢
  generalize n.pendingAcks = acks at h ⊢
  induction seqs generalizing acks with
  | nil => exact h
  | cons s seqs ih => exact lookup_of_lookup_erase (ih _ h)

theorem isAcked_of_register {seq : ℕ} (h : n.register.isAcked seq) : n.isAcked seq := by
  unfold isAcked register at h
  unfold isAcked
  rw [decide_eq_true_eq] at h ⊢
  by_cases hs : seq = n.nextSeqNum
  · subst hs
    rw [AList.lookup_insert] at h
    cases h
  · rwa [AList.lookup_insert_ne hs] at h

/-- The ways in which a step of the sender thread changes the node. -/
inductive SenderMove (c : Choice) (n : Node) : Node → Prop
  | goto (seqs : List ℕ) {pc : SenderPc} : pc.Quiet →
      (∀ id ∈ pc.targets, id ∈ n.sender.targets ∨ id ≠ n.list.myId) →
      SenderMove c n { n.eraseAcks seqs with sender := pc }
  | pick {exclude : List String} {peer : Peer} {pc : SenderPc} :
      n.randomAlivePeer exclude c = some (some peer) → pc.sending = none →
      pc.addresses = [peer.2.address] →
      (∀ id ∈ pc.targets, id ∈ n.sender.targets ∨ id ≠ n.list.myId) →
      SenderMove c n { n with sender := pc }
  | probe {s : String} {pc : Address → SenderPc} {o : Address → Outgoing} :
      n.sender.addresses = [s] → (∀ a, (pc a).sending = some (.collect (o a))) →
      (∀ a, (o a).type ≠ .ack) → (∀ a, (pc a).addresses = []) →
      (∀ a, (pc a).targets = n.sender.targets) →
      SenderMove c n (n.register.withAddress s fun a => { n.register with sender := pc a })
  | send {m : Sending} {more : Sending → SenderPc} {done : SenderPc} :
      n.sender.sending = some m → (∀ m, (more m).sending = some m) →
      (∀ m, (more m).addresses = []) → (∀ m, (more m).targets = n.sender.targets) →
      done.Quiet → done.targets = n.sender.targets →
      SenderMove c n (match n.sendStep m with
        | (n', some m') => { n' with sender := more m' }
        | (n', none) => { n' with sender := done })
  | suspect {peer : Peer} : n.sender = .suspect peer →
      SenderMove c n
        { n with list := (n.list.markSuspect n.clock peer.1).list, sender := .timeouts }
  | expire {now : ℕ} {id : String} {info : MemberInfo} {rest : List Peer} :
      n.sender = .expire now ((id, info) :: rest) → n.expired now info →
      SenderMove c n { n with list := (n.list.markDead id).list, sender := .expire now rest }

theorem mem_alivePeers {L : MembershipList} {exclude : List String} {p : Peer}
    (h : p ∈ L.alivePeers exclude) : p.1 ≠ L.myId := by
  have := (List.mem_filter.mp h).2
  rw [decide_eq_true_eq] at this
  exact this.1

theorem mem_getMembersByState {L : MembershipList} {state : MemberState} {p : Peer}
    (h : p ∈ L.getMembersByState state) : p.1 ≠ L.myId := by
  have := (List.mem_filter.mp h).2
  rw [decide_eq_true_eq] at this
  exact this.1

theorem mem_of_randomAlivePeer {exclude : List String} {c : Choice} {p : Peer}
    (h : n.randomAlivePeer exclude c = some (some p)) : p ∈ n.list.alivePeers exclude := by
  unfold Node.randomAlivePeer at h
  cases c with
  | peer id =>
    obtain ⟨q, hq, heq⟩ := Option.map_eq_some_iff.mp h
    cases heq
    exact List.mem_of_find?_eq_some hq
  | none => dsimp only at h; split_ifs at h; cases h
  | order _ => dsimp only at h; split_ifs at h; cases h

theorem afterLoop_targets (r : Indirect) (peer : Peer) (seq : ℕ) :
    (r.afterLoop peer seq).targets = [peer.1] := by
  unfold Indirect.afterLoop
  split_ifs <;> rfl

theorem afterLoop_quiet (r : Indirect) (peer : Peer) (seq : ℕ) : (r.afterLoop peer seq).Quiet := by
  unfold Indirect.afterLoop
  split_ifs <;> exact ⟨rfl, rfl⟩

theorem pingRoundStep_move (hs : n.pingRoundStep c n.sender = some n') : SenderMove c n n' := by
  cases hpc : n.sender <;> rw [hpc] at hs
  case round =>
    obtain ⟨r, hr, rfl⟩ := Option.map_eq_some_iff.mp hs
    cases r with
    | none => exact .goto [] ⟨rfl, rfl⟩ (by intro id hid; cases hid)
    | some peer =>
      refine .pick hr rfl rfl fun id hid => ?_
      rw [List.mem_singleton.mp hid]
      exact Or.inr (mem_alivePeers (mem_of_randomAlivePeer hr))
  case probe peer =>
    cases hs
    exact .probe (by rw [hpc]; rfl) (fun _ => rfl) (fun _ => nofun) (fun _ => rfl)
      fun _ => by rw [hpc]; rfl
  case ping peer seq m =>
    cases hs
    exact .send (by rw [hpc]; rfl) (fun _ => rfl) (fun _ => rfl) (fun _ => by rw [hpc]; rfl)
      ⟨rfl, rfl⟩ (by rw [hpc]; rfl)
  case awaitAck peer seq w =>
    obtain ⟨r, _, rfl⟩ := Option.map_eq_some_iff.mp hs
    rcases r with (_ | _) | w' <;>
      exact .goto [] ⟨rfl, rfl⟩ fun id hid => Or.inl (by rw [hpc]; first | exact hid | cases hid)
  case acked seq =>
    cases hs
    exact .goto [seq] ⟨rfl, rfl⟩ (by intro id hid; cases hid)
  case pickProxy peer seq r =>
    have hafter : ∀ id ∈ (r.afterLoop peer seq).targets, id ∈ n.sender.targets ∨ id ≠ n.list.myId := by
      intro id hid
      rw [afterLoop_targets] at hid
      exact Or.inl (by rw [hpc]; exact hid)
    unfold Node.pingRoundStep at hs
    dsimp only at hs
    split_ifs at hs
    · obtain ⟨p, hp, rfl⟩ := Option.map_eq_some_iff.mp hs
      cases p with
      | none => exact .goto [] (afterLoop_quiet ..) hafter
      | some proxy => exact .pick hp rfl rfl fun id hid => Or.inl (by rw [hpc]; exact hid)
    · cases hs
      exact .goto [] (afterLoop_quiet ..) hafter
  case probeProxy peer seq r proxy =>
    cases hs
    exact .probe (by rw [hpc]; rfl) (fun _ => rfl) (fun _ => nofun) (fun _ => rfl)
      fun _ => by rw [hpc]; rfl
  case pingReq peer seq r m =>
    cases hs
    exact .send (by rw [hpc]; rfl) (fun _ => rfl) (fun _ => rfl) (fun _ => by rw [hpc]; rfl)
      ⟨rfl, rfl⟩ (by rw [hpc]; rfl)
  case awaitIndirect peer seq r w =>
    obtain ⟨p, _, rfl⟩ := Option.map_eq_some_iff.mp hs
    cases p with
    | inl got => exact .goto r.seqs ⟨rfl, rfl⟩ fun id hid => Or.inl (by rw [hpc]; exact hid)
    | inr w' => exact .goto [] ⟨rfl, rfl⟩ fun id hid => Or.inl (by rw [hpc]; exact hid)
  case forget peer seq got =>
    cases hs
    cases got with
    | true => exact .goto [seq] ⟨rfl, rfl⟩ (by intro id hid; cases hid)
    | false => exact .goto [seq] ⟨rfl, rfl⟩ fun id hid => Or.inl (by rw [hpc]; exact hid)
  case suspect peer =>
    cases hs
    exact .suspect hpc
  all_goals cases hs

theorem suspectTimeoutsStep_move (hs : n.suspectTimeoutsStep c n.sender = some n') :
    SenderMove c n n' := by
  cases hpc : n.sender <;> rw [hpc] at hs
  case timeouts =>
    unfold Node.suspectTimeoutsStep at hs
    cases c with
    | order suspects =>
      dsimp only at hs
      split_ifs at hs with hperm
      cases hs
      refine .goto [] ⟨rfl, rfl⟩ fun id hid => ?_
      obtain ⟨p, hp, rfl⟩ := List.mem_map.mp hid
      exact Or.inr (mem_getMembersByState (hperm.mem_iff.mp hp))
    | _ => cases hs
  case readClock suspects =>
    cases hs
    exact .goto [] ⟨rfl, rfl⟩ fun id hid => Or.inl (by rw [hpc]; exact hid)
  case expire now suspects =>
    cases suspects with
    | nil =>
      cases hs
      exact .goto [] ⟨rfl, rfl⟩ (by intro id hid; cases hid)
    | cons s rest =>
      unfold Node.suspectTimeoutsStep at hs
      dsimp only at hs
      split_ifs at hs with hexp
      · cases hs
        exact .expire hpc hexp
      · cases hs
        exact .goto [] ⟨rfl, rfl⟩ fun id hid =>
          Or.inl (by rw [hpc]; exact List.mem_cons_of_mem _ hid)
  all_goals cases hs

/-- **One step of the sender thread.** -/
theorem senderStep_move (hs : n.senderStep c = some n') : SenderMove c n n' := by
  unfold Node.senderStep at hs
  split at hs
  · exact suspectTimeoutsStep_move hs
  · exact suspectTimeoutsStep_move hs
  · exact suspectTimeoutsStep_move hs
  · exact pingRoundStep_move hs

/-- A step of the sender thread that moves its program counter and touches `pending_acks_`. -/
theorem SenderSpec.move (acks : UnorderedMap ℕ Bool) (seqNum : ℕ) {pc : SenderPc}
    (hacked : ∀ seq, Node.isAcked { n with pendingAcks := acks } seq → n.isAcked seq)
    (htargets : ∀ id ∈ pc.targets, id ∈ n.sender.targets ∨ id ≠ n.list.myId)
    (hsending : ∀ m, pc.sending = some m → m.type ≠ .ack) :
    SenderSpec c n { n with pendingAcks := acks, nextSeqNum := seqNum, sender := pc } where
  list := .keep
  targets := htargets
  sending m hm := Or.inl (hsending m hm)
  sent := Or.inl rfl
  acked := hacked
  receiver := rfl
  clock := rfl
  config := rfl
  socket := rfl

theorem SenderMove.spec (h : SenderMove c n n') : SenderSpec c n n' := by
  have hquiet : ∀ {pc : SenderPc}, pc.sending = none → ∀ m, pc.sending = some m → m.type ≠ .ack := by
    intro pc hpc m hm
    rw [hpc] at hm
    cases hm
  cases h with
  | goto seqs hpc htargets =>
    exact .move _ _ (fun _ h => isAcked_of_eraseAcks h) htargets (hquiet hpc.1)
  | pick _ hsending _ htargets => exact .move _ _ (fun _ h => h) htargets (hquiet hsending)
  | @probe s pc o _ hsending htype _ htargets =>
    unfold Node.withAddress
    cases parseAddress s with
    | ok a =>
      refine .move _ _ (fun _ h => isAcked_of_register h)
        (fun id hid => Or.inl (by rwa [← htargets a])) fun m hm => ?_
      rw [← Option.some.inj ((hsending a).symm.trans hm)]
      exact htype a
    | error _ =>
      exact ⟨.keep, fun id hid => Or.inl hid, fun m hm => Or.inr ⟨m, hm, rfl⟩, Or.inl rfl,
        fun _ h => isAcked_of_register h, rfl, rfl, rfl, rfl⟩
  | @send m more done hm hmore _ htargets hdone hdoneTargets =>
    obtain ⟨hspec, htype⟩ := n.sendStep_spec m
    cases hr : n.sendStep m with
    | mk n' r =>
      rw [hr] at hspec htype
      have hsent : n'.sent = n.sent ∨ ∃ d : Datagram, n'.sent = n.sent ++ [d] ∧
          ∃ m, n.sender.sending = some m ∧ d.msg.type = m.type := by
        rcases hspec.sent with h | ⟨d, hd, h⟩
        · exact Or.inl h
        · exact Or.inr ⟨d, h, m, hm, hd⟩
      have hacked : ∀ seq, n'.isAcked seq → n.isAcked seq := by
        intro seq h
        unfold Node.isAcked at h ⊢
        rwa [← hspec.pendingAcks]
      cases r with
      | none =>
        exact ⟨hspec.listEffect, fun id hid => Or.inl (by rwa [← hdoneTargets]),
          fun m hm => Or.inl (hquiet hdone.1 m hm), hsent, hacked, hspec.receiver, hspec.clock,
          hspec.config, hspec.socket⟩
      | some m' =>
        refine ⟨hspec.listEffect, fun id hid => Or.inl (by rwa [← htargets m']), ?_,
          hsent, hacked, hspec.receiver, hspec.clock, hspec.config, hspec.socket⟩
        intro m'' hm''
        have heq : m'' = m' := Option.some.inj (hm''.symm.trans (hmore m'))
        exact Or.inr ⟨m, hm, by rw [heq]; exact htype m' rfl⟩
  | suspect hpc =>
    exact ⟨.suspect hpc, (by intro id hid; cases hid), (by intro m hm; cases hm), Or.inl rfl,
      fun _ h => h, rfl, rfl, rfl, rfl⟩
  | expire hpc hexp =>
    exact ⟨.expire hpc hexp,
      (fun id hid => Or.inl (by rw [hpc]; exact List.mem_cons_of_mem _ hid)),
      (by intro m hm; cases hm), Or.inl rfl, fun _ h => h, rfl, rfl, rfl, rfl⟩

theorem senderStep_spec (hs : n.senderStep c = some n') : SenderSpec c n n' :=
  (senderStep_move hs).spec

/-! ## The receiver thread -/

theorem recordAck_eq (n : Node) (seq : ℕ) :
    n.recordAck seq = { n with pendingAcks := (n.recordAck seq).pendingAcks } := by
  unfold recordAck
  cases n.pendingAcks.lookup seq <;> rfl

/-- The ways in which a step of the receiver thread changes the node, by its program counter. -/
inductive ReceiverMove (n : Node) : Node → Prop
  | receive {msg : GossipMessage} {src : Address} {socket : List (GossipMessage × Address)} :
      n.receiver = .receive → n.socket = (msg, src) :: socket →
      ReceiverMove n { n with socket := socket, receiver := .updates msg src msg.updates }
  | handled {msg : GossipMessage} {src : Address} : n.receiver = .updates msg src [] →
      ReceiverMove n { n with receiver := .dispatch msg src }
  | toRefute {msg : GossipMessage} {src : Address} {u : MembershipUpdate}
      {rest : List MembershipUpdate} : n.receiver = .updates msg src (u :: rest) →
      n.mustRefute u = true → ReceiverMove n { n with receiver := .refute msg src u rest }
  | toApply {msg : GossipMessage} {src : Address} {u : MembershipUpdate}
      {rest : List MembershipUpdate} : n.receiver = .updates msg src (u :: rest) →
      n.mustRefute u = false → ReceiverMove n { n with receiver := .apply msg src u rest }
  | refute {msg : GossipMessage} {src : Address} {u : MembershipUpdate}
      {rest : List MembershipUpdate} : n.receiver = .refute msg src u rest →
      ReceiverMove n
        { n with list := n.list.incrementMyIncarnation, receiver := .apply msg src u rest }
  | apply {msg : GossipMessage} {src : Address} {u : MembershipUpdate}
      {rest : List MembershipUpdate} : n.receiver = .apply msg src u rest →
      ReceiverMove n
        { n with list := (n.list.applyUpdate n.clock u).list, receiver := .updates msg src rest }
  | ping {msg : GossipMessage} {src : Address} : n.receiver = .dispatch msg src →
      msg.type = .ping →
      ReceiverMove n
        { n with
          list := if msg.senderId ≠ "" then n.list.addMember msg.senderId src.toString else n.list
          receiver := .ackPing (.collect ⟨src, .ack, "", msg.sequenceNum⟩) }
  | unknown {msg : GossipMessage} {src : Address} : n.receiver = .dispatch msg src →
      msg.type = .pingReq → n.list.getMember msg.targetId = none →
      ReceiverMove n { n with receiver := .receive }
  | pingReq {msg : GossipMessage} {src : Address} {target : MemberInfo} :
      n.receiver = .dispatch msg src → msg.type = .pingReq →
      n.list.getMember msg.targetId = some target →
      ReceiverMove n { n with receiver := .relayProbe msg src target }
  | ack {msg : GossipMessage} {src : Address} : n.receiver = .dispatch msg src →
      msg.type = .ack →
      ReceiverMove n
        { n with pendingAcks := (n.recordAck msg.sequenceNum).pendingAcks, receiver := .receive }
  | ackPing {m : Sending} : n.receiver = .ackPing m →
      ReceiverMove n (match n.sendStep m with
        | (n', some m') => { n' with receiver := .ackPing m' }
        | (n', none) => { n' with receiver := .receive })
  | relayProbe {msg : GossipMessage} {src : Address} {target : MemberInfo} :
      n.receiver = .relayProbe msg src target →
      ReceiverMove n (n.register.withAddress target.address fun dest =>
        { n.register with
          receiver := .relayPing msg src n.nextSeqNum
            (.collect ⟨dest, .ping, "", n.nextSeqNum⟩) })
  | relayPing {msg : GossipMessage} {src : Address} {probeSeq : ℕ} {m : Sending} :
      n.receiver = .relayPing msg src probeSeq m →
      ReceiverMove n (match n.sendStep m with
        | (n', some m') => { n' with receiver := .relayPing msg src probeSeq m' }
        | (n', none) => { n' with receiver := .relayWait msg src probeSeq .enter })
  | waiting {msg : GossipMessage} {src : Address} {probeSeq : ℕ} {w w' : Wait} :
      n.receiver = .relayWait msg src probeSeq w →
      ReceiverMove n { n with receiver := .relayWait msg src probeSeq w' }
  | answered {msg : GossipMessage} {src : Address} {probeSeq : ℕ} {w : Wait} :
      n.receiver = .relayWait msg src probeSeq w →
      n.waitStep (n.isAcked probeSeq) w = some (.inl true) →
      ReceiverMove n
        { n with receiver := .relayAck probeSeq (.collect ⟨src, .ack, "", msg.sequenceNum⟩) }
  | timedOut {msg : GossipMessage} {src : Address} {probeSeq : ℕ} {w : Wait} :
      n.receiver = .relayWait msg src probeSeq w →
      ReceiverMove n { n with receiver := .relayForget probeSeq }
  | relayAck {probeSeq : ℕ} {m : Sending} : n.receiver = .relayAck probeSeq m →
      ReceiverMove n (match n.sendStep m with
        | (n', some m') => { n' with receiver := .relayAck probeSeq m' }
        | (n', none) => { n' with receiver := .relayForget probeSeq })
  | relayForget {probeSeq : ℕ} : n.receiver = .relayForget probeSeq →
      ReceiverMove n { n.eraseAck probeSeq with receiver := .receive }

theorem dispatchStep_move {msg : GossipMessage} {src : Address}
    (hpc : n.receiver = .dispatch msg src) : ReceiverMove n (n.dispatchStep msg src) := by
  unfold dispatchStep
  cases htype : msg.type with
  | ping => exact .ping hpc htype
  | pingReq =>
    dsimp only
    cases hmember : n.list.getMember msg.targetId with
    | none => exact .unknown hpc htype hmember
    | some target => exact .pingReq hpc htype hmember
  | ack =>
    dsimp only
    rw [recordAck_eq]
    exact .ack hpc htype

/-- **One step of the receiver thread.** -/
theorem receiverStep_move (hs : n.receiverStep = some n') : ReceiverMove n n' := by
  unfold Node.receiverStep at hs
  cases hpc : n.receiver <;> rw [hpc] at hs
  case receive =>
    cases hsock : n.socket with
    | nil => rw [hsock] at hs; cases hs
    | cons d socket =>
      rw [hsock] at hs
      cases hs
      exact .receive hpc hsock
  case updates msg src rest =>
    cases rest with
    | nil => cases hs; exact .handled hpc
    | cons u rest =>
      cases hs
      split_ifs with hrefute
      · exact .toRefute hpc hrefute
      · exact .toApply hpc (Bool.not_eq_true _ ▸ hrefute)
  case refute => cases hs; exact .refute hpc
  case apply => cases hs; exact .apply hpc
  case dispatch => cases hs; exact dispatchStep_move hpc
  case ackPing => cases hs; exact .ackPing hpc
  case relayProbe => cases hs; exact .relayProbe hpc
  case relayPing => cases hs; exact .relayPing hpc
  case relayWait =>
    obtain ⟨r, hr, rfl⟩ := Option.map_eq_some_iff.mp hs
    rcases r with (_ | _) | w'
    · exact .timedOut hpc
    · exact .answered hpc hr
    · exact .waiting hpc
  case relayAck => cases hs; exact .relayAck hpc
  case relayForget => cases hs; exact .relayForget hpc

/-- What a step of the receiver thread can do. -/
structure ReceiverSpec (n n' : Node) : Prop where
  list : ListEffect n .receiver n'.list
  sender : n'.sender = n.sender
  clock : n'.clock = n.clock
  config : n'.config = n.config

theorem ReceiverSpec.send (m : Sending) (more : Sending → ReceiverPc) (done : ReceiverPc) :
    ReceiverSpec n (match n.sendStep m with
      | (n', some m') => { n' with receiver := more m' }
      | (n', none) => { n' with receiver := done }) := by
  obtain ⟨hspec, -⟩ := n.sendStep_spec m
  refine sendStep_elim (fun n' m' hr => ?_) fun n' hr => ?_ <;> rw [hr] at hspec <;>
    exact ⟨hspec.listEffect, hspec.sender, hspec.clock, hspec.config⟩

theorem receiverStep_spec (hs : n.receiverStep = some n') : ReceiverSpec n n' := by
  cases receiverStep_move hs with
  | refute hpc => exact ⟨.refute hpc, rfl, rfl, rfl⟩
  | apply hpc => exact ⟨.apply hpc, rfl, rfl, rfl⟩
  | @ping msg src =>
    refine ⟨?_, rfl, rfl, rfl⟩
    dsimp only
    split_ifs
    · exact .add [(msg.senderId, src.toString)]
    · exact .keep
  | relayProbe =>
    unfold Node.withAddress
    split <;> exact ⟨.keep, rfl, rfl, rfl⟩
  | ackPing | relayPing | relayAck => exact .send ..
  | receive | handled | toRefute | toApply | unknown | pingReq | ack | waiting | answered
  | timedOut | relayForget => exact ⟨.keep, rfl, rfl, rfl⟩

/-! ## `LeaveCluster` -/

/-- The ways in which a step of `LeaveCluster` changes the node. -/
inductive LeaverMove (n : Node) : Node → Prop
  | snapshot : n.leaver = .idle →
      LeaverMove n { n with leaver := .readIncarnation (n.list.getMembersByState .alive) }
  | readIncarnation {peers : List Peer} : n.leaver = .readIncarnation peers →
      LeaverMove n
        { n with
          leaver := .announce
            { memberId := n.list.myId, address := n.myAddress, state := .dead,
              incarnation := (n.list.myIncarnation + 1) % 2 ^ 64 } peers }
  | done {leave : MembershipUpdate} : n.leaver = .announce leave [] →
      LeaverMove n { n with leaver := .idle }
  | announce {leave : MembershipUpdate} {peer : Peer} {peers : List Peer} :
      n.leaver = .announce leave (peer :: peers) →
      LeaverMove n
        (withAddress { n with nextSeqNum := (n.nextSeqNum + 1) % 2 ^ 64 } peer.2.address fun dest =>
          { n with
            nextSeqNum := (n.nextSeqNum + 1) % 2 ^ 64
            sent := n.sent ++ [⟨dest, ⟨.ping, n.list.myId, "", n.nextSeqNum, [leave]⟩⟩]
            leaver := .announce leave peers })

theorem leaverStep_move (hs : n.leaverStep = some n') : LeaverMove n n' := by
  unfold Node.leaverStep at hs
  split at hs <;> cases hs
  · exact .snapshot ‹_›
  · exact .readIncarnation ‹_›
  · exact .done ‹_›
  · exact .announce ‹_›

/-! ## One step of the node -/

theorem joinCluster_list (n : Node) (seeds : List String) :
    (n.joinCluster seeds).list = n.list.addMembers
      ((seeds.filter fun addr => addr ≠ n.myAddress).map fun addr => ("seed-" ++ addr, addr)) := by
  unfold Node.joinCluster MembershipList.addMembers
  dsimp only
  rw [List.foldl_map, List.foldl_filter]
  congr 1
  funext L addr
  by_cases h : addr = n.myAddress <;> simp [h]

/-- What one step of a node can do. -/
structure StepSpec (n : Node) (a : Act) (n' : Node) : Prop where
  list : ListEffect n a n'.list
  targets : ∀ id ∈ n'.sender.targets, id ∈ n.sender.targets ∨ id ≠ n.list.myId
  sending : ∀ m, n'.sender.sending = some m →
    m.type ≠ .ack ∨ ∃ m₀, n.sender.sending = some m₀ ∧ m.type = m₀.type
  sender : (∀ c, a ≠ .sender c) → n'.sender = n.sender
  receiver : a ≠ .receiver → n'.receiver = n.receiver
  sent : a ≠ .receiver → n'.sent = n.sent ∨ ∃ d : Datagram, n'.sent = n.sent ++ [d] ∧
    (d.msg.type = .ping ∨ ∃ m, n.sender.sending = some m ∧ d.msg.type = m.type)
  acked : a ≠ .receiver → ∀ seq, n'.isAcked seq → n.isAcked seq
  clock : n.clock ≤ n'.clock
  clock_eq : (∀ ns, a ≠ .tick ns) → n'.clock = n.clock
  config : n'.config = n.config

/-- A step of neither thread. -/
theorem StepSpec.outside (hlist : ListEffect n a n'.list) (hsender : n'.sender = n.sender)
    (hreceiver : n'.receiver = n.receiver)
    (hsent : n'.sent = n.sent ∨ ∃ d : Datagram, n'.sent = n.sent ++ [d] ∧ d.msg.type = .ping)
    (hacks : n'.pendingAcks = n.pendingAcks) (hclock : n.clock ≤ n'.clock)
    (hclock' : (∀ ns, a ≠ .tick ns) → n'.clock = n.clock) (hconfig : n'.config = n.config) :
    StepSpec n a n' where
  list := hlist
  targets id hid := Or.inl (hsender ▸ hid)
  sending m hm := Or.inr ⟨m, hsender ▸ hm, rfl⟩
  sender _ := hsender
  receiver _ := hreceiver
  sent _ := by
    rcases hsent with h | ⟨d, h, ht⟩
    · exact Or.inl h
    · exact Or.inr ⟨d, h, Or.inl ht⟩
  acked _ seq h := by
    unfold Node.isAcked at h ⊢
    rwa [← hacks]
  clock := hclock
  clock_eq := hclock'
  config := hconfig

theorem SenderSpec.stepSpec (h : SenderSpec c n n') : StepSpec n (.sender c) n' where
  list := h.list
  targets := h.targets
  sending := h.sending
  sender hc := absurd rfl (hc c)
  receiver _ := h.receiver
  sent _ := by
    rcases h.sent with h | ⟨d, h, ht⟩
    · exact Or.inl h
    · exact Or.inr ⟨d, h, Or.inr ht⟩
  acked _ := h.acked
  clock := h.clock.ge
  clock_eq _ := h.clock
  config := h.config

theorem ReceiverSpec.stepSpec (h : ReceiverSpec n n') : StepSpec n .receiver n' where
  list := h.list
  targets _ hid := Or.inl (h.sender ▸ hid)
  sending m hm := Or.inr ⟨m, h.sender ▸ hm, rfl⟩
  sender _ := h.sender
  receiver hr := absurd rfl hr
  sent hr := absurd rfl hr
  acked hr := absurd rfl hr
  clock := h.clock.ge
  clock_eq _ := h.clock
  config := h.config

theorem leaverStep_spec (hs : n.leaverStep = some n') : StepSpec n .leaver n' := by
  cases leaverStep_move hs with
  | snapshot | readIncarnation | done =>
    exact .outside .keep rfl rfl (Or.inl rfl) rfl (le_refl _) (fun _ => rfl) rfl
  | announce =>
    unfold Node.withAddress
    split
    · exact .outside .keep rfl rfl (Or.inr ⟨_, rfl, rfl⟩) rfl (le_refl _) (fun _ => rfl) rfl
    · exact .outside .keep rfl rfl (Or.inl rfl) rfl (le_refl _) (fun _ => rfl) rfl

/-- The steps of a node: those of its three threads go on until an exception ends the process. -/
inductive StepMove (n : Node) : Act → Node → Prop
  | tick (ns : ℕ) : StepMove n (.tick ns) { n with clock := n.clock + ns }
  | setMyLoad (activeRequests maxCapacity : ℤ) (modelVersion : String) :
      StepMove n (.setMyLoad activeRequests maxCapacity modelVersion)
        { n with
          myActiveRequests := activeRequests
          myMaxCapacity := maxCapacity
          myModelVersion := modelVersion }
  | joinCluster (seeds : List String) : StepMove n (.joinCluster seeds) (n.joinCluster seeds)
  | arrive (msg : GossipMessage) (src : Address) :
      StepMove n (.arrive msg src) { n with socket := n.socket ++ [(msg, src)] }
  | sender {c : Choice} {n' : Node} : n.crashed = false → n.senderStep c = some n' →
      StepMove n (.sender c) n'
  | receiver {n' : Node} : n.crashed = false → n.receiverStep = some n' → StepMove n .receiver n'
  | leaver {n' : Node} : n.crashed = false → n.leaverStep = some n' → StepMove n .leaver n'

theorem step_move (hs : n.step a = some n') : StepMove n a n' := by
  unfold Node.step at hs
  cases a with
  | tick ns => cases hs; exact .tick ns
  | setMyLoad r c v => cases hs; exact .setMyLoad r c v
  | joinCluster seeds =>
    dsimp only at hs
    split_ifs at hs
    cases hs
    exact .joinCluster seeds
  | arrive msg src => cases hs; exact .arrive msg src
  | sender c =>
    dsimp only at hs
    split_ifs at hs with hc
    exact .sender (Bool.not_eq_true _ ▸ hc) hs
  | receiver =>
    dsimp only at hs
    split_ifs at hs with hc
    exact .receiver (Bool.not_eq_true _ ▸ hc) hs
  | leaver =>
    dsimp only at hs
    split_ifs at hs with hc
    exact .leaver (Bool.not_eq_true _ ▸ hc) hs

/-- **One step of a node.** -/
theorem step_spec (hs : n.step a = some n') : StepSpec n a n' := by
  cases step_move hs with
  | tick ns =>
    exact .outside .keep rfl rfl (Or.inl rfl) rfl (Nat.le_add_right _ _) (fun h => absurd rfl (h ns))
      rfl
  | setMyLoad | arrive =>
    exact .outside .keep rfl rfl (Or.inl rfl) rfl (le_refl _) (fun _ => rfl) rfl
  | joinCluster seeds =>
    refine .outside ?_ rfl rfl (Or.inl rfl) rfl (le_refl _) (fun _ => rfl) rfl
    rw [joinCluster_list]
    exact .add _
  | sender _ hs => exact (senderStep_spec hs).stepSpec
  | receiver _ hs => exact (receiverStep_spec hs).stepSpec
  | leaver _ hs => exact leaverStep_spec hs

/-! ## What has been sent -/

theorem sendStep_sent (n : Node) (m : Sending) : n.sent <+: (n.sendStep m).1.sent := by
  rcases (n.sendStep_spec m).1.sent with h | ⟨d, -, h⟩
  · exact h ▸ List.prefix_rfl
  · rw [h]
    exact List.prefix_append _ _

theorem receiverStep_sent (hs : n.receiverStep = some n') : n.sent <+: n'.sent := by
  cases receiverStep_move hs with
  | relayProbe =>
    unfold Node.withAddress
    split <;> exact List.prefix_rfl
  | @ackPing m | @relayPing _ _ _ m | @relayAck _ m =>
    have h := n.sendStep_sent m
    refine sendStep_elim (C := fun n' => n.sent <+: n'.sent) (fun n' m' hr => ?_) fun n' hr => ?_ <;>
      rwa [hr] at h
  | receive | handled | toRefute | toApply | refute | apply | ping | unknown | pingReq | ack
  | waiting | answered | timedOut | relayForget => exact List.prefix_rfl

theorem step_sent (hs : n.step a = some n') : n.sent <+: n'.sent := by
  by_cases ha : a = .receiver
  · subst ha
    exact receiverStep_sent (receiverStep_of_step hs)
  · rcases (step_spec hs).sent ha with h | ⟨d, h, -⟩
    · exact h ▸ List.prefix_rfl
    · rw [h]
      exact List.prefix_append _ _

end Node

end LlmGateway.Gossip
