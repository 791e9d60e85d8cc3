import Mathlib.Algebra.Order.Group.Multiset
import LlmGateway.Gossip.IndirectProbe

/-!
# Sequence numbers

A node draws the numbers of its probes from one counter: for the direct pings and the `PING_REQ`s of
`DoPingRound`, for the proxy pings of `HandlePingReq` and for the pings of `LeaveCluster`. An ACK is
matched by its number alone, so everything rests on no number being drawn twice.

1. `drawn`: the numbers of the probes a node has sent or is about to send. A step that draws adds
   the next number, and no other step adds any (`step_drawn`); a run that draws no more than `2 ^ 64`
   numbers draws none twice (`Numbered.step`).
2. `Pending`: what is in `pending_acks_` belongs to a call in progress, of `DoPingRound` or of
   `HandlePingReq` (`Pending.step`, `pendingAcks_eq_empty`).
-/

namespace LlmGateway.Gossip

open Transition

def Sending.outgoing : Sending → Outgoing
  | .collect o => o
  | .transmit o _ => o

/-- A `PING` or a `PING_REQ`. -/
def Datagram.isProbe (d : Datagram) : Bool := d.msg.type ≠ .ack

/-- The number of the probe a call is about to send. -/
def unsent : Option Sending → Multiset ℕ
  | some m => if m.outgoing.type = .ack then 0 else {m.outgoing.seqNum}
  | none => 0

theorem unsent_collect {o : Outgoing} (h : o.type ≠ .ack) :
    unsent (some (.collect o)) = {o.seqNum} := if_neg h

namespace Node

variable {n n' : Node} {a : Act} {c : Choice} {k : ℕ}

/-- The numbers of the probes the node has sent. -/
def sentNumbers (n : Node) : List ℕ :=
  (n.sent.filter Datagram.isProbe).map fun d => d.msg.sequenceNum

/-- The numbers of the probes the node has sent or is about to send. -/
def drawn (n : Node) : Multiset ℕ :=
  n.sentNumbers + unsent n.sender.sending + unsent n.receiver.sending

/-- The step executes `next_seq_num_.fetch_add(1)`. -/
def draws (n : Node) : Act → Bool
  | .sender _ =>
    match n.sender with
    | .probe _ | .probeProxy _ _ _ _ => true
    | _ => false
  | .receiver =>
    match n.receiver with
    | .relayProbe _ _ _ => true
    | _ => false
  | .leaver =>
    match n.leaver with
    | .announce _ (_ :: _) => true
    | _ => false
  | _ => false

/-- A step that draws takes the next number, and only such a step adds one. -/
structure DrawSpec (n : Node) (draws : Bool) (n' : Node) : Prop where
  next : n'.nextSeqNum = if draws then (n.nextSeqNum + 1) % 2 ^ 64 else n.nextSeqNum
  drawn : n'.drawn ≤ n.drawn + if draws then {n.nextSeqNum} else 0

theorem unsent_le {p q : Option Sending} (h : p = q ∨ p = none) : unsent p ≤ unsent q := by
  rcases h with rfl | rfl
  · exact le_refl _
  · exact Multiset.zero_le _

theorem DrawSpec.of_le (hnext : n'.nextSeqNum = n.nextSeqNum) (hle : n'.drawn ≤ n.drawn) :
    DrawSpec n false n' where
  next := hnext
  drawn := hle.trans (le_of_eq (add_zero _).symm)

theorem DrawSpec.keep (hnext : n'.nextSeqNum = n.nextSeqNum) (hsent : n'.sent = n.sent)
    (hsender : n'.sender.sending = n.sender.sending ∨ n'.sender.sending = none)
    (hreceiver : n'.receiver.sending = n.receiver.sending ∨ n'.receiver.sending = none) :
    DrawSpec n false n' := by
  refine .of_le hnext ?_
  unfold Node.drawn Node.sentNumbers
  rw [hsent]
  exact add_le_add (add_le_add_right (unsent_le hsender) _) (unsent_le hreceiver)

theorem sentNumbers_snoc {d : Datagram} (hsent : n'.sent = n.sent ++ [d]) :
    (n'.sentNumbers : Multiset ℕ) =
      n.sentNumbers + if d.msg.type = .ack then 0 else {d.msg.sequenceNum} := by
  unfold Node.sentNumbers
  rw [hsent, List.filter_append, List.map_append, ← Multiset.coe_add]
  congr 1
  by_cases h : d.msg.type = .ack <;> simp [Datagram.isProbe, h]

/-- **`SendMessage`.** The number of its probe is on its way, then sent. -/
theorem sendStep_drawn (n : Node) (m : Sending) :
    (n.sendStep m).1.nextSeqNum = n.nextSeqNum ∧
      ((n.sendStep m).1.sentNumbers : Multiset ℕ) + unsent (n.sendStep m).2 ≤
        n.sentNumbers + unsent (some m) := by
  cases m with
  | collect o =>
    rcases n.sendStep_collect o with h | ⟨k, h⟩ <;> rw [h]
    · exact ⟨rfl, add_le_add_right (Multiset.zero_le _) _⟩
    · exact ⟨rfl, le_refl _⟩
  | transmit o updates =>
    refine ⟨rfl, le_of_eq ?_⟩
    rw [sentNumbers_snoc (n := n) rfl]
    exact add_zero _

/-- A `SendMessage` step of a thread, when the other one is about to send `other`. -/
theorem DrawSpec.send {m : Sending} (other : Multiset ℕ) {more : Node → Sending → Node}
    {done : Node → Node} (hm : n.drawn = n.sentNumbers + unsent (some m) + other)
    (hmore : ∀ n' m', SendSpec n m n' → (more n' m').nextSeqNum = n'.nextSeqNum ∧
      (more n' m').drawn = n'.sentNumbers + unsent (some m') + other)
    (hdone : ∀ n', SendSpec n m n' → (done n').nextSeqNum = n'.nextSeqNum ∧
      (done n').drawn = n'.sentNumbers + unsent none + other) :
    DrawSpec n false (match n.sendStep m with
      | (n', some m') => more n' m'
      | (n', none) => done n') := by
  obtain ⟨hspec, -⟩ := n.sendStep_spec m
  obtain ⟨hnext, hle⟩ := n.sendStep_drawn m
  have hto : ∀ n' s, s.nextSeqNum = n'.nextSeqNum → ∀ r, n.sendStep m = (n', r) →
      s.drawn = n'.sentNumbers + unsent r + other → DrawSpec n false s := by
    intro n' s hseq r hr hdrawn
    rw [hr] at hnext hle
    refine .of_le (hseq.trans hnext) ?_
    rw [hdrawn, hm]
    exact add_le_add_left hle _
  refine sendStep_elim (fun n' m' hr => ?_) fun n' hr => ?_ <;> rw [hr] at hspec
  · exact hto n' _ (hmore n' m' hspec).1 _ hr (hmore n' m' hspec).2
  · exact hto n' _ (hdone n' hspec).1 _ hr (hdone n' hspec).2

theorem DrawSpec.register {s : String} {k : Address → Node}
    (hnext : ∀ dest, (k dest).nextSeqNum = (n.nextSeqNum + 1) % 2 ^ 64)
    (hdrawn : ∀ dest, (k dest).drawn ≤ n.drawn + {n.nextSeqNum}) :
    DrawSpec n true (n.register.withAddress s k) := by
  unfold Node.withAddress
  cases parseAddress s with
  | ok dest => exact ⟨hnext dest, hdrawn dest⟩
  | error _ => exact ⟨rfl, le_add_of_nonneg_right (Multiset.zero_le _)⟩

theorem senderStep_drawn (hs : n.senderStep c = some n') :
    DrawSpec n (n.draws (.sender c)) n' := by
  have hprobe : ∀ {pc : SenderPc} {o : Outgoing}, pc.sending = some (.collect o) →
      n.sender.sending = none → o.type ≠ .ack → o.seqNum = n.nextSeqNum →
      ({ n.register with sender := pc } : Node).drawn ≤ n.drawn + {n.nextSeqNum} := by
    intro pc o hpc hnone htype hseq
    unfold Node.drawn
    show (n.sentNumbers : Multiset ℕ) + unsent pc.sending + unsent n.receiver.sending ≤ _
    rw [hpc, hnone, unsent_collect htype, hseq, add_right_comm]
    exact le_of_eq (by rw [show unsent none = 0 from rfl, add_zero])
  cases hpc : n.sender
  case probe peer =>
    have hd : n.draws (.sender c) = true := by unfold Node.draws; rw [hpc]
    rw [hd]
    unfold Node.senderStep Node.pingRoundStep at hs
    rw [hpc] at hs
    cases hs
    refine .register (fun _ => rfl) fun dest => hprobe rfl ?_ nofun rfl
    rw [hpc]
    rfl
  case probeProxy peer seq r proxy =>
    have hd : n.draws (.sender c) = true := by unfold Node.draws; rw [hpc]
    rw [hd]
    unfold Node.senderStep Node.pingRoundStep at hs
    rw [hpc] at hs
    cases hs
    refine .register (fun _ => rfl) fun dest => hprobe rfl ?_ nofun rfl
    rw [hpc]
    rfl
  all_goals
    have hd : n.draws (.sender c) = false := by unfold Node.draws; rw [hpc]
    have haddresses : n.sender.addresses = [] := by rw [hpc]; rfl
    rw [hd]
    cases senderStep_move hs with
    | goto seqs hquiet _ => exact .keep rfl rfl (Or.inr hquiet.1) (Or.inl rfl)
    | pick _ hsending _ _ => exact .keep rfl rfl (Or.inr hsending) (Or.inl rfl)
    | probe hone => rw [haddresses] at hone; cases hone
    | send hm hmore _ _ hdone _ =>
      refine .send (unsent n.receiver.sending) (by rw [Node.drawn, hm])
        (fun n' m' h => ⟨rfl, ?_⟩) fun n' h => ⟨rfl, ?_⟩
      · rw [Node.drawn, hmore, ← h.receiver]
        rfl
      · rw [Node.drawn, hdone.1, ← h.receiver]
        rfl
    | suspect _ => exact .keep rfl rfl (Or.inr rfl) (Or.inl rfl)
    | expire _ _ => exact .keep rfl rfl (Or.inr rfl) (Or.inl rfl)

theorem receiverStep_drawn (hs : n.receiverStep = some n') :
    DrawSpec n (n.draws .receiver) n' := by
  unfold Node.draws
  cases receiverStep_move hs with
  | ping hpc =>
    -- an ACK repeats the number of what it answers
    rw [hpc]
    refine .of_le rfl ?_
    unfold Node.drawn
    rw [hpc]
    exact le_refl _
  | answered hpc =>
    rw [hpc]
    refine .of_le rfl ?_
    unfold Node.drawn
    rw [hpc]
    exact le_refl _
  | relayProbe hpc =>
    rw [hpc]
    refine .register (fun _ => rfl) fun dest => ?_
    unfold Node.drawn
    rw [hpc]
    show (n.sentNumbers : Multiset ℕ) + unsent n.sender.sending + {n.nextSeqNum} ≤
      n.sentNumbers + unsent n.sender.sending + 0 + {n.nextSeqNum}
    rw [add_zero]
  | ackPing hpc | relayPing hpc | relayAck hpc =>
    rw [hpc]
    refine .send (unsent n.sender.sending) ?_ (fun n' m' h => ⟨rfl, ?_⟩) fun n' h => ⟨rfl, ?_⟩
    · rw [Node.drawn, hpc, add_right_comm]
      rfl
    · rw [Node.drawn, ← h.sender, add_right_comm]
      rfl
    · rw [Node.drawn, ← h.sender, add_right_comm]
      rfl
  | receive hpc | handled hpc | toRefute hpc | toApply hpc | refute hpc | apply hpc | unknown hpc
  | pingReq hpc | ack hpc | waiting hpc | timedOut hpc | relayForget hpc =>
    rw [hpc]
    exact .keep rfl rfl (Or.inl rfl) (Or.inr rfl)

theorem leaverStep_drawn (hs : n.leaverStep = some n') : DrawSpec n (n.draws .leaver) n' := by
  unfold Node.draws
  cases leaverStep_move hs with
  | snapshot hpc | readIncarnation hpc | done hpc =>
    rw [hpc]
    exact .keep rfl rfl (Or.inl rfl) (Or.inl rfl)
  | @announce leave peer peers hpc =>
    rw [hpc]
    unfold Node.withAddress
    cases parseAddress peer.2.address with
    | error _ => exact ⟨rfl, le_add_of_nonneg_right (Multiset.zero_le _)⟩
    | ok dest =>
      refine ⟨rfl, ?_⟩
      unfold Node.drawn
      rw [sentNumbers_snoc (n := n) rfl]
      refine le_of_eq ?_
      show (n.sentNumbers : Multiset ℕ) + {n.nextSeqNum} + unsent n.sender.sending +
        unsent n.receiver.sending = n.sentNumbers + unsent n.sender.sending +
        unsent n.receiver.sending + {n.nextSeqNum}
      ac_rfl

/-- **What a step draws.** -/
theorem step_drawn (hs : n.step a = some n') : DrawSpec n (n.draws a) n' := by
  cases step_move hs with
  | tick | setMyLoad | arrive | joinCluster => exact .keep rfl rfl (Or.inl rfl) (Or.inl rfl)
  | sender _ hs => exact senderStep_drawn hs
  | receiver _ hs => exact receiverStep_drawn hs
  | leaver _ hs => exact leaverStep_drawn hs

/-- The number a node draws after `k` others. -/
def seqAt (k : ℕ) : ℕ := (1 + k) % 2 ^ 64

theorem seqAt_injective {j k : ℕ} (hj : j < k) (hk : k < 2 ^ 64) : seqAt j ≠ seqAt k := by
  unfold seqAt
  omega

/-- The node has drawn `k` numbers, and while they are at most `2 ^ 64` none of them twice. -/
structure Numbered (k : ℕ) (n : Node) : Prop where
  next : n.nextSeqNum = seqAt k
  earlier : ∀ s ∈ n.drawn, ∃ j < k, s = seqAt j
  nodup : k ≤ 2 ^ 64 → n.drawn.Nodup

theorem create_numbered (myId myAddress : String) (config : SwimConfig) :
    Numbered 0 (create myId myAddress config) where
  next := rfl
  earlier := by intro s hs; cases hs
  nodup _ := Multiset.nodup_zero

theorem Numbered.step (h : Numbered k n) (hs : n.step a = some n') :
    Numbered (k + if n.draws a then 1 else 0) n' := by
  obtain ⟨hnext, hdrawn⟩ := step_drawn hs
  cases hd : n.draws a <;> rw [hd] at hnext hdrawn
  case false =>
    have hle : n'.drawn ≤ n.drawn := hdrawn.trans (le_of_eq (add_zero _))
    exact ⟨hnext.trans h.next, fun s hs => h.earlier s (Multiset.mem_of_le hle hs),
      fun hk => Multiset.nodup_of_le hle (h.nodup hk)⟩
  case true =>
    have hle : n'.drawn ≤ n.drawn + {n.nextSeqNum} := hdrawn
    refine ⟨?_, fun s hs => ?_, fun hk => Multiset.nodup_of_le hle ?_⟩
    · rw [hnext, h.next]
      unfold seqAt
      simp only [if_true]
      omega
    · rcases Multiset.mem_add.mp (Multiset.mem_of_le hle hs) with hs | hs
      · obtain ⟨j, hj, heq⟩ := h.earlier s hs
        exact ⟨j, Nat.lt_succ_of_lt hj, heq⟩
      · rw [Multiset.mem_singleton.mp hs, h.next]
        exact ⟨k, Nat.lt_succ_self k, rfl⟩
    · have hk : k < 2 ^ 64 := hk
      refine Multiset.nodup_add.mpr ⟨h.nodup hk.le, Multiset.nodup_singleton _, ?_⟩
      rw [Multiset.disjoint_singleton, h.next]
      intro hmem
      obtain ⟨j, hj, heq⟩ := h.earlier _ hmem
      exact seqAt_injective hj hk heq.symm

theorem Numbered.unique (h : Numbered k n) (hk : k ≤ 2 ^ 64) {d d' : Datagram} (hd : d ∈ n.sent)
    (hd' : d' ∈ n.sent) (hprobe : d.isProbe) (hprobe' : d'.isProbe)
    (hseq : d.msg.sequenceNum = d'.msg.sequenceNum) : d = d' := by
  have hle : (n.sentNumbers : Multiset ℕ) ≤ n.drawn := by
    unfold Node.drawn
    rw [add_assoc]
    exact Multiset.le_add_right _ _
  have hnodup : n.sentNumbers.Nodup := Multiset.coe_nodup.mp (Multiset.nodup_of_le hle (h.nodup hk))
  exact List.inj_on_of_nodup_map hnodup (List.mem_filter.mpr ⟨hd, hprobe⟩)
    (List.mem_filter.mpr ⟨hd', hprobe'⟩) hseq

end Node

/-! ## What is in `pending_acks_` -/

/-- The sender thread is in `DoPingRound`, for a peer. -/
def SenderPc.inPingRound : SenderPc → Bool
  | .round | .timeouts | .readClock _ | .expire _ _ => false
  | _ => true

/-- The numbers `DoPingRound` has registered and has still to erase. -/
def SenderPc.registered : SenderPc → List ℕ
  | .ping _ seq _ => [seq]
  | .awaitAck _ seq _ => [seq]
  | .acked seq => [seq]
  | .pickProxy _ seq r => seq :: r.seqs
  | .probeProxy _ seq r _ => seq :: r.seqs
  | .pingReq _ seq r _ => seq :: r.seqs
  | .awaitIndirect _ seq r _ => seq :: r.seqs
  | .forget _ seq _ => [seq]
  | _ => []

/-- The number `HandlePingReq` has registered and has still to erase. -/
def ReceiverPc.registered : ReceiverPc → List ℕ
  | .relayPing _ _ probeSeq _ => [probeSeq]
  | .relayWait _ _ probeSeq _ => [probeSeq]
  | .relayAck probeSeq _ => [probeSeq]
  | .relayForget probeSeq => [probeSeq]
  | _ => []

theorem SenderPc.registered_of_not_inPingRound {pc : SenderPc} (h : ¬ pc.inPingRound) :
    pc.registered = [] := by
  cases pc <;> first | rfl | exact absurd rfl h

theorem ReceiverPc.registered_of_not_inPingReq {pc : ReceiverPc} (h : ¬ pc.inPingReq) :
    pc.registered = [] := by
  cases pc <;> first | rfl | exact absurd rfl h

namespace Node

variable {n n' : Node} {a : Act} {c : Choice}

/-- A registered number belongs to the call in progress on one of the threads; an exception leaves
the call it was raised in unfinished. -/
def Pending (n : Node) : Prop :=
  ∀ s ∈ n.pendingAcks, s ∈ n.sender.registered ∨ s ∈ n.receiver.registered ∨
    (n.crashed ∧ (n.sender.inPingRound ∨ n.receiver.inPingReq))

theorem create_pending (myId myAddress : String) (config : SwimConfig) :
    Pending (create myId myAddress config) := by
  intro s hs
  cases hs

theorem mem_eraseAcks {seqs : List ℕ} {s : ℕ} :
    s ∈ (n.eraseAcks seqs).pendingAcks ↔ s ∉ seqs ∧ s ∈ n.pendingAcks := by
  unfold eraseAcks
  dsimp only
  generalize n.pendingAcks = acks
  induction seqs generalizing acks with
  | nil => simp
  | cons t seqs ih =>
    rw [List.foldl_cons, ih, AList.mem_erase, List.mem_cons, not_or]
    tauto

/-- While the process runs, every registered number is one of a thread. -/
theorem Pending.running (h : n.Pending) (hcrash : n.crashed = false) {s : ℕ}
    (hs : s ∈ n.pendingAcks) : s ∈ n.sender.registered ∨ s ∈ n.receiver.registered := by
  rcases h s hs with hs | hs | ⟨hc, -⟩
  · exact Or.inl hs
  · exact Or.inr hs
  · rw [hcrash] at hc
    cases hc

/-- A step of the sender thread: what it no longer has registered it has erased. -/
theorem Pending.sender (h : n.Pending) (hcrash : n.crashed = false)
    (hreceiver : n'.receiver = n.receiver)
    (hacks : ∀ s ∈ n'.pendingAcks, s ∈ n'.sender.registered ∨
      (s ∈ n.pendingAcks ∧ (s ∈ n.sender.registered → s ∈ n'.sender.registered))) : n'.Pending := by
  intro s hs
  rcases hacks s hs with hs | ⟨hs, hkeep⟩
  · exact Or.inl hs
  · rcases h.running hcrash hs with hs | hs
    · exact Or.inl (hkeep hs)
    · exact Or.inr (Or.inl (hreceiver ▸ hs))

theorem Pending.receiver (h : n.Pending) (hcrash : n.crashed = false)
    (hsender : n'.sender = n.sender)
    (hacks : ∀ s ∈ n'.pendingAcks, s ∈ n'.receiver.registered ∨
      (s ∈ n.pendingAcks ∧ (s ∈ n.receiver.registered → s ∈ n'.receiver.registered))) :
    n'.Pending := by
  intro s hs
  rcases hacks s hs with hs | ⟨hs, hkeep⟩
  · exact Or.inr (Or.inl hs)
  · rcases h.running hcrash hs with hs | hs
    · exact Or.inl (hsender ▸ hs)
    · exact Or.inr (Or.inl (hkeep hs))

theorem Pending.register
    (hcall : n.sender.inPingRound ∨ n.receiver.inPingReq) {s : String} {k : Address → Node}
    (hk : ∀ dest, (k dest).Pending) : (n.register.withAddress s k).Pending := by
  unfold Node.withAddress
  cases parseAddress s with
  | ok dest => exact hk dest
  | error _ => exact fun t _ => Or.inr (Or.inr ⟨rfl, hcall⟩)

/-- `CheckSuspectTimeouts` changes the list alone, and comes to no peer. -/
theorem suspectTimeoutsStep_eq {pc : SenderPc} (hs : n.suspectTimeoutsStep c pc = some n') :
    pc.inPingRound = false ∧
      ∃ L pc', n' = { n with list := L, sender := pc' } ∧ pc'.inPingRound = false := by
  unfold suspectTimeoutsStep at hs
  split at hs
  · split at hs
    · split_ifs at hs
      cases hs
      exact ⟨rfl, _, _, rfl, rfl⟩
    · cases hs
  · cases hs
    exact ⟨rfl, _, _, rfl, rfl⟩
  · cases hs
    exact ⟨rfl, _, _, rfl, rfl⟩
  · split_ifs at hs <;> cases hs <;> exact ⟨rfl, _, _, rfl, rfl⟩
  · cases hs

theorem sendStep_pending {m : Sending} {more : Sending → SenderPc} {done : SenderPc}
    (h : n.Pending) (hcrash : n.crashed = false)
    (hmore : ∀ m, (more m).registered = n.sender.registered)
    (hdone : done.registered = n.sender.registered) :
    (match n.sendStep m with
      | (n', some m') => { n' with sender := more m' }
      | (n', none) => { n' with sender := done } : Node).Pending := by
  obtain ⟨hspec, -⟩ := n.sendStep_spec m
  cases hr : n.sendStep m with
  | mk n' r =>
    rw [hr] at hspec
    have hacks : n'.pendingAcks = n.pendingAcks := hspec.pendingAcks
    cases r with
    | none =>
      refine h.sender hcrash hspec.receiver fun s hs => Or.inr ⟨hacks ▸ hs, fun hmem => ?_⟩
      show s ∈ done.registered
      rwa [hdone]
    | some m' =>
      refine h.sender hcrash hspec.receiver fun s hs => Or.inr ⟨hacks ▸ hs, fun hmem => ?_⟩
      show s ∈ (more m').registered
      rwa [hmore]

theorem sendStep_pendingReceiver {m : Sending} {more : Sending → ReceiverPc} {done : ReceiverPc}
    (h : n.Pending) (hcrash : n.crashed = false)
    (hmore : ∀ m, (more m).registered = n.receiver.registered)
    (hdone : done.registered = n.receiver.registered) :
    (match n.sendStep m with
      | (n', some m') => { n' with receiver := more m' }
      | (n', none) => { n' with receiver := done } : Node).Pending := by
  obtain ⟨hspec, -⟩ := n.sendStep_spec m
  cases hr : n.sendStep m with
  | mk n' r =>
    rw [hr] at hspec
    have hacks : n'.pendingAcks = n.pendingAcks := hspec.pendingAcks
    cases r with
    | none =>
      refine h.receiver hcrash hspec.sender fun s hs => Or.inr ⟨hacks ▸ hs, fun hmem => ?_⟩
      show s ∈ done.registered
      rwa [hdone]
    | some m' =>
      refine h.receiver hcrash hspec.sender fun s hs => Or.inr ⟨hacks ▸ hs, fun hmem => ?_⟩
      show s ∈ (more m').registered
      rwa [hmore]

theorem afterLoop_registered (r : Indirect) (peer : Peer) (seq : ℕ) :
    (r.afterLoop peer seq).registered = seq :: r.seqs := by
  unfold Indirect.afterLoop
  split_ifs with h
  · rw [h]; rfl
  · rfl

theorem Pending.senderStep (h : n.Pending) (hcrash : n.crashed = false)
    (hs : n.senderStep c = some n') : n'.Pending := by
  -- a step that leaves `pending_acks_` alone
  have hkeep : ∀ {L : MembershipList} {pc : SenderPc}, pc.registered = n.sender.registered →
      ({ n with list := L, sender := pc } : Node).Pending := by
    intro L pc hpc
    refine h.sender hcrash rfl fun s hs => Or.inr ⟨hs, fun hmem => ?_⟩
    show s ∈ pc.registered
    rwa [hpc]
  unfold Node.senderStep at hs
  cases hpc : n.sender <;> rw [hpc] at hs hkeep <;> dsimp only [Node.pingRoundStep] at hs
  case round =>
    obtain ⟨r, -, rfl⟩ := Option.map_eq_some_iff.mp hs
    cases r <;> exact hkeep rfl
  case probe peer =>
    cases hs
    refine Pending.register (Or.inl (by rw [hpc]; rfl)) fun dest => ?_
    refine h.sender hcrash rfl fun s hs => ?_
    rcases (AList.mem_insert _).mp hs with rfl | hs
    · exact Or.inl (List.mem_singleton.mpr rfl)
    · exact Or.inr ⟨hs, by rw [hpc]; intro hmem; cases hmem⟩
  case ping peer seq m =>
    cases hs
    exact sendStep_pending h hcrash (fun _ => by rw [hpc]; rfl) (by rw [hpc]; rfl)
  case awaitAck peer seq w =>
    obtain ⟨r, -, rfl⟩ := Option.map_eq_some_iff.mp hs
    rcases r with (_ | _) | w' <;> exact hkeep rfl
  case acked seq =>
    cases hs
    refine h.sender hcrash rfl fun s hs => ?_
    obtain ⟨hne, hs⟩ := AList.mem_erase.mp hs
    refine Or.inr ⟨hs, fun hmem => ?_⟩
    rw [hpc] at hmem
    exact absurd (List.mem_singleton.mp hmem) hne
  case pickProxy peer seq r =>
    split_ifs at hs
    · obtain ⟨p, -, rfl⟩ := Option.map_eq_some_iff.mp hs
      cases p with
      | none => exact hkeep (afterLoop_registered ..)
      | some proxy => exact hkeep rfl
    · cases hs
      exact hkeep (afterLoop_registered ..)
  case probeProxy peer seq r proxy =>
    cases hs
    refine Pending.register (Or.inl (by rw [hpc]; rfl)) fun dest => ?_
    refine h.sender hcrash rfl fun s hs => ?_
    show s ∈ seq :: (r.seqs ++ [n.nextSeqNum]) ∨ _
    rcases (AList.mem_insert _).mp hs with rfl | hs
    · exact Or.inl (by simp)
    · refine Or.inr ⟨hs, fun hmem => ?_⟩
      rw [hpc] at hmem
      show s ∈ seq :: (r.seqs ++ [n.nextSeqNum])
      rcases List.mem_cons.mp hmem with rfl | hmem
      · exact List.mem_cons_self
      · exact List.mem_cons_of_mem _ (List.mem_append_left _ hmem)
  case pingReq peer seq r m =>
    cases hs
    exact sendStep_pending h hcrash (fun _ => by rw [hpc]; rfl) (by rw [hpc]; rfl)
  case awaitIndirect peer seq r w =>
    obtain ⟨p, -, rfl⟩ := Option.map_eq_some_iff.mp hs
    cases p with
    | inr w' => exact hkeep rfl
    | inl got =>
      refine h.sender hcrash rfl fun s hs => ?_
      obtain ⟨hnot, hs⟩ := mem_eraseAcks.mp hs
      refine Or.inr ⟨hs, fun hmem => ?_⟩
      rw [hpc] at hmem
      rcases List.mem_cons.mp hmem with rfl | hmem
      · exact List.mem_singleton.mpr rfl
      · exact absurd hmem hnot
  case forget peer seq got =>
    cases hs
    refine h.sender hcrash rfl fun s hs => ?_
    obtain ⟨hne, hs⟩ := AList.mem_erase.mp hs
    refine Or.inr ⟨hs, fun hmem => ?_⟩
    rw [hpc] at hmem
    exact absurd (List.mem_singleton.mp hmem) hne
  case suspect peer => cases hs; exact hkeep rfl
  case timeouts | readClock | expire =>
    obtain ⟨-, L, pc, rfl, hpc'⟩ := suspectTimeoutsStep_eq hs
    exact hkeep (SenderPc.registered_of_not_inPingRound (by rw [hpc']; exact Bool.false_ne_true))

theorem mem_recordAck {seq s : ℕ} (hs : s ∈ (n.recordAck seq).pendingAcks) : s ∈ n.pendingAcks := by
  unfold recordAck at hs
  cases hl : n.pendingAcks.lookup seq with
  | none => rwa [hl] at hs
  | some b =>
    rw [hl] at hs
    rcases (AList.mem_insert _).mp hs with rfl | hs
    · exact AList.lookup_isSome.mp (by rw [hl]; rfl)
    · exact hs

theorem Pending.receiverStep (h : n.Pending) (hcrash : n.crashed = false)
    (hs : n.receiverStep = some n') : n'.Pending := by
  have hkeep : ∀ {L : MembershipList} {socket : List (GossipMessage × Address)} {pc : ReceiverPc},
      pc.registered = n.receiver.registered →
      ({ n with list := L, socket := socket, receiver := pc } : Node).Pending := by
    intro L socket pc hpc
    refine h.receiver hcrash rfl fun s hs => Or.inr ⟨hs, fun hmem => ?_⟩
    show s ∈ pc.registered
    rwa [hpc]
  cases receiverStep_move hs with
  | ack hpc =>
    refine h.receiver hcrash rfl fun s hs => Or.inr ⟨mem_recordAck hs, fun hmem => ?_⟩
    rw [hpc] at hmem
    cases hmem
  | relayProbe hpc =>
    refine Pending.register (Or.inr (by rw [hpc]; rfl)) fun dest => ?_
    refine h.receiver hcrash rfl fun s hs => ?_
    rcases (AList.mem_insert _).mp hs with rfl | hs
    · exact Or.inl (List.mem_singleton.mpr rfl)
    · exact Or.inr ⟨hs, by rw [hpc]; intro hmem; cases hmem⟩
  | relayForget hpc =>
    refine h.receiver hcrash rfl fun s hs => ?_
    obtain ⟨hne, hs⟩ := AList.mem_erase.mp hs
    refine Or.inr ⟨hs, fun hmem => ?_⟩
    rw [hpc] at hmem
    exact absurd (List.mem_singleton.mp hmem) hne
  | ackPing hpc | relayPing hpc | relayAck hpc =>
    exact sendStep_pendingReceiver h hcrash (fun _ => by rw [hpc]; rfl) (by rw [hpc]; rfl)
  | receive hpc | handled hpc | toRefute hpc | toApply hpc | refute hpc | apply hpc | ping hpc
  | unknown hpc | pingReq hpc | waiting hpc | answered hpc | timedOut hpc =>
    exact hkeep (by rw [hpc]; rfl)

theorem Pending.outside (h : n.Pending) (hacks : n'.pendingAcks = n.pendingAcks)
    (hsender : n'.sender = n.sender) (hreceiver : n'.receiver = n.receiver)
    (hcrash : n.crashed → n'.crashed) : n'.Pending := by
  intro s hs
  rw [hacks] at hs
  rw [hsender, hreceiver]
  rcases h s hs with hs | hs | ⟨hc, hcall⟩
  · exact Or.inl hs
  · exact Or.inr (Or.inl hs)
  · exact Or.inr (Or.inr ⟨hcrash hc, hcall⟩)

theorem Pending.leaverStep (h : n.Pending) (hs : n.leaverStep = some n') : n'.Pending := by
  cases leaverStep_move hs with
  | snapshot | readIncarnation | done => exact h.outside rfl rfl rfl id
  | announce =>
    unfold Node.withAddress
    split
    · exact h.outside rfl rfl rfl id
    · exact h.outside rfl rfl rfl fun _ => rfl

/-- **A step keeps what is registered with the calls in progress.** -/
theorem Pending.step (h : n.Pending) (hs : n.step a = some n') : n'.Pending := by
  cases step_move hs with
  | tick | setMyLoad | arrive | joinCluster => exact h.outside rfl rfl rfl id
  | sender hcrash hs => exact h.senderStep hcrash hs
  | receiver hcrash hs => exact h.receiverStep hcrash hs
  | leaver _ hs => exact h.leaverStep hs

/-- **Outside a call nothing is registered.** -/
theorem pendingAcks_eq_empty (h : n.Pending) (hround : ¬ n.sender.inPingRound)
    (hreq : ¬ n.receiver.inPingReq) : n.pendingAcks = ∅ := by
  have hnone : ∀ s, s ∉ n.pendingAcks := by
    intro s hs
    rcases h s hs with hs | hs | ⟨-, hcall | hcall⟩
    · rw [SenderPc.registered_of_not_inPingRound hround] at hs
      cases hs
    · rw [ReceiverPc.registered_of_not_inPingReq hreq] at hs
      cases hs
    · exact hround hcall
    · exact hreq hcall
  refine AList.ext ?_
  cases hentries : n.pendingAcks.entries with
  | nil => rfl
  | cons e es =>
    refine absurd ?_ (hnone e.1)
    show e.1 ∈ n.pendingAcks.entries.keys
    rw [hentries]
    exact List.mem_cons_self

end Node

end LlmGateway.Gossip
