import LlmGateway.Lib.Transition
import LlmGateway.Gossip.Effects

/-!
# Indirect probes

`HandlePingReq` waits for the target's ACK in the receiver thread, which is the only thread that
takes datagrams from the socket and calls `RecordAck`. So nothing can record the ACK it waits for.

1. `Relay`: while the receiver thread handles a `PING_REQ`, its probe is not acknowledged, and it
   never comes to relay an ACK (`Relay.step`).
2. `relayedAck_never`: whatever reaches the socket meanwhile, the node sends no ACK.
-/

namespace LlmGateway.Gossip

open Transition

/-- The receiver thread is in `HandlePingReq`, for a known target. -/
def ReceiverPc.inPingReq : ReceiverPc → Bool
  | .relayProbe _ _ _ => true
  | .relayPing _ _ _ _ => true
  | .relayWait _ _ _ _ => true
  | .relayAck _ _ => true
  | .relayForget _ => true
  | _ => false

/-- The probe of the `PING_REQ` in progress is not acknowledged, and its ACK is not being relayed. -/
def ReceiverPc.Unacked (isAcked : ℕ → Bool) : ReceiverPc → Prop
  | .relayPing _ _ probeSeq m => m.type ≠ .ack ∧ ¬ isAcked probeSeq
  | .relayWait _ _ probeSeq _ => ¬ isAcked probeSeq
  | .relayAck _ _ => False
  | _ => True

namespace Node

variable {n n' s : Node} {a : Act} {es fs : List Act} {msg : GossipMessage} {src : Address}
  {target : MemberInfo}

/-- The invariant: the sender thread sends only probes, and the receiver thread relays nothing. -/
structure Relay (n : Node) : Prop where
  probes : ∀ m, n.sender.sending = some m → m.type ≠ .ack
  unacked : n.receiver.Unacked n.isAcked

theorem create_relay (myId myAddress : String) (config : SwimConfig) :
    Relay (create myId myAddress config) where
  probes := by intro m hm; cases hm
  unacked := trivial

theorem isAcked_register (n : Node) : ¬ n.register.isAcked n.nextSeqNum := by
  unfold isAcked register
  dsimp only
  rw [AList.lookup_insert]
  decide

theorem waitStep_false (n : Node) (w : Wait) : n.waitStep false w ≠ some (.inl true) := by
  cases w with
  | enter => simp [waitStep]
  | blocked deadline =>
    unfold waitStep
    by_cases h : deadline ≤ n.clock <;> simp [h]

theorem unacked_mono {p q : ℕ → Bool} {pc : ReceiverPc} (h : pc.Unacked p)
    (hq : ∀ seq, q seq → p seq) : pc.Unacked q := by
  cases pc with
  | relayPing msg src probeSeq m => exact ⟨h.1, fun hs => h.2 (hq _ hs)⟩
  | relayWait msg src probeSeq w => exact fun hs => h (hq _ hs)
  | relayAck probeSeq m => exact h
  | _ => trivial

/-- **A step of the receiver thread.** A wait for an ACK that is not recorded only goes on, or
times out. -/
theorem receiverStep_unacked (h : n.receiver.Unacked n.isAcked) (hs : n.receiverStep = some n') :
    n'.receiver.Unacked n'.isAcked := by
  cases receiverStep_move hs with
  | @relayProbe msg src target hpc =>
    unfold Node.withAddress
    cases parseAddress target.address with
    | ok dest => exact ⟨nofun, isAcked_register n⟩
    | error _ =>
      have hcrash : n.register.crash.receiver = n.receiver := rfl
      rw [hcrash, hpc]
      trivial
  | @relayPing msg src probeSeq m hpc =>
    rw [hpc] at h
    obtain ⟨hspec, htype⟩ := n.sendStep_spec m
    cases hr : n.sendStep m with
    | mk n' r =>
      rw [hr] at hspec htype
      have hacked : ¬ n'.isAcked probeSeq := by
        unfold Node.isAcked
        rw [hspec.pendingAcks]
        exact h.2
      cases r with
      | none => exact hacked
      | some m' => exact ⟨by rw [htype m' rfl]; exact h.1, hacked⟩
  | waiting hpc =>
    rw [hpc] at h
    exact h
  | @answered msg src probeSeq w hpc hr =>
    rw [hpc] at h
    have hfalse : n.isAcked probeSeq = false := (Bool.not_eq_true _).mp h
    rw [hfalse] at hr
    exact absurd hr (waitStep_false n w)
  | relayAck hpc =>
    rw [hpc] at h
    exact h.elim
  | @ackPing m =>
    cases n.sendStep m with
    | mk n' r => cases r <;> trivial
  | receive | handled | toRefute | toApply | refute | apply | ping | unknown | pingReq | ack
  | timedOut | relayForget => trivial

theorem Relay.step (h : Relay n) (hs : n.step a = some n') : Relay n' := by
  have hspec := step_spec hs
  refine ⟨?_, ?_⟩
  · intro m hm
    rcases hspec.sending m hm with hne | ⟨m₀, hm₀, ht⟩
    · exact hne
    · rw [ht]
      exact h.probes m₀ hm₀
  · by_cases ha : a = .receiver
    · subst ha
      exact receiverStep_unacked h.unacked (receiverStep_of_step hs)
    · rw [hspec.receiver ha]
      exact unacked_mono h.unacked (hspec.acked ha)

theorem relay_of_run {myId myAddress : String} {config : SwimConfig}
    (hrun : Run step (create myId myAddress config) es n) : Relay n :=
  hrun.invariant (create_relay ..) fun _ _ _ h hs => h.step hs

/-- While a `PING_REQ` is being handled, no thread sends an ACK. -/
theorem Relay.sent (h : Relay n) (hin : n.receiver.inPingReq) (hs : n.step a = some n') :
    n'.sent = n.sent ∨ ∃ d : Datagram, n'.sent = n.sent ++ [d] ∧ d.msg.type ≠ .ack := by
  by_cases ha : a = .receiver
  · subst ha
    have hunacked := h.unacked
    cases receiverStep_move (receiverStep_of_step hs) with
    | relayProbe =>
      unfold Node.withAddress
      split <;> exact Or.inl rfl
    | @relayPing msg src probeSeq m hpc =>
      rw [hpc] at hunacked
      obtain ⟨hspec, -⟩ := n.sendStep_spec m
      cases hr : n.sendStep m with
      | mk n' r =>
        rw [hr] at hspec
        have hsent : n'.sent = n.sent ∨
            ∃ d : Datagram, n'.sent = n.sent ++ [d] ∧ d.msg.type ≠ .ack := by
          rcases hspec.sent with heq | ⟨d, ht, heq⟩
          · exact Or.inl heq
          · exact Or.inr ⟨d, heq, by rw [ht]; exact hunacked.1⟩
        cases r <;> exact hsent
    | relayAck hpc =>
      rw [hpc] at hunacked
      exact hunacked.elim
    | @ackPing m hpc =>
      rw [hpc] at hin
      cases hin
    | receive | handled | toRefute | toApply | refute | apply | ping | unknown | pingReq | ack
    | waiting | answered | timedOut | relayForget => exact Or.inl rfl
  · rcases (step_spec hs).sent ha with heq | ⟨d, heq, ht | ⟨m, hm, ht⟩⟩
    · exact Or.inl heq
    · exact Or.inr ⟨d, heq, by rw [ht]; decide⟩
    · exact Or.inr ⟨d, heq, by rw [ht]; exact h.probes m hm⟩

/-- The labels `fs` belong to one call of `HandlePingReq`: it has not returned before their end. -/
def DuringPingReq (n : Node) (fs : List Act) : Prop :=
  ∀ pre s, pre <+: fs → pre ≠ fs → Run step n pre s → s.receiver.inPingReq

/-- The labels `fs` take the node from where it starts to handle the `PING_REQ` `msg` for a known
target through the call of `HandlePingReq`, at most to its return. -/
structure HandlesPingReq (n : Node) (msg : GossipMessage) (src : Address) (fs : List Act)
    (n' : Node) : Prop where
  start : ∃ target, n.receiver = .relayProbe msg src target
  run : Run step n fs n'
  during : DuringPingReq n fs

/-- `HandlePingReq` has not reached the deadline of its wait. -/
def beforeDeadline (n : Node) : Bool :=
  match n.receiver with
  | .relayPing _ _ _ _ => true
  | .relayWait _ _ _ .enter => true
  | .relayWait _ _ _ (.blocked deadline) => n.clock < deadline
  | _ => false

/-- An ACK with the probe's sequence number, the next one of `n`, arrives before the deadline of its
wait. -/
def AckInTime (n : Node) (fs : List Act) : Prop :=
  ∃ pre post ack src s, fs = pre ++ .arrive ack src :: post ∧ Run step n pre s ∧
    ack.type = .ack ∧ ack.sequenceNum = n.nextSeqNum ∧ s.beforeDeadline

/-- Between `n` and `n'` the requester has been sent an ACK with this sequence number. -/
def SendsAck (n n' : Node) (requester : Address) (seq : ℕ) : Prop :=
  ∃ d ∈ n'.sent.drop n.sent.length, d.dest = requester ∧ d.msg.type = .ack ∧
    d.msg.sequenceNum = seq

theorem sent_duringPingReq (h : Relay n) (hrun : Run step n fs n') (hin : DuringPingReq n fs) :
    Relay n' ∧ ∃ ds, n'.sent = n.sent ++ ds ∧ ∀ d ∈ ds, d.msg.type ≠ .ack := by
  induction hrun with
  | nil => exact ⟨h, [], (List.append_nil _).symm, by simp⟩
  | @snoc fs a s t hrun hs ih =>
    have hne : fs ≠ fs ++ [a] := by simp
    obtain ⟨hs', ds, hds, hack⟩ := ih fun pre s hpre hp =>
      hin pre s (hpre.trans (List.prefix_append _ _)) fun heq => by
        subst heq
        have := hpre.length_le
        simp at this
    refine ⟨hs'.step hs, ?_⟩
    rcases hs'.sent (hin fs s (List.prefix_append _ _) hne hrun) hs with heq | ⟨d, heq, ht⟩
    · exact ⟨ds, heq.trans hds, hack⟩
    · refine ⟨ds ++ [d], by rw [heq, hds, List.append_assoc], ?_⟩
      intro d' hd'
      rcases List.mem_append.mp hd' with hd' | hd'
      · exact hack d' hd'
      · rw [List.mem_singleton.mp hd']
        exact ht

/-- **Indirect probes are never relayed.** In every run of a node, from where it starts to handle a
`PING_REQ` for a known target until the handler has returned, it sends the requester no ACK with
the sequence number of the `PING_REQ`, whatever reaches its socket meanwhile. -/
theorem relayedAck_never {myId myAddress : String} {config : SwimConfig}
    (hrun : Run step (create myId myAddress config) es n) (h : HandlesPingReq n msg src fs n') :
    ¬ SendsAck n n' src msg.sequenceNum := by
  obtain ⟨-, ds, hds, hack⟩ := sent_duringPingReq (relay_of_run hrun) h.run h.during
  rintro ⟨d, hd, -, ht, -⟩
  rw [hds, List.drop_left] at hd
  exact hack d hd ht

/-- `proxy-1` learns of `replica-1`, and `gateway-1` asks it to probe that replica. -/
def proxyRun : List Act :=
  [.arrive ⟨.ping, "replica-1", "", 1, [⟨"replica-1", "10.0.0.1:17001", .alive, 0, "", 0, 0⟩]⟩
    ⟨"10.0.0.1", 17001⟩] ++ List.replicate 7 .receiver ++
  [.arrive ⟨.pingReq, "gateway-1", "replica-1", 42, []⟩ ⟨"10.0.0.9", 17000⟩] ++
  List.replicate 3 .receiver

/-- The probe is sent, and the ACK of the replica arrives at once; the wait times out all the
same. -/
def probeRun : List Act :=
  List.replicate 4 .receiver ++
  [.arrive ⟨.ack, "replica-1", "", 1, []⟩ ⟨"10.0.0.1", 17001⟩, .tick 200000000] ++
  List.replicate 2 .receiver

theorem DuringPingReq.of_exec
    (h : ∀ pre ∈ fs.inits, pre ≠ fs → ∀ s ∈ exec step n pre, s.receiver.inPingReq) :
    DuringPingReq n fs :=
  fun pre s hpre hne hrun => h pre ((List.mem_inits pre fs).mpr hpre) hne s hrun.exec

theorem handlesPingReq_probeRun :
    ∃ n n', Run step (create "proxy-1" "10.0.0.5:17000" {}) proxyRun n ∧
      HandlesPingReq n ⟨.pingReq, "gateway-1", "replica-1", 42, []⟩ ⟨"10.0.0.9", 17000⟩ probeRun n' ∧
      AckInTime n probeRun ∧ n'.receiver = .receive ∧ n'.socket.length = 1 ∧
      (n'.sent.drop n.sent.length).map (fun d => d.msg.type) = [.ping] := by
  have hrun : Run step (create "proxy-1" "10.0.0.5:17000" {}) proxyRun _ := run_get (by decide)
  have hfs : Run step ((exec step (create "proxy-1" "10.0.0.5:17000" {}) proxyRun).get (by decide))
    probeRun _ := run_get (by decide)
  refine ⟨_, _, hrun, ⟨⟨_, rfl⟩, hfs, .of_exec (by decide)⟩, ?_, by decide, by decide, by decide⟩
  exact ⟨List.replicate 4 .receiver, [.tick 200000000, .receiver, .receiver], _, _, _, rfl,
    run_get (by decide), rfl, rfl, by decide⟩

theorem relayedAck_never_probe :
    ∃ n n', HandlesPingReq n ⟨.pingReq, "gateway-1", "replica-1", 42, []⟩ ⟨"10.0.0.9", 17000⟩
      probeRun n' ∧ ¬ SendsAck n n' ⟨"10.0.0.9", 17000⟩ 42 := by
  obtain ⟨n, n', hrun, h, -⟩ := handlesPingReq_probeRun
  exact ⟨n, n', h, relayedAck_never hrun h⟩

/-- The ACK of the target arrives long before the deadline; the handler returns, and the requester
has been sent nothing, while the ACK is still in the socket. -/
theorem not_sendsAck_ackInTime :
    ∃ n n', Run step (create "proxy-1" "10.0.0.5:17000" {}) proxyRun n ∧
      HandlesPingReq n ⟨.pingReq, "gateway-1", "replica-1", 42, []⟩ ⟨"10.0.0.9", 17000⟩ probeRun n' ∧
      AckInTime n probeRun ∧ n'.receiver = .receive ∧ n'.socket.length = 1 ∧
      ¬ SendsAck n n' ⟨"10.0.0.9", 17000⟩ 42 := by
  obtain ⟨n, n', hrun, h, hack, hend, hsocket, hsent⟩ := handlesPingReq_probeRun
  refine ⟨n, n', hrun, h, hack, hend, hsocket, ?_⟩
  rintro ⟨d, hd, -, ht, -⟩
  have hmem := List.mem_map_of_mem (f := fun d : Datagram => d.msg.type) hd
  rw [hsent, ht] at hmem
  exact absurd hmem (by decide)

end Node

end LlmGateway.Gossip
