import LlmGateway.Gossip.ProbeAnswers

/-!
# A ping round without a suspicion

What a recorded ACK rests on (`Confirmed`) may be a relayed answer, or an answer from before the
round. Neither is true of a ping round: no `PING_REQ` is ever answered by a proxy (`Node.Relay`), and
the number of the round's own `PING` is drawn in the round (`PingRound.about`). So a round that
returns without a suspicion has had its own `PING` handled, by the process at the target's address
and while the round lasted.

1. `not_relays`: no proxy finds its own probe acknowledged.
2. `PingRound.about`: the peer of a round stays, and its number is new.
3. `answered_during`: both for the answer a round finds.
-/

namespace LlmGateway.Gossip

open Transition

/-- The round is about `peer`, and the number of its `PING` is not among `old`. -/
def SenderPc.About (peer : Peer) (old : List ℕ) : SenderPc → Prop
  | .probe p => p = peer
  | .ping p seq _ => p = peer ∧ seq ∉ old
  | .awaitAck p seq _ => p = peer ∧ seq ∉ old
  | .pickProxy p _ _ => p = peer
  | .probeProxy p _ _ _ => p = peer
  | .pingReq p _ _ _ => p = peer
  | .awaitIndirect p _ _ _ => p = peer
  | .forget p _ _ => p = peer
  | .suspect p => p = peer
  | _ => True

namespace Node

variable {n n' : Node} {c : Choice} {peer : Peer} {old : List ℕ}

theorem Relay.event_ne (h : n.Relay) (msg : GossipMessage) (src : Address) (seq : ℕ) :
    n.event ≠ some (.probeAcked msg src seq) := by
  intro hev
  have hunacked := h.unacked
  unfold event at hev
  cases hpc : n.receiver <;> rw [hpc] at hev hunacked
  case relayWait msg' src' probeSeq w =>
    cases w with
    | enter => cases hev
    | blocked deadline =>
      dsimp only at hev
      rw [if_neg hunacked] at hev
      cases hev
  all_goals cases hev

theorem register_about {s : String} {pc : Address → SenderPc} (hold : n.sender.About peer old)
    (hnew : ∀ dest, (pc dest).About peer old) :
    (n.register.withAddress s fun dest =>
      { n.register with sender := pc dest }).sender.About peer old := by
  unfold Node.withAddress
  cases parseAddress s with
  | ok dest => exact hnew dest
  | error _ => exact hold

theorem sendStep_about (n : Node) (m : Sending) {more : Sending → SenderPc} {done : SenderPc}
    (hmore : ∀ m, (more m).About peer old) (hdone : done.About peer old) :
    (match n.sendStep m with
      | (n', some m') => { n' with sender := more m' }
      | (n', none) => { n' with sender := done } : Node).sender.About peer old := by
  cases n.sendStep m with
  | mk n' r =>
    cases r with
    | none => exact hdone
    | some m' => exact hmore m'

theorem afterLoop_about (r : Indirect) (seq : ℕ) : (r.afterLoop peer seq).About peer old := by
  unfold Indirect.afterLoop
  split_ifs <;> rfl

/-- **A step of the sender thread in a round.** The number is drawn where the round starts. -/
theorem senderStep_about (h : n.sender.About peer old) (hin : n.sender.inPingRound)
    (hfresh : n.sender = .probe peer → n.nextSeqNum ∉ old) (hs : n.senderStep c = some n') :
    n'.sender.About peer old := by
  unfold Node.senderStep at hs
  cases hpc : n.sender <;> rw [hpc] at hs h hin hfresh <;> dsimp only [Node.pingRoundStep] at hs
  case probe p =>
    cases hs
    obtain rfl : p = peer := h
    exact register_about (by rw [hpc]; rfl) fun _ => ⟨rfl, hfresh rfl⟩
  case ping p seq m =>
    cases hs
    exact n.sendStep_about m (fun _ => h) h
  case awaitAck p seq w =>
    obtain ⟨r, -, rfl⟩ := Option.map_eq_some_iff.mp hs
    rcases r with (_ | _) | w'
    · exact h.1
    · trivial
    · exact h
  case acked =>
    cases hs
    trivial
  case pickProxy p seq r =>
    obtain rfl : p = peer := h
    split_ifs at hs
    · obtain ⟨q, -, rfl⟩ := Option.map_eq_some_iff.mp hs
      cases q with
      | none => exact afterLoop_about r seq
      | some proxy => rfl
    · cases hs
      exact afterLoop_about r seq
  case probeProxy p seq r proxy =>
    cases hs
    exact register_about (by rw [hpc]; exact h) fun _ => h
  case pingReq p seq r m =>
    cases hs
    exact n.sendStep_about m (fun _ => h) h
  case awaitIndirect p seq r w =>
    obtain ⟨q, -, rfl⟩ := Option.map_eq_some_iff.mp hs
    rcases q with got | w' <;> exact h
  case forget p seq got =>
    cases hs
    cases got with
    | true => trivial
    | false => exact h
  case suspect p =>
    cases hs
    trivial
  all_goals cases hin

/-- Where the node has drawn `k` numbers, the next one is not among those it has sent. -/
theorem Numbered.next_notMem {k : ℕ} (h : n.Numbered k) (hk : k < 2 ^ 64) :
    n.nextSeqNum ∉ n.sentNumbers := by
  intro hmem
  have hdrawn : n.nextSeqNum ∈ n.drawn := by
    unfold drawn
    rw [add_assoc]
    exact Multiset.mem_add.mpr (Or.inl (Multiset.mem_coe.mpr hmem))
  obtain ⟨j, hj, heq⟩ := h.earlier _ hdrawn
  exact seqAt_injective hj hk (heq.symm.trans h.next)

end Node

theorem Network.source_injective {ι : Type} (net : Network ι) : Function.Injective net.source := by
  intro j k h
  have hj := net.resolve_source j
  rw [h, net.resolve_source] at hj
  exact (Option.some.inj hj).symm

namespace Cluster

variable {ι : Type} [DecidableEq ι] {net : Network ι} {ids addresses : ι → String}
  {configs : ι → SwimConfig} {s c c' : Cluster ι} {es fs : List (Label ι)} {i : ι} {peer : Peer}

theorem nodeRun (hrun : Run (stepOver net) c es c') (i : ι) :
    ∃ as, Run Node.step (c i) as (c' i) := by
  induction hrun with
  | nil => exact ⟨[], .nil⟩
  | snoc _ hs ih =>
    obtain ⟨as, has⟩ := ih
    rcases step_node (stepOver_inv hs).1 i with hsame | ⟨a, hn⟩
    · rw [hsame]
      exact ⟨as, has⟩
    · exact ⟨as ++ [a], has.snoc hn⟩

theorem sent_run (hrun : Run (stepOver net) c es c') (i : ι) : (c i).sent <+: (c' i).sent := by
  induction hrun with
  | nil => exact List.prefix_rfl
  | snoc _ hs ih => exact ih.trans (sent_step (stepOver_inv hs).1 i)

theorem sentNumbers_run (hrun : Run (stepOver net) c es c') (i : ι) :
    (c i).sentNumbers ⊆ (c' i).sentNumbers :=
  (((sent_run hrun i).sublist.filter _).map _).subset

/-- No proxy finds its own probe acknowledged. -/
theorem not_relays (hrun : Run (stepOver net) (start ids addresses configs) es c) {k : ι}
    {msg : GossipMessage} {src : Address} {seq : ℕ} :
    (k, Event.probeAcked msg src seq) ∉ eventsOf net (start ids addresses configs) es := by
  induction hrun with
  | nil => nofun
  | @snoc es e t u hrun hs ih =>
    intro hmem
    unfold eventsOf at hmem
    rw [trace_snoc hrun] at hmem
    rcases List.mem_append.mp hmem with hmem | hmem
    · exact ih hmem
    · unfold events at hmem
      split at hmem
      · obtain ⟨ev, hev, heq⟩ := Option.map_eq_some_iff.mp (Option.mem_toList.mp hmem)
        cases heq
        obtain ⟨as, has⟩ := nodeRun hrun k
        exact (Node.relay_of_run has).event_ne _ _ _ hev
      · cases hmem

/-- **A round is about its peer, under a number of its own.** -/
theorem PingRound.about (hs : Run (stepOver net) (start ids addresses configs) es s)
    (h : PingRound net i s fs c) (hpeer : (s i).sender = .probe peer)
    (hdraws : drawsOf net (start ids addresses configs) (es ++ fs) i ≤ 2 ^ 64)
    {pre : List (Label ι)} {t : Cluster ι} (hpre : pre <+: fs) (hrun : Run (stepOver net) s pre t) :
    (t i).sender.About peer (s i).sentNumbers := by
  induction hrun with
  | nil =>
    rw [hpeer]
    rfl
  | @snoc pre e t u hrun hstep ih =>
    have hpre' : pre <+: fs := (List.prefix_append _ _).trans hpre
    have habout := ih hpre'
    have hin := h.during pre t hpre' (by
      rintro rfl
      have := hpre.length_le
      simp at this) hrun
    rcases sender_step hstep i with hsame | ⟨ch, rfl, -, hstep'⟩
    · rwa [hsame]
    · refine Node.senderStep_about habout hin (fun hprobe hmem => ?_) hstep'
      -- the number that is drawn here is still new
      have hlt : drawsOf net (start ids addresses configs) (es ++ pre) i < 2 ^ 64 := by
        obtain ⟨rest, rfl⟩ := hpre
        have hdraw : drawsAt i t (.act i (.sender ch)) = true := by
          simp [drawsAt, Node.draws, hprobe]
        unfold drawsOf at hdraws ⊢
        rw [← List.append_assoc, stepCount_append (hs.append (hrun.snoc hstep)),
          ← List.append_assoc, stepCount_snoc (hs.append hrun), hdraw] at hdraws
        simp only [if_true] at hdraws
        omega
      exact ((matched_of_run (hs.append hrun)).numbered i).next_notMem hlt
        (sentNumbers_run hrun i hmem)

/-- **A round without a suspicion.** In every run over a network that does not forge, while the node
has drawn no number twice: when `DoPingRound` for a peer returns without calling `MarkSuspect`, the
process at the peer's address has handled the `PING` of this round, sent and handled during it. So
while the receiver thread of that process takes no step, or nothing is at that address, the round
ends in a suspicion of the peer. -/
theorem answered_during (hs : Run (stepOver net) (start ids addresses configs) es s)
    (h : PingRound net i s fs c) (hpeer : (s i).sender = .probe peer)
    (hdraws : drawsOf net (start ids addresses configs) (es ++ fs) i ≤ 2 ^ 64) :
    (¬ CallsMarkSuspect net i s fs → ∃ k d, d ∈ (c i).sent ∧ d ∉ (s i).sent ∧ d.msg.type = .ping ∧
      parseAddress peer.2.address = .ok d.dest ∧ net.resolve d.dest = some k ∧
      (k, .handles d.msg (net.source i)) ∈ eventsOf net s fs) ∧
    ((∀ dest k, parseAddress peer.2.address = .ok dest → net.resolve dest = some k →
        .act k .receiver ∉ fs) →
      ∃ pre t ch, pre ++ [.act i (.sender ch)] <+: fs ∧ Run (stepOver net) s pre t ∧
        (t i).sender = .suspect peer) := by
  have hanswer : ¬ CallsMarkSuspect net i s fs → ∃ k d, d ∈ (c i).sent ∧ d ∉ (s i).sent ∧
      d.msg.type = .ping ∧ parseAddress peer.2.address = .ok d.dest ∧
      net.resolve d.dest = some k ∧ (k, .handles d.msg (net.source i)) ∈ eventsOf net s fs := by
    intro hsuspect
    obtain ⟨mid, t, d, hmid, ht, hfinds⟩ := h.finds hs hsuspect
    have habout := h.about hs hpeer hdraws hmid ht
    obtain ⟨rest, rfl⟩ := hmid
    have hmatched := matched_of_run (hs.append ht)
    have hle : drawsOf net (start ids addresses configs) (es ++ mid) i ≤ 2 ^ 64 := by
      refine le_trans ?_ hdraws
      unfold drawsOf
      rw [← List.append_assoc, stepCount_append (hs.append ht)]
      exact Nat.le_add_right _ _
    rcases hfinds.awaited with ⟨p, seq, w, hpc, htype, hseq, haddress⟩ |
      ⟨p, seq, r, w, q, hpc, hq, htype, hseq, -⟩
    · rw [hpc] at habout
      obtain ⟨rfl, hnew⟩ := habout
      have hprobe : d.isProbe := by
        unfold Datagram.isProbe
        rw [htype]
        rfl
      obtain ⟨k, hresolve, ⟨-, hhandles⟩ | ⟨hreq, -⟩⟩ :=
        hmatched.confirmed hle hfinds.sent hprobe hfinds.acked
      · have hnotSent : ∀ d' ∈ (s i).sent, d'.msg ≠ d.msg := by
          intro d' hd' heq
          refine hnew (List.mem_map.mpr ⟨d', List.mem_filter.mpr ⟨hd', ?_⟩, ?_⟩)
          · unfold Datagram.isProbe
            rw [heq]
            exact hprobe
          · rw [heq, hseq]
        refine ⟨k, d, ?_, fun hd => hnotSent d hd rfl, htype, haddress, hresolve, ?_⟩
        · obtain ⟨t', ht', hlast⟩ := h.run.split
          obtain rfl := ht'.deterministic ht
          exact (sent_run hlast i).subset hfinds.sent
        · unfold eventsOf at hhandles ⊢
          rw [trace_append hs] at hhandles
          rcases List.mem_append.mp hhandles with hold | hnow
          · -- what was handled before the round had been sent before it
            obtain ⟨j, hsrc, d', hd', hmsg, -⟩ := (matched_of_run hs).events k _ hold
            obtain rfl := net.source_injective hsrc
            exact absurd hmsg (hnotSent d' hd')
          · exact mem_trace_append ht hnow rest
      · rw [htype] at hreq
        cases hreq
    · -- a `PING_REQ` is never answered
      have hprobe : d.isProbe := by
        unfold Datagram.isProbe
        rw [htype]
        rfl
      obtain ⟨k, -, ⟨hping, -⟩ | ⟨-, target, probeSeq, -, hacked⟩⟩ :=
        hmatched.confirmed hle hfinds.sent hprobe hfinds.acked
      · rw [htype] at hping
        cases hping
      · exact absurd hacked (not_relays (hs.append ht))
  refine ⟨hanswer, fun hsilent => ?_⟩
  by_cases hsuspect : CallsMarkSuspect net i s fs
  · obtain ⟨pre, t, ch, p, hpre, ht, hpc⟩ := hsuspect
    have habout := h.about hs hpeer hdraws ((List.prefix_append _ _).trans hpre) ht
    rw [hpc] at habout
    obtain rfl : p = peer := habout
    exact ⟨pre, t, ch, hpre, ht, hpc⟩
  · obtain ⟨k, d, -, -, -, haddress, hresolve, hev⟩ := hanswer hsuspect
    exact absurd (mem_of_eventsOf hev) (hsilent d.dest k haddress hresolve)

theorem PingRound.of_exec (hpicked : ∃ peer, (s i).sender = .probe peer)
    (hrun : Run (stepOver net) s fs c)
    (h : ∀ pre ∈ fs.inits, pre ≠ fs → ∀ t ∈ exec (stepOver net) s pre, (t i).sender.inPingRound)
    (hdone : ¬ (c i).sender.inPingRound) : PingRound net i s fs c where
  picked := hpicked
  run := hrun
  during pre t hpre hne ht := h pre ((List.mem_inits pre fs).mpr hpre) hne t ht.exec
  done := hdone

/-! ## A round with an answer, and one without -/

def pairSource : Bool → Address
  | false => ⟨"10.0.0.9", 17000⟩
  | true => ⟨"10.0.0.1", 17001⟩

def pairNetwork : Network Bool where
  resolve a := [false, true].find? fun i => pairSource i = a
  source := pairSource
  resolve_source := by decide +kernel

/-- The nodes say of themselves only. -/
def quietPair : Cluster Bool := start pairIds pairAddresses fun _ => { maxPiggybackUpdates := 0 }

/-- The gateway is about to probe `replica-1`. -/
def probingRun : List (Label Bool) :=
  [.act false (.joinCluster ["10.0.0.1:17001"]),
    .act false (.sender (.peer "seed-10.0.0.1:17001"))]

/-- The round: the PING, its ACK, and the return. -/
def answeredRound : List (Label Bool) :=
  List.replicate 3 (.act false (.sender .none)) ++
  [.deliver true false ⟨.ping, "gateway-1", "", 1, [pairUpdate false .alive]⟩ (pairSource false)] ++
  List.replicate 7 (.act true .receiver) ++
  [.deliver false true replicaAck (pairSource true)] ++
  List.replicate 5 (.act false .receiver) ++ List.replicate 3 (.act false (.sender .none))

/-- The round: the PING is lost, no proxy is known, and the timeout passes. -/
def silentRound : List (Label Bool) :=
  List.replicate 4 (.act false (.sender .none)) ++ [.act false (.tick 200000000)] ++
  List.replicate 4 (.act false (.sender .none))

def probing : Cluster Bool := (exec (stepOver pairNetwork) quietPair probingRun).get (by decide +kernel)

theorem answered_during_pair :
    ∃ c c', PingRound pairNetwork false probing answeredRound c ∧
      PingRound pairNetwork false probing silentRound c' ∧
      ∃ pre t ch, pre ++ [.act false (.sender ch)] <+: silentRound ∧
        Run (stepOver pairNetwork) probing pre t ∧
        (t false).sender = .suspect ("seed-10.0.0.1:17001", { address := "10.0.0.1:17001" }) := by
  have hs : Run (stepOver pairNetwork) quietPair probingRun probing := run_get _
  have hpeer : (probing false).sender =
      .probe ("seed-10.0.0.1:17001", { address := "10.0.0.1:17001" }) := by decide +kernel
  have hanswered : Run (stepOver pairNetwork) probing answeredRound _ := run_get (by decide +kernel)
  have hsilent : Run (stepOver pairNetwork) probing silentRound _ := run_get (by decide +kernel)
  have hround := PingRound.of_exec (i := false) ⟨_, hpeer⟩ hsilent (by decide +kernel)
    (by decide +kernel)
  have hno : ∀ k : Bool, Label.act k Act.receiver ∉ silentRound := by decide +kernel
  exact ⟨_, _, .of_exec ⟨_, hpeer⟩ hanswered (by decide +kernel) (by decide +kernel), hround,
    (answered_during hs hround hpeer (by decide +kernel)).2 fun _ k _ _ => hno k⟩

end Cluster

end LlmGateway.Gossip
