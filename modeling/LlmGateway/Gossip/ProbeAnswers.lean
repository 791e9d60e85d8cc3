import LlmGateway.Gossip.Cluster
import LlmGateway.Gossip.ProbeEvents

/-!
# Answers to probes

An ACK is matched by its number alone: `RecordAck` looks neither at the sender nor at what the number
was drawn for. That it is genuine all the same rests on the network, which brings a datagram where it
was sent and shows the receiver where it came from, and on the numbers.

1. `Network`: the cluster over sockets. `Confirmed`: the process a probe was sent to has answered it.
   `Answered.step`: an entry of `pending_acks_` is true only for a number of a confirmed probe.
2. `probes_answered`: while the node has drawn no number twice, that probe is the only one with the
   number, and a ping round returns without a suspicion only on such an answer.
-/

namespace LlmGateway.Gossip

open Transition

/-! ## The cluster over sockets -/

/-- Where a datagram to an address arrives, and where a node's datagrams come from: one instance of
each node, that can be answered. -/
structure Network (ι : Type) where
  resolve : Address → Option ι
  source : ι → Address
  resolve_source : ∀ i, resolve (source i) = some i

namespace Cluster

variable {ι : Type} [DecidableEq ι] {net : Network ι} {ids addresses : ι → String}
  {configs : ι → SwimConfig} {c c' : Cluster ι} {e : Label ι} {es fs : List (Label ι)} {i : ι}
  {log log' : List (ι × Event)} {d : Datagram} {k : ℕ}

/-- The message has been sent to the node `i`, from the address `src`. -/
def Carried (net : Network ι) (c : Cluster ι) (i : ι) (msg : GossipMessage) (src : Address) :
    Prop :=
  ∃ j, src = net.source j ∧ ∃ d ∈ (c j).sent, d.msg = msg ∧ net.resolve d.dest = some i

/-- A datagram arrives at the node it has been sent to, from the address of its sender. -/
def carries (net : Network ι) (c : Cluster ι) : Label ι → Bool
  | .act _ _ => true
  | .deliver i j msg src =>
    src = net.source j ∧ (c j).sent.any fun d => d.msg = msg ∧ net.resolve d.dest = some i

/-- One step of the cluster over the network. -/
def stepOver (net : Network ι) (c : Cluster ι) (e : Label ι) : Option (Cluster ι) :=
  if carries net c e then step c e else none

/-- What the receiver threads do in a step. -/
def events (c : Cluster ι) : Label ι → List (ι × Event)
  | .act i .receiver => ((c i).event.map fun ev => (i, ev)).toList
  | _ => []

/-- The node `i` draws a sequence number. -/
def drawsAt (i : ι) (c : Cluster ι) : Label ι → Bool
  | .act j a => j = i && (c i).draws a
  | .deliver _ _ _ _ => false

theorem stepOver_inv (hs : stepOver net c e = some c') : step c e = some c' ∧
    ∀ i j msg src, e = .deliver i j msg src → Carried net c i msg src := by
  unfold stepOver at hs
  split_ifs at hs with hcarries
  refine ⟨hs, ?_⟩
  rintro i j msg src rfl
  unfold carries at hcarries
  rw [decide_eq_true_iff, List.any_eq_true] at hcarries
  obtain ⟨hsrc, d, hd, hmatch⟩ := hcarries
  rw [decide_eq_true_iff] at hmatch
  exact ⟨j, hsrc, d, hd, hmatch⟩

theorem sent_step (hs : step c e = some c') (i : ι) : (c i).sent <+: (c' i).sent := by
  rcases step_node hs i with hsame | ⟨a, hn⟩
  · rw [hsame]
  · exact Node.step_sent hn

omit [DecidableEq ι] in
theorem Carried.mono {msg : GossipMessage} {src : Address} (h : Carried net c i msg src)
    (hsent : ∀ j, (c j).sent <+: (c' j).sent) : Carried net c' i msg src := by
  obtain ⟨j, hsrc, d, hd, hd'⟩ := h
  exact ⟨j, hsrc, d, (hsent j).subset hd, hd'⟩

/-- The process at the address the probe was sent to has answered it: it has handled the `PING`, or
its own ping for the `PING_REQ` was acknowledged. -/
def Confirmed (net : Network ι) (log : List (ι × Event)) (i : ι) (d : Datagram) : Prop :=
  ∃ k, net.resolve d.dest = some k ∧
    ProbeAnswered (fun ev => (k, ev) ∈ log) d.msg (net.source i)

omit [DecidableEq ι] in
theorem Confirmed.mono (h : Confirmed net log i d) (hlog : log ⊆ log') :
    Confirmed net log' i d := by
  obtain ⟨k, hk, h⟩ := h
  exact ⟨k, hk, h.mono fun ev hev => hlog hev⟩

/-- Every ACK is justified by the events so far, and every acknowledged number is that of a probe
that is confirmed. -/
structure Answered (net : Network ι) (log : List (ι × Event)) (c : Cluster ι) : Prop where
  genuine : ∀ i, (c i).Genuine (Carried net c i) fun ev => (i, ev) ∈ log
  events : ∀ i ev, (i, ev) ∈ log → Carried net c i ev.origin.1 ev.origin.2
  acked : ∀ i s, (c i).isAcked s →
    ∃ d ∈ (c i).sent, d.isProbe ∧ d.msg.sequenceNum = s ∧ Confirmed net log i d

omit [DecidableEq ι] in
theorem answered_start : Answered net [] (start ids addresses configs) where
  genuine _ := Node.create_genuine ..
  events := by intro i ev hev; cases hev
  acked := by intro i s hs; cases hs

omit [DecidableEq ι] in
/-- **An ACK answers a probe of the node it arrives at.** It comes from a node that was sent a probe
with its number, and goes back to where that came from. -/
theorem Answered.confirms (h : Answered net log c) {msg : GossipMessage} {src : Address}
    (hcarried : Carried net c i msg src) (htype : msg.type = .ack) :
    ∃ d ∈ (c i).sent, d.isProbe ∧ d.msg.sequenceNum = msg.sequenceNum ∧
      Confirmed net log i d := by
  obtain ⟨j, -, ack, hack, rfl, hto⟩ := hcarried
  obtain ⟨probe, hseq, hanswered⟩ := (h.genuine j).acks ack hack htype
  obtain ⟨hprobe, ev, hev, horigin⟩ := hanswered.event
  obtain ⟨l, hfrom, d, hd, hmsg, hresolve⟩ := h.events j ev hev
  rw [horigin] at hfrom hmsg
  dsimp only at hfrom hmsg
  -- the ACK goes where the probe came from, so it is there
  have hl : l = i := by
    rw [hfrom, net.resolve_source] at hto
    exact Option.some.inj hto
  subst hl
  refine ⟨d, hd, ?_, by rw [hmsg, hseq], j, hresolve, ?_⟩
  · unfold Datagram.isProbe
    rw [hmsg]
    exact decide_eq_true hprobe
  · rw [hmsg, ← hfrom]
    exact hanswered

theorem Answered.step (h : Answered net log c) (hs : stepOver net c e = some c') :
    Answered net (log ++ Cluster.events c e) c' := by
  obtain ⟨hs, hdeliver⟩ := stepOver_inv hs
  have hsent := sent_step hs
  obtain ⟨m, a, n', hn, rfl, hlabel⟩ := step_inv hs
  have hlog : log ⊆ log ++ Cluster.events c e := List.subset_append_left ..
  have hgenuine : ∀ i, (c i).Genuine (Carried net (Function.update c m n') i)
      fun ev => (i, ev) ∈ log ++ Cluster.events c e :=
    fun i => (h.genuine i).mono (fun _ _ hc => hc.mono hsent) fun ev hev => hlog hev
  have hevent : a = .receiver → ∀ ev, (c m).event = some ev →
      (m, ev) ∈ log ++ Cluster.events c e := by
    rintro rfl ev hev
    rcases hlabel with ⟨rfl, -⟩ | ⟨_, _, _, -, heq, -⟩
    · refine List.mem_append_right _ ?_
      show (m, ev) ∈ ((c m).event.map fun ev => (m, ev)).toList
      rw [hev]
      exact List.mem_singleton.mpr rfl
    · cases heq
  refine ⟨fun i => ?_, fun i ev hev => ?_, fun i s hacked => ?_⟩
  · by_cases hi : i = m
    · subst hi
      rw [Function.update_self]
      refine (hgenuine i).step ?_ hevent hn
      rintro msg src rfl
      rcases hlabel with ⟨-, hne⟩ | ⟨j, msg', src', rfl, heq, -⟩
      · exact absurd rfl (hne msg src)
      · cases heq
        exact (hdeliver _ _ _ _ rfl).mono hsent
    · rw [Function.update_of_ne hi]
      exact hgenuine i
  · rcases List.mem_append.mp hev with hev | hev
    · exact (h.events i ev hev).mono hsent
    · unfold Cluster.events at hev
      split at hev
      · obtain ⟨ev', hev', heq⟩ := Option.map_eq_some_iff.mp (Option.mem_toList.mp hev)
        cases heq
        exact ((h.genuine _).message _ (Node.event_message hev')).mono hsent
      · cases hev
  · by_cases hi : i = m
    · subst hi
      rw [Function.update_self] at hacked
      have hold : ∀ {s}, (∃ d ∈ (c i).sent, d.isProbe ∧ d.msg.sequenceNum = s ∧
          Confirmed net log i d) → ∃ d ∈ (Function.update c i n' i).sent, d.isProbe ∧
          d.msg.sequenceNum = s ∧ Confirmed net (log ++ Cluster.events c e) i d := by
        rintro s ⟨d, hd, hprobe, hseq, hconfirmed⟩
        exact ⟨d, (hsent i).subset hd, hprobe, hseq, hconfirmed.mono hlog⟩
      rcases Node.step_isAcked hn hacked with hacked | ⟨-, msg, src, hpc, htype, rfl⟩
      · exact hold (h.acked i s hacked)
      · refine hold (h.confirms ((h.genuine i).message (msg, src) ?_) htype)
        rw [hpc]
        rfl
    · rw [Function.update_of_ne hi] at hacked ⊢
      obtain ⟨d, hd, hprobe, hseq, hconfirmed⟩ := h.acked i s hacked
      exact ⟨d, hd, hprobe, hseq, hconfirmed.mono hlog⟩

/-- What a run keeps of every node: its answers, its numbers, its calls. -/
structure Matched (net : Network ι) (log : List (ι × Event)) (draws : ι → ℕ) (c : Cluster ι) :
    Prop extends Answered net log c where
  numbered : ∀ i, (c i).Numbered (draws i)
  pending : ∀ i, (c i).Pending
  probes : ∀ i, (c i).ProbesSent

/-- The events of a run. -/
def eventsOf (net : Network ι) (s : Cluster ι) (es : List (Label ι)) : List (ι × Event) :=
  trace (stepOver net) Cluster.events s es

/-- The numbers the node `i` draws in a run. -/
def drawsOf (net : Network ι) (s : Cluster ι) (es : List (Label ι)) (i : ι) : ℕ :=
  stepCount (stepOver net) (drawsAt i) s es

theorem matched_of_run (hrun : Run (stepOver net) (start ids addresses configs) es c) :
    Matched net (eventsOf net (start ids addresses configs) es)
      (drawsOf net (start ids addresses configs) es) c := by
  induction hrun with
  | nil =>
    exact ⟨answered_start, fun _ => Node.create_numbered .., fun _ => Node.create_pending _ _ _,
      fun _ _ => trivial⟩
  | @snoc es e s t hrun hs ih =>
    have hlog : eventsOf net (start ids addresses configs) (es ++ [e]) =
        eventsOf net (start ids addresses configs) es ++ Cluster.events s e := trace_snoc hrun
    have hdraws : ∀ i, drawsOf net (start ids addresses configs) (es ++ [e]) i =
        drawsOf net (start ids addresses configs) es i + if drawsAt i s e then 1 else 0 :=
      fun i => stepCount_snoc hrun
    have hanswered := ih.toAnswered.step hs
    rw [← hlog] at hanswered
    have hstep := (stepOver_inv hs).1
    refine ⟨hanswered, fun i => ?_, fun i => ?_, fun i => ?_⟩
    · obtain ⟨m, a, n', hn, rfl, hlabel⟩ := step_inv hstep
      by_cases hi : i = m
      · subst hi
        rw [Function.update_self, hdraws i]
        have hnumbered := (ih.numbered i).step hn
        rcases hlabel with ⟨rfl, -⟩ | ⟨_, _, _, rfl, rfl, -⟩
        · rwa [show drawsAt i s (.act i a) = (s i).draws a by simp [drawsAt]]
        · exact hnumbered
      · rw [Function.update_of_ne hi, hdraws i, if_neg]
        · exact ih.numbered i
        · rcases hlabel with ⟨rfl, -⟩ | ⟨_, _, _, rfl, -⟩
          · simp [drawsAt, Ne.symm hi]
          · exact Bool.false_ne_true
    · rcases step_node hstep i with hsame | ⟨a, hn⟩
      · rw [hsame]
        exact ih.pending i
      · exact (ih.pending i).step hn
    · rcases step_node hstep i with hsame | ⟨a, hn⟩
      · rw [hsame]
        exact ih.probes i
      · exact (ih.probes i).step hn

omit [DecidableEq ι] in
/-- While no number is drawn twice, the probe that is answered is the one registered. -/
theorem Matched.confirmed {draws : ι → ℕ} (h : Matched net log draws c) (hdraws : draws i ≤ 2 ^ 64)
    (hd : d ∈ (c i).sent) (hprobe : d.isProbe) (hacked : (c i).isAcked d.msg.sequenceNum) :
    Confirmed net log i d := by
  obtain ⟨d', hd', hprobe', hseq, hconfirmed⟩ := h.acked i _ hacked
  rwa [(h.numbered i).unique hdraws hd hd' hprobe hprobe' hseq.symm]

/-! ## Ping rounds -/

/-- The labels `fs` take the node `i` from where `DoPingRound` has picked its peer to its return. -/
structure PingRound (net : Network ι) (i : ι) (s : Cluster ι) (fs : List (Label ι))
    (c : Cluster ι) : Prop where
  picked : ∃ peer, (s i).sender = .probe peer
  run : Run (stepOver net) s fs c
  during : ∀ pre t, pre <+: fs → pre ≠ fs → Run (stepOver net) s pre t → (t i).sender.inPingRound
  done : ¬ (c i).sender.inPingRound

/-- In the run `fs` from `s` the node `i` calls `MarkSuspect`. -/
def CallsMarkSuspect (net : Network ι) (i : ι) (s : Cluster ι) (fs : List (Label ι)) : Prop :=
  ∃ pre t ch peer, pre ++ [.act i (.sender ch)] <+: fs ∧ Run (stepOver net) s pre t ∧
    (t i).sender = .suspect peer

/-- The sender thread waits for the answer to `d`, which is there. -/
structure Finds (n : Node) (d : Datagram) : Prop where
  sent : d ∈ n.sent
  awaited : (∃ peer seq w, n.sender = .awaitAck peer seq w ∧ DirectProbe peer seq d) ∨
    ∃ peer seq r w t, n.sender = .awaitIndirect peer seq r w ∧ t ∈ r.seqs ∧ IndirectProbe peer t d
  acked : n.isAcked d.msg.sequenceNum

theorem sender_step (hs : stepOver net c e = some c') (i : ι) :
    (c' i).sender = (c i).sender ∨ ∃ ch, e = .act i (.sender ch) ∧ (c i).crashed = false ∧
      (c i).senderStep ch = some (c' i) := by
  obtain ⟨m, a, n', hn, rfl, hlabel⟩ := step_inv (stepOver_inv hs).1
  by_cases hi : i = m
  · subst hi
    rw [Function.update_self]
    cases a with
    | sender ch =>
      rcases hlabel with ⟨rfl, -⟩ | ⟨_, _, _, -, heq, -⟩
      · cases Node.step_move hn with
        | sender hc hn => exact Or.inr ⟨ch, rfl, hc, hn⟩
      · cases heq
    | _ => exact Or.inl ((Node.step_spec hn).sender nofun)
  · rw [Function.update_of_ne hi]
    exact Or.inl rfl

/-- A round that has decided on an answer has found one. -/
theorem finds_of_decided {s : Cluster ι} {pre : List (Label ι)}
    (hs : Run (stepOver net) (start ids addresses configs) es s)
    (hstart : ∃ peer, (s i).sender = .probe peer) (hpre : Run (stepOver net) s pre c)
    (hdecided : (c i).sender.decided) :
    ∃ mid t d, mid <+: pre ∧ Run (stepOver net) s mid t ∧ Finds (t i) d := by
  induction hpre with
  | nil =>
    obtain ⟨peer, hpeer⟩ := hstart
    rw [hpeer] at hdecided
    cases hdecided
  | @snoc pre e t c hpre hstep ih =>
    rcases sender_step hstep i with hsame | ⟨ch, -, hcrash, hstep'⟩
    · obtain ⟨mid, u, d, hmid, hrun, hfinds⟩ := ih (hsame ▸ hdecided)
      exact ⟨mid, u, d, hmid.trans (List.prefix_append _ _), hrun, hfinds⟩
    · have hprobes := (matched_of_run (hs.append hpre)).probes i hcrash
      rcases (Node.senderStep_round hstep').1 hdecided with ⟨peer, seq, w, hpc, hacked⟩ |
        ⟨peer, seq, r, w, hpc, u, hu, hacked⟩ <;> rw [hpc] at hprobes
      · obtain ⟨d, hd, hdirect⟩ := hprobes
        refine ⟨pre, t, d, List.prefix_append _ _, hpre, hd, Or.inl ⟨peer, seq, w, hpc, hdirect⟩, ?_⟩
        rw [hdirect.2.1]
        exact hacked
      · obtain ⟨d, hd, hindirect⟩ := hprobes u hu
        refine ⟨pre, t, d, List.prefix_append _ _, hpre, hd,
          Or.inr ⟨peer, seq, r, w, u, hpc, hu, hindirect⟩, ?_⟩
        rw [hindirect.2.1]
        exact hacked

theorem PingRound.finds {s : Cluster ι}
    (hs : Run (stepOver net) (start ids addresses configs) es s) (h : PingRound net i s fs c)
    (hsuspect : ¬ CallsMarkSuspect net i s fs) :
    ∃ mid t d, mid <+: fs ∧ Run (stepOver net) s mid t ∧ Finds (t i) d := by
  obtain ⟨peer, hpeer⟩ := h.picked
  rcases List.eq_nil_or_concat' fs with rfl | ⟨pre, e, rfl⟩
  · refine absurd ?_ h.done
    rw [← Run.deterministic .nil h.run, hpeer]
    rfl
  · obtain ⟨t, hpre, hstep⟩ := h.run.snoc_inv
    have hin := h.during pre t (List.prefix_append _ _) (by simp) hpre
    rcases sender_step hstep i with hsame | ⟨ch, rfl, -, hstep'⟩
    · exact absurd (hsame ▸ hin) h.done
    · rcases (Node.senderStep_round hstep').2 hin with hin | hdecided | ⟨peer', hpc⟩
      · exact absurd hin h.done
      · obtain ⟨mid, u, d, hmid, hrun, hfinds⟩ := finds_of_decided hs h.picked hpre hdecided
        exact ⟨mid, u, d, hmid.trans (List.prefix_append _ _), hrun, hfinds⟩
      · exact absurd ⟨pre, t, ch, peer', List.prefix_rfl, hpre, hpc⟩ hsuspect

/-- **Answers to probes.** In every run over a network that does not forge: while a node has drawn no
number twice, a number is acknowledged only when the one probe with that number has been answered by
the process it was sent to, and `DoPingRound` returns without a suspicion only after it has found such
an answer to a probe of its own. And outside `DoPingRound` and `HandlePingReq` nothing is pending. -/
theorem probes_answered (hrun : Run (stepOver net) (start ids addresses configs) es c) :
    (∀ i, drawsOf net (start ids addresses configs) es i ≤ 2 ^ 64 →
      (∀ seq, (c i).isAcked seq → ∃ d ∈ (c i).sent, d.isProbe ∧ d.msg.sequenceNum = seq ∧
        (∀ d' ∈ (c i).sent, d'.isProbe → d'.msg.sequenceNum = seq → d' = d) ∧
        Confirmed net (eventsOf net (start ids addresses configs) es) i d) ∧
      ∀ pre s fs, es = pre ++ fs → Run (stepOver net) (start ids addresses configs) pre s →
        PingRound net i s fs c → ¬ CallsMarkSuspect net i s fs →
        ∃ mid t d, mid <+: fs ∧ Run (stepOver net) s mid t ∧ Finds (t i) d ∧
          Confirmed net (eventsOf net (start ids addresses configs) (pre ++ mid)) i d) ∧
    ∀ i, ¬ (c i).sender.inPingRound → ¬ (c i).receiver.inPingReq → (c i).pendingAcks = ∅ := by
  have h := matched_of_run hrun
  refine ⟨fun i hdraws => ⟨fun seq hacked => ?_, ?_⟩, fun i => Node.pendingAcks_eq_empty (h.pending i)⟩
  · obtain ⟨d, hd, hprobe, rfl, hconfirmed⟩ := h.acked i seq hacked
    exact ⟨d, hd, hprobe, rfl,
      fun d' hd' hprobe' hseq => (h.numbered i).unique hdraws hd' hd hprobe' hprobe hseq, hconfirmed⟩
  · rintro pre s fs rfl hs hround hsuspect
    obtain ⟨mid, t, d, ⟨rest, rfl⟩, ht, hfinds⟩ := hround.finds hs hsuspect
    refine ⟨mid, t, d, List.prefix_append _ _, ht, hfinds, ?_⟩
    have hle : drawsOf net (start ids addresses configs) (pre ++ mid) i ≤ 2 ^ 64 := by
      refine le_trans ?_ hdraws
      unfold drawsOf
      rw [← List.append_assoc, stepCount_append (hs.append ht)]
      exact Nat.le_add_right _ _
    refine (matched_of_run (hs.append ht)).confirmed hle hfinds.sent ?_ hfinds.acked
    rcases hfinds.awaited with ⟨_, _, _, -, htype, -⟩ | ⟨_, _, _, _, _, -, -, htype, -⟩
    · unfold Datagram.isProbe
      rw [htype]
      rfl
    · unfold Datagram.isProbe
      rw [htype]
      rfl

/-! ## Three nodes -/

def trioIds (i : Fin 3) : String := ["gateway-1", "replica-1", "replica-2"][i]

def trioAddresses (i : Fin 3) : String := ["10.0.0.9:17000", "10.0.0.1:17001", "10.0.0.2:17002"][i]

def trioSource (i : Fin 3) : Address :=
  [⟨"10.0.0.9", 17000⟩, ⟨"10.0.0.1", 17001⟩, ⟨"10.0.0.2", 17002⟩][i]

def trioNetwork : Network (Fin 3) where
  resolve a := (List.finRange 3).find? fun i => trioSource i = a
  source := trioSource
  resolve_source := by decide +kernel

def trioStart : Cluster (Fin 3) := start trioIds trioAddresses fun _ => { maxPiggybackUpdates := 0 }

/-- The ACK of `replica-1` to the number 1. -/
def replicaAck : GossipMessage :=
  ⟨.ack, "replica-1", "", 1, [⟨"replica-1", "10.0.0.1:17001", .alive, 0, "", 0, 0⟩]⟩

/-- The gateway pings `replica-1`, which answers. -/
def answeredRun : List (Label (Fin 3)) :=
  [.act 0 (.joinCluster ["10.0.0.1:17001"]), .act 0 (.sender (.peer "seed-10.0.0.1:17001"))] ++
  List.replicate 3 (.act 0 (.sender .none)) ++
  [.deliver 1 0 ⟨.ping, "gateway-1", "", 1,
    [⟨"gateway-1", "10.0.0.9:17000", .alive, 0, "", 0, 0⟩]⟩ (trioSource 0)] ++
  List.replicate 7 (.act 1 .receiver) ++ [.deliver 0 1 replicaAck (trioSource 1)] ++
  List.replicate 5 (.act 0 .receiver)

theorem probes_answered_trio :
    ∃ c, Run (stepOver trioNetwork) trioStart answeredRun c ∧ (c 0).isAcked 1 ∧
      (∃ d ∈ (c 0).sent, d.msg.sequenceNum = 1 ∧
        Confirmed trioNetwork (eventsOf trioNetwork trioStart answeredRun) 0 d) ∧
      (c 1).pendingAcks = ∅ := by
  have hrun : Run (stepOver trioNetwork) trioStart answeredRun _ := run_get (by decide +kernel)
  have h := probes_answered hrun
  refine ⟨_, hrun, by decide +kernel, ?_, h.2 1 (by decide +kernel) (by decide +kernel)⟩
  obtain ⟨d, hd, -, hseq, -, hconfirmed⟩ := (h.1 0 (by decide +kernel)).1 1 (by decide +kernel)
  exact ⟨d, hd, hseq, hconfirmed⟩

/-! ### A counter that has come round -/

/-- What a node does by itself, it does in the cluster. -/
theorem run_act {n' : Node} {as : List Act} (hrun : Run Node.step (c i) as n')
    (hown : ∀ a ∈ as, a.isArrival = false) :
    Run (stepOver net) c (as.map (Label.act i)) (Function.update c i n') := by
  induction hrun with
  | nil =>
    rw [Function.update_eq_self]
    exact .nil
  | @snoc as a s t _ hs ih =>
    rw [List.map_append]
    refine .snoc (ih fun a ha => hown a (List.mem_append_left _ ha)) ?_
    show ((if a.isArrival then none
      else ((Function.update c i s i).step a).map (Function.update (Function.update c i s) i)) :
      Option (Cluster ι)) = _
    rw [hown a (by simp), Function.update_self, hs]
    exact congrArg some (Function.update_idem ..)

theorem mem_of_eventsOf {ev : Event} (hev : (i, ev) ∈ eventsOf net c es) :
    .act i .receiver ∈ es := by
  induction es generalizing c with
  | nil => cases hev
  | cons e es ih =>
    unfold eventsOf trace at hev
    rcases List.mem_append.mp hev with hev | hev
    · unfold events at hev
      split at hev
      · obtain ⟨ev', -, heq⟩ := Option.map_eq_some_iff.mp (Option.mem_toList.mp hev)
        cases heq
        exact List.mem_cons_self
      · cases hev
    · cases hstep : stepOver net c e with
      | none => rw [hstep] at hev; cases hev
      | some c' =>
        rw [hstep] at hev
        exact List.mem_cons_of_mem _ (ih hev)

end Cluster

namespace Node

variable {n : Node} {peer : Peer} {dest : Address}

/-- A node that knows one other node, and may leave again and again. -/
structure Leaving (n : Node) (peer : Peer) (dest : Address) : Prop where
  leaver : n.leaver = .idle
  crashed : n.crashed = false
  peers : n.list.getMembersByState .alive = [peer]
  address : parseAddress peer.2.address = .ok dest

theorem Leaving.once (h : n.Leaving peer dest) : ∃ d, Run step n (List.replicate 4 .leaver)
    { n with nextSeqNum := (n.nextSeqNum + 1) % 2 ^ 64, sent := n.sent ++ [d] } := by
  obtain ⟨hleaver, hcrash, hpeers, haddress⟩ := h
  have hstep : ∀ m : Node, m.crashed = false → m.step .leaver = m.leaverStep := by
    intro m hm
    unfold step
    rw [hm]
    rfl
  let leave : MembershipUpdate :=
    { memberId := n.list.myId, address := n.myAddress, state := .dead,
      incarnation := (n.list.myIncarnation + 1) % 2 ^ 64 }
  let sent : Node := { n with
    nextSeqNum := (n.nextSeqNum + 1) % 2 ^ 64
    sent := n.sent ++ [⟨dest, ⟨.ping, n.list.myId, "", n.nextSeqNum, [leave]⟩⟩]
    leaver := .announce leave [] }
  have hread : n.step .leaver = some { n with leaver := .readIncarnation [peer] } := by
    rw [hstep n hcrash]
    unfold leaverStep
    rw [hleaver, hpeers]
  have hannounce : step { n with leaver := .readIncarnation [peer] } .leaver =
      some { n with leaver := .announce leave [peer] } := hstep _ hcrash
  have hsend : step { n with leaver := .announce leave [peer] } .leaver = some sent := by
    rw [hstep { n with leaver := .announce leave [peer] } hcrash]
    unfold leaverStep withAddress
    dsimp only
    rw [haddress]
  have hdone : step sent .leaver = some { sent with leaver := n.leaver } := by
    rw [hstep sent hcrash, hleaver]
    rfl
  exact ⟨_, (((Run.nil.snoc hread).snoc hannounce).snoc hsend).snoc hdone⟩

theorem Leaving.again (h : n.Leaving peer dest) (hnext : n.nextSeqNum < 2 ^ 64) (k : ℕ) :
    ∃ ds, Run step n (List.replicate (4 * k) .leaver)
      { n with nextSeqNum := (n.nextSeqNum + k) % 2 ^ 64, sent := n.sent ++ ds } := by
  induction k with
  | zero =>
    refine ⟨[], ?_⟩
    rw [List.append_nil, Nat.add_zero, Nat.mod_eq_of_lt hnext]
    exact .nil
  | succ k ih =>
    obtain ⟨ds, hds⟩ := ih
    obtain ⟨d, hd⟩ := Leaving.once (n := { n with
      nextSeqNum := (n.nextSeqNum + k) % 2 ^ 64, sent := n.sent ++ ds })
      ⟨h.leaver, h.crashed, h.peers, h.address⟩
    refine ⟨ds ++ [d], ?_⟩
    have hrun := hds.append hd
    rw [← List.replicate_add] at hrun
    dsimp only at hrun
    rwa [Nat.mod_add_mod, Nat.add_assoc, List.append_assoc] at hrun

end Node

namespace Cluster

variable {ι : Type} [DecidableEq ι] {net : Network ι} {c c' : Cluster ι} {i : ι} {d : Datagram}

/-- The cluster gets from `c` to `c'` while the receiver thread of the node `i` takes no step. -/
def ReachesWithout (net : Network ι) (i : ι) (c c' : Cluster ι) : Prop :=
  ∃ es, Run (stepOver net) c es c' ∧ .act i .receiver ∉ es

theorem ReachesWithout.trans {c'' : Cluster ι} (h : ReachesWithout net i c c')
    (h' : ReachesWithout net i c' c'') : ReachesWithout net i c c'' := by
  obtain ⟨es, hrun, hes⟩ := h
  obtain ⟨fs, hrun', hfs⟩ := h'
  exact ⟨es ++ fs, hrun.append hrun', fun hmem => (List.mem_append.mp hmem).elim hes hfs⟩

theorem ReachesWithout.act {j : ι} {n' : Node} {as : List Act} (hrun : Run Node.step (c j) as n')
    (hown : ∀ a ∈ as, a.isArrival = false) (hj : j ≠ i) :
    ReachesWithout net i c (Function.update c j n') := by
  refine ⟨_, run_act hrun hown, fun hmem => ?_⟩
  obtain ⟨a, -, heq⟩ := List.mem_map.mp hmem
  exact hj (Label.act.inj heq).1

theorem ReachesWithout.deliver {j k : ι} (hd : d ∈ (c j).sent) (hk : net.resolve d.dest = some k) :
    ReachesWithout net i c (Function.update c k
      { c k with socket := (c k).socket ++ [(d.msg, net.source j)] }) := by
  refine ⟨[.deliver k j d.msg (net.source j)], Run.nil.snoc ?_, by simp⟩
  have hcarries : carries net c (.deliver k j d.msg (net.source j)) = true := by
    unfold carries
    rw [decide_eq_true_iff, List.any_eq_true]
    exact ⟨rfl, d, hd, decide_eq_true ⟨rfl, hk⟩⟩
  unfold stepOver
  rw [if_pos hcarries]
  exact if_pos (List.mem_map_of_mem hd)

def gatewayLeave : GossipMessage :=
  ⟨.ping, "gateway-1", "", 1, [⟨"gateway-1", "10.0.0.9:17000", .dead, 1, "", 0, 0⟩]⟩

/-- The gateway, which knows `replica-1` only and has its ACK to the number 1 in the socket. -/
def gateway (nextSeqNum : ℕ) (socket : List (GossipMessage × Address)) (sent : List Datagram) :
    Node :=
  { (trioStart 0).joinCluster ["10.0.0.1:17001"] with
    nextSeqNum := nextSeqNum, socket := socket, sent := sent }

theorem gateway_leaves : Run Node.step (trioStart 0)
    (.joinCluster ["10.0.0.1:17001"] :: List.replicate 4 .leaver)
    (gateway 2 [] [⟨trioSource 1, gatewayLeave⟩]) := run_of_exec rfl

theorem replica_answers : ∃ n, Run Node.step
    { trioStart 1 with socket := [(gatewayLeave, trioSource 0)] } (List.replicate 7 .receiver) n ∧
    ⟨trioSource 0, replicaAck⟩ ∈ n.sent :=
  ⟨_, run_of_exec rfl, List.mem_singleton.mpr rfl⟩

/-- It pings `replica-2` under the number 1, and takes the ACK of `replica-1` from its socket. -/
def pingedRun : List Act :=
  [.joinCluster ["10.0.0.2:17002"], .sender (.peer "seed-10.0.0.2:17002")] ++
  List.replicate 3 (.sender .none) ++ List.replicate 5 .receiver

theorem gateway_pinged (sent : List Datagram) :
    ∃ n d, Run Node.step (gateway 1 [(replicaAck, trioSource 1)] sent) pingedRun n ∧
      d ∈ n.sent ∧ d.msg.type = .ping ∧ d.msg.sequenceNum = 1 ∧
      trioNetwork.resolve d.dest = some 2 ∧ (∃ peer, n.sender = .awaitAck peer 1 .enter) ∧
      n.isAcked 1 := by
  refine ⟨_, ⟨⟨"10.0.0.2", 17002⟩, ⟨.ping, "gateway-1", "", 1,
    [⟨"gateway-1", "10.0.0.9:17000", .alive, 0, "", 0, 0⟩]⟩⟩, run_of_exec rfl, ?_, rfl, rfl,
    by decide +kernel, ⟨_, rfl⟩, rfl⟩
  exact List.mem_append_right _ (List.mem_singleton.mpr rfl)

/-- The gateway leaves once, and the ACK of `replica-1` waits in its socket. -/
theorem reaches_left : ∃ c, ReachesWithout trioNetwork 2 trioStart c ∧
    c 0 = gateway 2 [(replicaAck, trioSource 1)] [⟨trioSource 1, gatewayLeave⟩] := by
  obtain ⟨n, hanswers, hack⟩ := replica_answers
  have hleft : ReachesWithout trioNetwork 2 trioStart _ :=
    .act gateway_leaves (by decide) (by decide)
  have harrived := hleft.trans (.deliver (j := 0) (k := 1) (d := ⟨trioSource 1, gatewayLeave⟩)
    (List.mem_singleton.mpr rfl) (by decide +kernel))
  have hanswered := harrived.trans (.act (j := 1) hanswers (by decide) (by decide))
  have hwaits := hanswered.trans (.deliver (j := 1) (k := 0) (d := ⟨trioSource 0, replicaAck⟩)
    hack (by decide +kernel))
  exact ⟨_, hwaits, rfl⟩

/-- After `2 ^ 64` numbers an old ACK is taken for the answer to a new probe: the ping to `replica-2`
is acknowledged, and `replica-2` has received nothing. -/
theorem not_confirmed_wrapped : ∃ es c d, Run (stepOver trioNetwork) trioStart es c ∧
    d ∈ (c 0).sent ∧ d.msg.type = .ping ∧ trioNetwork.resolve d.dest = some 2 ∧
    (∃ peer, (c 0).sender = .awaitAck peer d.msg.sequenceNum .enter) ∧
    (c 0).isAcked d.msg.sequenceNum ∧ ∀ ev, (2, ev) ∉ eventsOf trioNetwork trioStart es := by
  obtain ⟨c, hc, hgateway⟩ := reaches_left
  have hleaving : (c 0).Leaving ("seed-10.0.0.1:17001", { address := "10.0.0.1:17001" })
      (trioSource 1) := by
    rw [hgateway]
    exact ⟨rfl, rfl, by decide +kernel, by decide +kernel⟩
  obtain ⟨ds, hround⟩ := hleaving.again (by rw [hgateway]; decide) (2 ^ 64 - 1)
  rw [hgateway] at hround
  obtain ⟨n, d, hpinged, hd, htype, hseq, hdest, hsender, hacked⟩ :=
    gateway_pinged ([⟨trioSource 1, gatewayLeave⟩] ++ ds)
  have hown : ∀ a ∈ List.replicate (4 * (2 ^ 64 - 1)) Act.leaver ++ pingedRun,
      a.isArrival = false := by
    intro a ha
    rcases List.mem_append.mp ha with ha | ha
    · rw [List.eq_of_mem_replicate ha]
      rfl
    · have hpings : ∀ a ∈ pingedRun, a.isArrival = false := by decide
      exact hpings a ha
  have hrun := hround.append hpinged
  rw [← hgateway] at hrun
  obtain ⟨es, hes, hsilent⟩ := hc.trans (.act (i := 2) hrun hown (by decide))
  refine ⟨es, _, d, hes, ?_, htype, hdest, ?_, ?_, fun ev hev => hsilent (mem_of_eventsOf hev)⟩
  · rw [Function.update_self]
    exact hd
  · rw [Function.update_self, hseq]
    exact hsender
  · rw [Function.update_self, hseq]
    exact hacked

end Cluster

end LlmGateway.Gossip
