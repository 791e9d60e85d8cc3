import LlmGateway.Gossip.Cluster
import LlmGateway.Gossip.Transmission

/-!
# A cluster over datagrams

`Cluster.step` lets messages arrive as they were sent. In `wireStep` datagrams travel: `Send`
serializes a message, and drops it if it is too large, and `Receive` parses what arrives, and drops
it if that fails.

The code that serializes and parses is a parameter, a `Codec`.

1. `transmits_of_run`: in every run all that the nodes hold and send is in range.
2. `wire_refines`: so every datagram reads as the message it was sent as, and the cluster over
   datagrams does nothing that the cluster over messages does not.
3. `messages_fit`: with short texts and the default of `max_piggyback_updates` no message is dropped,
   and the cluster over datagrams does all that the cluster over messages does.
-/

namespace LlmGateway.Gossip

open Transition MembershipList

namespace Cluster

variable {ι : Type} [DecidableEq ι] {T : String → Prop} {ids addresses : ι → String}
  {configs : ι → SwimConfig} {c c' : Cluster ι} {e : Label ι} {es : List (Label ι)}

/-- What a step tells a node, from outside or about the source of a message. -/
def Label.Tells (T : String → Prop) : Label ι → Prop
  | .act _ a => a.Tells T
  | .deliver _ _ _ src => T src.toString

/-- All that the nodes hold and send is in range. -/
def Transmits (T : String → Prop) (ids addresses : ι → String) (configs : ι → SwimConfig)
    (c : Cluster ι) : Prop :=
  ∀ i, (c i).Transmits T (configs i).maxPiggybackUpdates.toNat (ids i) (addresses i)

/-- A message that arrives has been sent by a node, and so it is in range. -/
theorem transmits_step (h : Transmits T ids addresses configs c) (hT : T "") (hids : ∀ i, T (ids i))
    (haddresses : ∀ i, T (addresses i)) (htells : e.Tells T) (hs : step c e = some c') :
    Transmits T ids addresses configs c' := by
  obtain ⟨i, a, n', hn, rfl, hlabel⟩ := step_inv hs
  have ha : a.Tells T := by
    rcases hlabel with ⟨rfl, -⟩ | ⟨j, msg, src, rfl, rfl, d, hd, rfl⟩
    · exact htells
    · exact ⟨((h j).sent hd).1, htells⟩
  intro x
  by_cases hx : x = i
  · subst hx
    rw [Function.update_self]
    exact (h x).step hT (hids x) (haddresses x) ha hn
  · rw [Function.update_of_ne hx]
    exact h x

theorem transmits_of_run (hT : T "") (hids : ∀ i, T (ids i)) (haddresses : ∀ i, T (addresses i))
    (htells : ∀ e ∈ es, e.Tells T) (hrun : Run step (start ids addresses configs) es c) :
    Transmits T ids addresses configs c := by
  induction hrun with
  | nil => exact fun i => Node.create_transmits hT (hids i) (haddresses i) (configs i)
  | snoc _ hs ih =>
    have hfirst := ih fun e he => htells e (List.mem_append_left _ he)
    exact transmits_step hfirst hT hids haddresses (htells _ (by simp)) hs

/-! ## Datagrams -/

inductive WireLabel (ι : Type)
  /-- The node `i` takes a step of its own. -/
  | act (i : ι) (a : Act)
  /-- A datagram the node `j` has sent arrives at the node `i`. -/
  | deliver (i j : ι) (datagram : List UInt8) (src : Address)
  deriving DecidableEq

variable (codec : Codec)

/-- The datagrams the node has given to its socket. -/
def datagrams (n : Node) : List (List UInt8) := n.sent.filterMap fun d => send codec d.msg

/-- One step of the cluster over datagrams. -/
def wireStep (c : Cluster ι) : WireLabel ι → Option (Cluster ι)
  | .act i a => step c (.act i a)
  | .deliver i j datagram src =>
    if datagram ∈ datagrams codec (c j) then
      match receive codec datagram with
      -- a datagram that does not parse is reported and forgotten
      | none => some c
      | some msg => ((c i).step (.arrive msg src)).map (Function.update c i)
    else none

/-- The step of the cluster over messages, unless the datagram does not parse. -/
def WireLabel.parsed : WireLabel ι → Option (Label ι)
  | .act i a => some (.act i a)
  | .deliver i j datagram src => (receive codec datagram).map fun msg => .deliver i j msg src

/-- The same step over datagrams. -/
def Label.serialized : Label ι → WireLabel ι
  | .act i a => .act i a
  | .deliver i j msg src => .deliver i j ((send codec msg).getD []) src

variable {codec}

/-- **A step over datagrams is one over messages.** -/
theorem parsed_of_wireStep {w : WireLabel ι} (hcodec : codec.RoundTrips)
    (h : Transmits T ids addresses configs c) (hs : wireStep codec c w = some c') :
    ∃ e, w.parsed codec = some e ∧ step c e = some c' := by
  cases w with
  | act i a => exact ⟨_, rfl, hs⟩
  | deliver i j datagram src =>
    unfold wireStep at hs
    dsimp only at hs
    split_ifs at hs with hmem
    obtain ⟨d, hd, hsend⟩ := List.mem_filterMap.mp hmem
    have hreceive : receive codec datagram = some d.msg :=
      receive_of_send hcodec ((h j).sent hd).1 hsend
    rw [hreceive] at hs
    refine ⟨.deliver i j d.msg src, by simp [WireLabel.parsed, hreceive], ?_⟩
    unfold step
    dsimp only
    rw [if_pos (List.mem_map_of_mem hd)]
    exact hs

theorem wireStep_serialized (hcodec : codec.RoundTrips) (h : Transmits T ids addresses configs c)
    (hfit : ∀ i, ∀ d ∈ (c i).sent, ∃ datagram, send codec d.msg = some datagram)
    (hs : step c e = some c') : wireStep codec c (e.serialized codec) = some c' := by
  cases e with
  | act i a => exact hs
  | deliver i j msg src =>
    unfold step at hs
    dsimp only at hs
    split_ifs at hs with hmem
    obtain ⟨d, hd, rfl⟩ := List.mem_map.mp hmem
    obtain ⟨datagram, hsend⟩ := hfit j d hd
    have hdatagram : datagram ∈ datagrams codec (c j) := List.mem_filterMap.mpr ⟨d, hd, hsend⟩
    unfold Label.serialized wireStep
    dsimp only
    rw [hsend, Option.getD_some, if_pos hdatagram, receive_of_send hcodec ((h j).sent hd).1 hsend]
    exact hs

/-! ## Small messages -/

/-- **The size of the messages in a run.** -/
theorem fits_of_run (hcodec : codec.Sized) (hconfigs : ∀ i, (configs i).maxPiggybackUpdates ≤ 8)
    (hids : ∀ i, Short (ids i)) (haddresses : ∀ i, Short (addresses i))
    (htells : ∀ e ∈ es, e.Tells Short) (hrun : Run step (start ids addresses configs) es c) :
    Transmits Short ids addresses configs c ∧
      ∀ i, ∀ d ∈ (c i).sent, ∃ datagram, send codec d.msg = some datagram := by
  have hempty : Short "" := by unfold Short; decide
  have htransmits := transmits_of_run hempty hids haddresses htells hrun
  refine ⟨htransmits, ?_⟩
  intro i d hd
  obtain ⟨hrange, hcount⟩ := (htransmits i).sent hd
  have hconfig := hconfigs i
  exact send_of_short hcodec hrange (by omega)

theorem run_serialized (hcodec : codec.RoundTrips) (hsized : codec.Sized)
    (hconfigs : ∀ i, (configs i).maxPiggybackUpdates ≤ 8)
    (hids : ∀ i, Short (ids i)) (haddresses : ∀ i, Short (addresses i))
    (htells : ∀ e ∈ es, e.Tells Short) (hrun : Run step (start ids addresses configs) es c) :
    Run (wireStep codec) (start ids addresses configs) (es.map (Label.serialized codec)) c := by
  induction hrun with
  | nil => exact .nil
  | @snoc es e s t hes hs ih =>
    have hbefore : ∀ e ∈ es, e.Tells Short := fun e he => htells e (List.mem_append_left _ he)
    obtain ⟨htransmits, hfit⟩ := fits_of_run hsized hconfigs hids haddresses hbefore hes
    rw [List.map_append]
    exact (ih hbefore).snoc (wireStep_serialized hcodec htransmits hfit hs)

/-- The nodes of a pair put at most 8 updates into a message, and what they are told in `loadRun` is
short. -/
theorem short_pair : (∀ i, (pairConfigs i).maxPiggybackUpdates ≤ 8) ∧ (∀ i, Short (pairIds i)) ∧
    (∀ i, Short (pairAddresses i)) ∧ ∀ e ∈ loadRun, e.Tells Short := by
  have hseed : "10.0.0.9:17000".utf8ByteSize < 128 ∧
      "seed-".utf8ByteSize + "10.0.0.9:17000".utf8ByteSize < 128 ∧ "v2".utf8ByteSize < 128 := by
    decide
  have hping : (Address.mk "10.0.0.1" 17001).toString.utf8ByteSize < 128 := by decide
  refine ⟨by decide, ?_, ?_, ?_⟩
  · unfold Short
    decide
  · unfold Short
    decide
  · simp [loadRun, Label.Tells, Act.Tells, Short, List.replicate, hseed, hping]

/-! ## The two clusters -/

omit [DecidableEq ι] in
theorem Label.tells_of_load {i : ι} {a : Act} (ha : ∀ msg src, a ≠ .arrive msg src)
    (hload : ∀ k m v, a = .setMyLoad k m v →
      (-2 ^ 31 ≤ k ∧ k < 2 ^ 31) ∧ (-2 ^ 31 ≤ m ∧ m < 2 ^ 31)) :
    (Label.act i a).Tells fun _ => True := by
  cases a with
  | setMyLoad k m v => exact ⟨(hload k m v rfl).1, (hload k m v rfl).2, trivial⟩
  | joinCluster seeds => exact fun _ _ => ⟨trivial, trivial⟩
  | arrive msg src => exact absurd rfl (ha msg src)
  | _ => trivial

/-- **The cluster over datagrams refines the cluster over messages.** Every datagram that arrives
parses, and to a message that its sender has sent. -/
theorem wire_refines {ws : List (WireLabel ι)} (hcodec : codec.RoundTrips)
    (hload : ∀ i k m v, .act i (.setMyLoad k m v) ∈ ws →
      (-2 ^ 31 ≤ k ∧ k < 2 ^ 31) ∧ (-2 ^ 31 ≤ m ∧ m < 2 ^ 31))
    (hrun : Run (wireStep codec) (start ids addresses configs) ws c) :
    ∃ es, ws.map (WireLabel.parsed codec) = es.map some ∧
      Run step (start ids addresses configs) es c := by
  suffices h : ∃ es, ws.map (WireLabel.parsed codec) = es.map some ∧
      (∀ e ∈ es, e.Tells fun _ => True) ∧ Run step (start ids addresses configs) es c by
    obtain ⟨es, hparsed, -, hes⟩ := h
    exact ⟨es, hparsed, hes⟩
  induction hrun with
  | nil => exact ⟨[], rfl, by simp, .nil⟩
  | @snoc ws w s t _ hs ih =>
    obtain ⟨es, hparsed, htells, hes⟩ :=
      ih fun i k m v hmem => hload i k m v (List.mem_append_left _ hmem)
    have htransmits := transmits_of_run trivial (fun _ => trivial) (fun _ => trivial) htells hes
    obtain ⟨e, hw, he⟩ := parsed_of_wireStep hcodec htransmits hs
    refine ⟨es ++ [e], by simp [hparsed, hw], ?_, hes.snoc he⟩
    intro e' he'
    rcases List.mem_append.mp he' with he' | he'
    · exact htells e' he'
    · rw [List.mem_singleton.mp he']
      cases w with
      | act i a =>
        cases hw
        obtain ⟨i', a', -, -, -, ⟨heq, hne⟩ | ⟨_, _, _, heq, -⟩⟩ := step_inv he
        · cases heq
          refine Label.tells_of_load hne ?_
          rintro k m v rfl
          exact hload i k m v (by simp)
        · cases heq
      | deliver i j datagram src =>
        obtain ⟨msg, -, rfl⟩ := Option.map_eq_some_iff.mp hw
        trivial

theorem wire_refines_pair :
    ∃ c es, Run (wireStep wireCodec) (start pairIds pairAddresses pairConfigs)
        (loadRun.map (Label.serialized wireCodec)) c ∧
      (loadRun.map (Label.serialized wireCodec)).map (WireLabel.parsed wireCodec) = es.map some ∧
      Run step (start pairIds pairAddresses pairConfigs) es c := by
  obtain ⟨hconfigs, hids, haddresses, htells⟩ := short_pair
  have hrun : Run step (start pairIds pairAddresses pairConfigs) loadRun _ := run_get (by decide)
  have hwire := run_serialized wireCodec_roundTrips wireCodec_sized hconfigs hids haddresses htells
    hrun
  have hload : ∀ i k m v, .act i (.setMyLoad k m v) ∈ loadRun.map (Label.serialized wireCodec) →
      (-2 ^ 31 ≤ k ∧ k < 2 ^ 31) ∧ (-2 ^ 31 ≤ m ∧ m < 2 ^ 31) := by
    simp +contextual [loadRun, Label.serialized, List.replicate]
  obtain ⟨es, hparsed, hes⟩ := wire_refines wireCodec_roundTrips hload hwire
  exact ⟨_, es, hwire, hparsed, hes⟩

/-- **Messages fit into datagrams.** With texts of at most 127 bytes and no more than 8 updates from
the buffer, `Send` takes every message of a run, `Receive` returns it, and the run is one of the
cluster over datagrams too. -/
theorem messages_fit (hcodec : codec.RoundTrips) (hsized : codec.Sized)
    (hconfigs : ∀ i, (configs i).maxPiggybackUpdates ≤ 8)
    (hids : ∀ i, Short (ids i)) (haddresses : ∀ i, Short (addresses i))
    (htells : ∀ e ∈ es, e.Tells Short) (hrun : Run step (start ids addresses configs) es c) :
    (∀ i, ∀ d ∈ (c i).sent, ∃ datagram,
      send codec d.msg = some datagram ∧ receive codec datagram = some d.msg) ∧
    Run (wireStep codec) (start ids addresses configs) (es.map (Label.serialized codec)) c := by
  refine ⟨?_, run_serialized hcodec hsized hconfigs hids haddresses htells hrun⟩
  intro i d hd
  obtain ⟨htransmits, hfit⟩ := fits_of_run hsized hconfigs hids haddresses htells hrun
  obtain ⟨datagram, hsend⟩ := hfit i d hd
  exact ⟨datagram, hsend, receive_of_send hcodec ((htransmits i).sent hd).1 hsend⟩

theorem messages_fit_pair :
    ∃ c, Run step (start pairIds pairAddresses pairConfigs) loadRun c ∧
      ((c true).sent.map fun d => d.msg.type) = [.ping] ∧
      (∀ i, ∀ d ∈ (c i).sent, ∃ datagram, send wireCodec d.msg = some datagram ∧
        receive wireCodec datagram = some d.msg) ∧
      Run (wireStep wireCodec) (start pairIds pairAddresses pairConfigs)
        (loadRun.map (Label.serialized wireCodec)) c := by
  obtain ⟨hconfigs, hids, haddresses, htells⟩ := short_pair
  have hrun : Run step (start pairIds pairAddresses pairConfigs) loadRun _ := run_get (by decide)
  have h := messages_fit wireCodec_roundTrips wireCodec_sized hconfigs hids haddresses htells hrun
  exact ⟨_, hrun, by decide, h.1, h.2⟩

end Cluster

end LlmGateway.Gossip
