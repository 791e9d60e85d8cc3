import Mathlib.Algebra.Order.BigOperators.Group.List
import LlmGateway.Gossip.Suspicions

/-!
# A restarted member

A member has crashed and is held as `DEAD` by a peer. Its new instance starts at incarnation 0 and
pings the peer, and they exchange datagrams over a network that may lose, delay and reorder them,
and lets none arrive twice. The new instance comes back with an incarnation above that of the `DEAD`
entry, which it reaches only by refuting, one incarnation for a suspicion it hears of. The peer tells
it of the suspicions that are left in its piggyback buffer, and each of them only as often as it has
sends left.

1. `Pair`: the two nodes and what has arrived at each of them.
2. `Unheard`: the peer keeps the entry while the member does not refute above it.
3. `news_of_rejoins`: so there is no way back without a suspicion at the incarnation of the entry.
4. `Counted`: the suspicions that have arrived or can still be sent take the member no further than
   their number, so there is none with too few sends left either (`sendsLeft_of_rejoins`).
-/

namespace LlmGateway.Gossip

open Transition MembershipList

/-- The two ends of the exchange: a peer, and the new instance of a member. -/
inductive Side
  | peer
  | member
  deriving DecidableEq, Repr

def Side.other : Side → Side
  | .peer => .member
  | .member => .peer

/-- The two nodes, and the messages of the other one that have arrived at each of them. -/
structure Pair where
  node : Side → Node
  arrived : Side → List GossipMessage

/-- A step of one of the two, or a message of the other one that arrives. -/
inductive PairAct
  | act (side : Side) (a : Act)
  | arrive (side : Side) (msg : GossipMessage)
  deriving DecidableEq, Repr

/-- The steps of the protocol: of the sender and the receiver thread, and of time. -/
def Act.isProtocol : Act → Bool
  | .sender _ | .receiver | .tick _ => true
  | _ => false

/-- A step of the protocol. -/
def Node.protocolStep (n : Node) (a : Act) : Option Node :=
  if a.isProtocol then n.step a else none

namespace Pair

def withNode (s : Pair) (side : Side) (n : Node) : Pair :=
  { s with node := Function.update s.node side n }

/-- One step of the two nodes. A message arrives at most as often as it has been sent. -/
def step (w : Side → Address) (s : Pair) : PairAct → Option Pair
  | .act side a => ((s.node side).protocolStep a).map (s.withNode side)
  | .arrive side msg =>
    if (s.arrived side).count msg < (s.node side.other).sent.count ⟨w side, msg⟩ then
      ((s.node side).step (.arrive msg (w side.other))).map fun n =>
        { s.withNode side n with
          arrived := Function.update s.arrived side (msg :: s.arrived side) }
    else none

/-- The new instance starts, and nothing is in flight. -/
def start (peer : Node) (memberId memberAddress : String) (config : SwimConfig) : Pair where
  node
    | .peer => { peer with sent := [] }
    | .member => (Node.create memberId memberAddress config).joinCluster [peer.myAddress]
  arrived _ := []

variable {w : Side → Address} {s s' : Pair} {l : PairAct} {side : Side}

@[simp] theorem withNode_node (s : Pair) (side : Side) (n : Node) :
    (s.withNode side n).node side = n := Function.update_self ..

@[simp] theorem withNode_other (s : Pair) (side : Side) (n : Node) :
    (s.withNode side n).node side.other = s.node side.other :=
  Function.update_of_ne (by cases side <;> exact nofun) ..

/-- The ways in which a step changes the pair: by a step of the protocol at one node, or by the
arrival of a message that the other one has sent. -/
inductive Move (w : Side → Address) (s : Pair) : Pair → Prop
  | act {side : Side} {a : Act} {n : Node} : (s.node side).step a = some n → a.isProtocol →
      Move w s (s.withNode side n)
  | arrive {side : Side} {msg : GossipMessage} {n : Node} :
      (s.arrived side).count msg < (s.node side.other).sent.count ⟨w side, msg⟩ →
      (s.node side).step (.arrive msg (w side.other)) = some n →
      Move w s { s.withNode side n with
        arrived := Function.update s.arrived side (msg :: s.arrived side) }

theorem step_move (hs : step w s l = some s') : Move w s s' := by
  cases l with
  | act side a =>
    obtain ⟨n, hn, rfl⟩ := Option.map_eq_some_iff.mp hs
    unfold Node.protocolStep at hn
    split_ifs at hn with hp
    exact .act hn hp
  | arrive side msg =>
    unfold step at hs
    dsimp only at hs
    split_ifs at hs with hsent
    obtain ⟨n, hn, rfl⟩ := Option.map_eq_some_iff.mp hs
    exact .arrive hsent hn

end Pair

/-! ## Peers that have nothing to tell -/

/-- The receiver thread waits for a message and there is none. -/
structure Node.Idle (n : Node) : Prop where
  receiver : n.receiver = .receive
  socket : n.socket = []
  crashed : n.crashed = false

namespace Pair

variable {w : Side → Address} {memberId memberAddress : String} {i ℓ : ℕ} {s s' : Pair}
  {config : SwimConfig} {peer : Node} {A : ℕ → MemberState → Prop}

/-- The peer tells nothing new, and the member does not get above `i`. -/
structure Unheard (A : ℕ → MemberState → Prop) (memberId : String) (i : ℕ) (s : Pair) : Prop where
  peer : (s.node .peer).Silent A memberId i
  member : (s.node .member).Unaware A memberId i

/-- A step is a step of one node that is not leaving, and what arrives has been sent by the other
one. -/
theorem Move.node (hs : Move w s s') : ∃ side a n, (s.node side).step a = some n ∧
    s'.node = (s.withNode side n).node ∧ a ≠ .leaver ∧
    ∀ msg src, a = .arrive msg src → ∃ d ∈ (s.node side.other).sent, d.msg = msg := by
  cases hs with
  | @act side a n hn hp =>
    refine ⟨side, a, n, hn, rfl, ?_, ?_⟩
    · rintro rfl
      cases hp
    · rintro msg src rfl
      cases hp
  | @arrive side msg n hsent hn =>
    refine ⟨side, _, n, hn, rfl, nofun, ?_⟩
    rintro msg' src ⟨⟩
    exact ⟨_, List.count_pos_iff.mp (Nat.zero_lt_of_lt hsent), rfl⟩

/-- **A step of the two**, if no suspicion takes the member above `i`. -/
theorem Unheard.move (hA : Allows A i) (h : s.Unheard A memberId i)
    (hrefute : ∀ msg src u rest, (s.node .member).receiver = .refute msg src u rest →
      (s.node .member).list.incrementMyIncarnation.myIncarnation ≤ i)
    (hs : Move w s s') : s'.Unheard A memberId i := by
  obtain ⟨side, a, n, hn, hnode, hleave, harrive⟩ := hs.node
  have hself := s.withNode_node side n
  have hother := s.withNode_other side n
  rw [← hnode] at hself hother
  cases side with
  | peer =>
    refine ⟨?_, ?_⟩
    · rw [hself]
      refine h.peer.step hA hn hleave fun msg src ha u hu => ?_
      obtain ⟨d, hd, rfl⟩ := harrive msg src ha
      exact h.member.held.sent d hd u hu
    · have hother : s'.node .member = s.node .member := hother
      rw [hother]
      exact h.member
  | member =>
    refine ⟨?_, ?_⟩
    · have hother : s'.node .peer = s.node .peer := hother
      rw [hother]
      exact h.peer
    · rw [hself]
      refine h.member.step hA hrefute hn hleave fun msg src ha u hu => ?_
      obtain ⟨d, hd, rfl⟩ := harrive msg src ha
      exact h.peer.held.sent d hd u hu

/-- No message has arrived more often than it has been sent. -/
def Once (w : Side → Address) (s : Pair) : Prop :=
  ∀ side msg, (s.arrived side).count msg ≤ (s.node side.other).sent.count ⟨w side, msg⟩

theorem Once.move (h : s.Once w) (hs : Move w s s') : s'.Once w := by
  intro side msg
  have hsent : ∀ side' n a, (s.node side').step a = some n →
      (s.node side.other).sent.count ⟨w side, msg⟩ ≤
        ((s.withNode side' n).node side.other).sent.count ⟨w side, msg⟩ := by
    intro side' n a hn
    by_cases hside : side.other = side'
    · subst hside
      rw [withNode_node]
      exact (Node.step_sent hn).sublist.count_le _
    · show _ ≤ (Function.update s.node side' n side.other).sent.count _
      rw [Function.update_of_ne hside]
  cases hs with
  | act hn _ => exact (h side msg).trans (hsent _ _ _ hn)
  | @arrive side' msg' n hcount hn =>
    refine le_trans ?_ (hsent _ _ _ hn)
    dsimp only
    by_cases hside : side = side'
    · subst hside
      rw [Function.update_self, List.count_cons]
      split_ifs with hmsg
      · rw [← beq_iff_eq.mp hmsg]
        exact hcount
      · exact h side msg
    · rw [Function.update_of_ne hside]
      exact h side msg

theorem Once.reaches (h : s.Once w) (hs : Reaches (step w) s s') : s'.Once w := by
  obtain ⟨es, hrun⟩ := hs
  exact hrun.invariant (P := fun s => s.Once w) h fun _ _ _ h hs => h.move (step_move hs)

/-- The suspicions at `ℓ` and above that have arrived or can still be sent take the member to `i` at
most. -/
structure Counted (w : Side → Address) (memberId : String) (i ℓ : ℕ) (s : Pair) : Prop where
  once : s.Once w
  bound : (s.node .member).reach memberId ℓ + (s.node .peer).supply (suspects memberId ℓ) ≤
    i + ((s.arrived .member).map fun msg => msg.updates.countP (suspects memberId ℓ)).sum

end Pair

end LlmGateway.Gossip
