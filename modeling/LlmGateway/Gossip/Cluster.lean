import LlmGateway.Gossip.Provenance
import LlmGateway.Gossip.Refutation

/-!
# A cluster of SWIM nodes

Any number of nodes over a network that may lose, duplicate, delay and reorder datagrams: what a
node has once sent may arrive at any node, from any source address, at any later time, any number
of times or never. It does not forge: nothing else arrives.

`ClusterInv` bounds every claim about a node, wherever it is, by the node's own incarnation. The
bound is kept because claims are only passed on (`Node.Sound.step`), and it is what keeps the own
entry `ALIVE` (`Node.SelfGuarded.step`): no update is ever ahead of the node it is about.
-/

namespace LlmGateway.Gossip

open Transition MembershipList

/-- An arrival is the network's doing, not a step of the node's own. -/
def Act.isArrival : Act → Bool
  | .arrive _ _ => true
  | _ => false

/-- The nodes of a cluster, one instance each. -/
abbrev Cluster (ι : Type) := ι → Node

namespace Cluster

variable {ι : Type} [DecidableEq ι]

inductive Label (ι : Type)
  /-- The node `i` takes a step of its own. -/
  | act (i : ι) (a : Act)
  /-- A message the node `j` has sent arrives at the node `i`. -/
  | deliver (i j : ι) (msg : GossipMessage) (src : Address)
  deriving DecidableEq

/-- One step of the cluster. -/
def step (c : Cluster ι) : Label ι → Option (Cluster ι)
  | .act i a => if a.isArrival then none else ((c i).step a).map (Function.update c i)
  | .deliver i j msg src =>
    if msg ∈ (c j).sent.map Datagram.msg then
      ((c i).step (.arrive msg src)).map (Function.update c i)
    else none

/-- The start of a cluster: every node knows only itself. -/
def start (ids addresses : ι → String) (configs : ι → SwimConfig) : Cluster ι :=
  fun i => Node.create (ids i) (addresses i) (configs i)

/-- The step in which the node `x` calls `IncrementMyIncarnation`. -/
def increments (x : ι) (c : Cluster ι) (e : Label ι) : Bool :=
  e = .act x .receiver ∧ (c x).isRefuting

/-- A claim about a node of the cluster is not above the node's own incarnation. -/
def Bounded (ids : ι → String) (c : Cluster ι) : ClaimPred :=
  fun id k => ∀ x, ids x = id → k ≤ (c x).list.myIncarnation

variable {ids addresses : ι → String} {configs : ι → SwimConfig} {c c' : Cluster ι}
  {e : Label ι} {es : List (Label ι)} {x : ι}

/-- A step of the cluster is a step of one node; what arrives there has been sent. -/
theorem step_inv (hs : step c e = some c') : ∃ i a n', (c i).step a = some n' ∧
    c' = Function.update c i n' ∧
    ((e = .act i a ∧ ∀ msg src, a ≠ .arrive msg src) ∨
      ∃ j msg src, e = .deliver i j msg src ∧ a = .arrive msg src ∧
        ∃ d ∈ (c j).sent, d.msg = msg) := by
  cases e with
  | act i a =>
    unfold step at hs
    dsimp only at hs
    split_ifs at hs with ha
    obtain ⟨n', hn, rfl⟩ := Option.map_eq_some_iff.mp hs
    refine ⟨i, a, n', hn, rfl, Or.inl ⟨rfl, ?_⟩⟩
    rintro msg src rfl
    exact ha rfl
  | deliver i j msg src =>
    unfold step at hs
    dsimp only at hs
    split_ifs at hs with hmem
    obtain ⟨n', hn, rfl⟩ := Option.map_eq_some_iff.mp hs
    exact ⟨i, _, n', hn, rfl, Or.inr ⟨j, msg, src, rfl, rfl, List.mem_map.mp hmem⟩⟩

theorem step_node (hs : step c e = some c') (j : ι) :
    c' j = c j ∨ ∃ a, (c j).step a = some (c' j) := by
  obtain ⟨i, a, n', hn, rfl, -⟩ := step_inv hs
  by_cases hj : j = i
  · subst hj
    rw [Function.update_self]
    exact Or.inr ⟨a, hn⟩
  · exact Or.inl (Function.update_of_ne hj ..)

theorem step_act {i : ι} {a : Act} (hs : step c (.act i a) = some c') :
    ∃ n', (c i).step a = some n' ∧ c' = Function.update c i n' := by
  obtain ⟨i', a', n', hn, rfl, ⟨heq, -⟩ | ⟨_, _, _, heq, -⟩⟩ := step_inv hs
  · cases heq
    exact ⟨n', hn, rfl⟩
  · cases heq

/-- What holds of every reachable cluster. -/
structure Inv (ids : ι → String) (c : Cluster ι) : Prop where
  bounded : ∀ j, (c j).Sound (Bounded ids c)
  guarded : ∀ x, (c x).SelfGuarded
  myId : ∀ x, (c x).list.myId = ids x

omit [DecidableEq ι] in
theorem inv_start (ids addresses : ι → String) (configs : ι → SwimConfig) :
    Inv ids (start ids addresses configs) where
  bounded _ := Node.create_sound (fun _ _ _ => Nat.zero_le _) ..
  guarded _ := Node.create_selfGuarded ..
  myId _ := addMember_own.2

/-- The own incarnation of a node counts its refutations. -/
theorem myIncarnation_step (hs : step c e = some c') (x : ι)
    (hwrap : increments x c e → (c x).list.myIncarnation + 1 < 2 ^ 64) :
    (c' x).list.myIncarnation =
      (c x).list.myIncarnation + if increments x c e then 1 else 0 := by
  obtain ⟨i, a, n', hn, rfl, hlabel⟩ := step_inv hs
  have hincr : increments x c e ↔ i = x ∧ a = .receiver ∧ (c x).isRefuting := by
    unfold increments
    rw [decide_eq_true_iff]
    rcases hlabel with ⟨rfl, -⟩ | ⟨j, msg, src, rfl, rfl, -⟩
    · simp only [Label.act.injEq]
      tauto
    · simp
  by_cases hx : i = x
  · subst hx
    rw [Function.update_self]
    by_cases hr : a = .receiver ∧ (c i).isRefuting
    · have hi := hincr.mpr ⟨rfl, hr⟩
      have hlt := hwrap hi
      obtain ⟨rfl, hr⟩ := hr
      obtain ⟨msg, src, u, rest, hpc⟩ := Node.isRefuting_iff.mp hr
      rw [if_pos hi, (Node.step_refute hpc hn).1, incrementMyIncarnation_myIncarnation]
      omega
    · rw [if_neg fun hi => hr (hincr.mp hi).2, Node.step_myIncarnation hn hr]
      omega
  · rw [Function.update_of_ne (Ne.symm hx), if_neg fun hi => hx (hincr.mp hi).1]
    omega

/-- **Every step keeps the bound.** -/
theorem Inv.step (hids : Function.Injective ids) (h : Inv ids c) (hs : step c e = some c')
    (hleave : ∀ i, e ≠ .act i .leaver)
    (hwrap : ∀ x, increments x c e → (c x).list.myIncarnation + 1 < 2 ^ 64) : Inv ids c' := by
  have hmono : ∀ x, (c x).list.myIncarnation ≤ (c' x).list.myIncarnation := by
    intro x
    rw [myIncarnation_step hs x (hwrap x)]
    exact Nat.le_add_right _ _
  have hbound : ∀ id k, Bounded ids c id k → Bounded ids c' id k :=
    fun id k hk x hx => (hk x hx).trans (hmono x)
  obtain ⟨i, a, n', hn, rfl, hlabel⟩ := step_inv hs
  have hid : n'.list.myId = (c i).list.myId := ((h.guarded i).toOwnKnown.step hn).2
  -- no update the receiver thread takes up is ahead of the node it is about
  have hahead : (c i).NotAhead := by
    intro msg src u rest hpc hself
    have hu := (h.bounded i).receiver u (by rw [hpc]; exact List.mem_cons_self)
    exact hu i ((h.myId i).symm.trans hself.symm)
  have hlabel' : a = .receiver → e = .act i .receiver := by
    rintro rfl
    rcases hlabel with ⟨rfl, -⟩ | ⟨j, msg, src, -, ha, -⟩
    · rfl
    · cases ha
  have hwrap' : a = .receiver → ∀ msg src u rest, (c i).receiver = .refute msg src u rest →
      (c i).list.myIncarnation + 1 < 2 ^ 64 := by
    intro ha msg src u rest hpc
    refine hwrap i ?_
    unfold increments
    rw [decide_eq_true_iff]
    exact ⟨hlabel' ha, Node.isRefuting_iff.mpr ⟨_, _, _, _, hpc⟩⟩
  have hown : Bounded ids (Function.update c i n') (c i).list.myId n'.list.myIncarnation := by
    intro x hx
    have hxi : x = i := hids (hx.trans (h.myId i))
    rw [hxi, Function.update_self]
  have hsound : n'.Sound (Bounded ids (Function.update c i n')) := by
    refine Node.Sound.step ⟨(h.bounded i).toClaimsIn.mono hbound, ?_⟩ ?_ ?_ ?_ ?_ hn
    · exact hbound _ _ (h.bounded i).own
    · exact fun _ _ _ => Nat.zero_le _
    · rintro msg src rfl u hu
      rcases hlabel with ⟨-, hne⟩ | ⟨j, msg', src', rfl, heq, d, hd, rfl⟩
      · exact absurd rfl (hne msg src)
      · cases heq
        exact hbound _ _ ((h.bounded j).sent d hd u hu)
    · rintro msg src u rest hpc rfl
      rw [← (Node.step_refute hpc hn).1]
      exact hown
    · rintro rfl
      rcases hlabel with ⟨rfl, -⟩ | ⟨j, msg, src, -, heq, -⟩
      · exact hleave i rfl
      · cases heq
  refine ⟨?_, ?_, ?_⟩
  · intro j
    by_cases hj : j = i
    · subst hj
      rw [Function.update_self]
      exact hsound
    · rw [Function.update_of_ne hj]
      exact ⟨(h.bounded j).toClaimsIn.mono hbound, hbound _ _ (h.bounded j).own⟩
  · intro x
    by_cases hx : x = i
    · subst hx
      rw [Function.update_self]
      exact (h.guarded x).step hn hahead hwrap'
    · rw [Function.update_of_ne hx]
      exact h.guarded x
  · intro x
    by_cases hx : x = i
    · subst hx
      rw [Function.update_self, hid]
      exact h.myId x
    · rw [Function.update_of_ne hx]
      exact h.myId x

/-- **Runs of a cluster.** While no counter has wrapped, the invariant holds and every own
incarnation counts the refutations of its node. -/
theorem inv_of_run (hids : Function.Injective ids)
    (hrun : Run step (start ids addresses configs) es c) (hleave : ∀ i, .act i .leaver ∉ es)
    (hcount : ∀ x, stepCount step (increments x) (start ids addresses configs) es < 2 ^ 64) :
    Inv ids c ∧ ∀ x, (c x).list.myIncarnation =
      stepCount step (increments x) (start ids addresses configs) es := by
  induction hrun with
  | nil => exact ⟨inv_start .., fun x => addMember_own.1⟩
  | @snoc es e s t hrun hs ih =>
    have hcount' : ∀ x, stepCount step (increments x) (start ids addresses configs) es +
        (if increments x s e then 1 else 0) < 2 ^ 64 := by
      intro x
      rw [← stepCount_snoc hrun]
      exact hcount x
    obtain ⟨hinv, hinc⟩ := ih (fun i hi => hleave i (List.mem_append_left _ hi))
      fun x => (Nat.le_add_right _ _).trans_lt (hcount' x)
    have hwrap : ∀ x, increments x s e → (s x).list.myIncarnation + 1 < 2 ^ 64 := by
      intro x hx
      have := hcount' x
      rw [if_pos hx, ← hinc x] at this
      exact this
    refine ⟨hinv.step hids hs ?_ hwrap, ?_⟩
    · rintro i rfl
      exact hleave i (by simp)
    · intro x
      rw [myIncarnation_step hs x (hwrap x), stepCount_snoc hrun, hinc x]

/-- **Incarnations in a cluster.** In every run without a counter overflow and without a leaving
node: no claim about a node, wherever it is, is above the node's own incarnation; the own entry is
`ALIVE` there; and when a node refutes, its new incarnation is above every claim about it at the
other nodes and in flight, so that the refutation wins at every node. -/
theorem incarnations_bounded (hids : Function.Injective ids)
    (hrun : Run step (start ids addresses configs) es c) (hleave : ∀ i, .act i .leaver ∉ es)
    (hcount : ∀ x, stepCount step (increments x) (start ids addresses configs) es < 2 ^ 64) :
    (∀ x j, (c j).ClaimsIn fun id k => id = ids x → k ≤ (c x).list.myIncarnation) ∧
    (∀ x, (c x).list.myId = ids x ∧ (c x).list.OwnAlive) ∧
    ∀ x c', step c (.act x .receiver) = some c' → (c x).isRefuting →
      stepCount step (increments x) (start ids addresses configs) es + 1 < 2 ^ 64 →
      (∀ j, j ≠ x → (c' j).ClaimsIn fun id k => id = ids x → k < (c' x).list.myIncarnation) ∧
      (∀ j, ∀ d ∈ (c' j).sent, ∀ u ∈ d.msg.updates, u.memberId = ids x →
        u.incarnation < (c' x).list.myIncarnation) ∧
      ∀ j, j ≠ x → ∀ now u, u.memberId = ids x →
        u.rank = toLex ((c' x).list.myIncarnation, .alive) →
        ((c' j).list.applyUpdate now u).list.rankOf (ids x) =
          ((toLex ((c' x).list.myIncarnation, .alive) : Rank) : WithBot Rank) := by
  obtain ⟨hinv, hinc⟩ := inv_of_run hids hrun hleave hcount
  have hle : ∀ x j, (c j).ClaimsIn fun id k => id = ids x → k ≤ (c x).list.myIncarnation :=
    fun x j => (hinv.bounded j).toClaimsIn.mono fun id k hk hid => hk x hid.symm
  refine ⟨hle, fun x => ⟨hinv.myId x, (hinv.guarded x).ownAlive⟩, ?_⟩
  intro x c' hs hrefuting hlt
  have hincr : increments x c (.act x .receiver) := by
    unfold increments
    rw [decide_eq_true_iff]
    exact ⟨rfl, hrefuting⟩
  have hnew : (c' x).list.myIncarnation = (c x).list.myIncarnation + 1 := by
    rw [myIncarnation_step hs x fun _ => by rw [hinc x]; exact hlt, if_pos hincr]
  obtain ⟨n', hn, rfl⟩ := step_act hs
  obtain ⟨msg, src, u, rest, hpc⟩ := Node.isRefuting_iff.mp hrefuting
  have hother : ∀ j, j ≠ x → (Function.update c x n' j).ClaimsIn fun id k =>
      id = ids x → k < (Function.update c x n' x).list.myIncarnation := by
    intro j hj
    rw [Function.update_of_ne hj]
    refine (hle x j).mono fun id k hk hid => ?_
    have := hk hid
    omega
  refine ⟨hother, ?_, ?_⟩
  · intro j d hd v hv hid
    have hd' : d ∈ (c j).sent := by
      by_cases hj : j = x
      · subst hj
        rw [Function.update_self, Node.step_refute_sent hpc hn] at hd
        exact hd
      · rwa [Function.update_of_ne hj] at hd
    have hv : v.memberId = ids x → v.incarnation ≤ (c x).list.myIncarnation :=
      (hle x j).sent d hd' v hv
    have := hv hid
    omega
  · intro j hj now v hid hrank
    rw [rankOf_applyUpdate, ← hid, JoinMap.join_self, ← hrank]
    refine sup_eq_right.mpr ?_
    cases hl : (Function.update c x n' j).list.members.lookup v.memberId with
    | none => rw [rankOf_of_none hl]; exact bot_le
    | some e =>
      rw [rankOf_of_lookup hl, hrank]
      refine WithBot.coe_le_coe.mpr (Prod.Lex.toLex_le_toLex.mpr (Or.inl ?_))
      exact (hother j hj).list.members _ e hl hid

def pairIds : Bool → String
  | false => "gateway-1"
  | true => "replica-1"

def pairAddresses : Bool → String
  | false => "10.0.0.9:17000"
  | true => "10.0.0.1:17001"

def pairConfigs : Bool → SwimConfig
  | false => { indirectPingCount := 0 }
  | true => { maxPiggybackUpdates := 0 }

def pairUpdate (i : Bool) (state : MemberState) : MembershipUpdate :=
  ⟨pairIds i, pairAddresses i, state, 0, "", 0, 0⟩

def pairPing : Label Bool :=
  .deliver false true ⟨.ping, "replica-1", "", 1, [pairUpdate true .alive]⟩ ⟨"10.0.0.1", 17001⟩

def pairAck : Label Bool :=
  .deliver true false ⟨.ack, "gateway-1", "", 1, [pairUpdate false .alive, pairUpdate true .alive,
    pairUpdate true .suspect, pairUpdate false .alive]⟩ ⟨"10.0.0.9", 17000⟩

/-- A gateway learns of a replica from a `PING`, misses an ACK and suspects it; the `PING` arrives
once more, and the ACK to it carries the suspicion to the replica. -/
def pairRun : List (Label Bool) :=
  [.act true (.joinCluster ["10.0.0.9:17000"]),
    .act true (.sender (.peer "seed-10.0.0.9:17000"))] ++
  List.replicate 3 (.act true (.sender .none)) ++ [pairPing] ++
  List.replicate 7 (.act false .receiver) ++ [.act false (.sender (.peer "replica-1"))] ++
  List.replicate 4 (.act false (.sender .none)) ++ [.act false (.tick 200000000)] ++
  List.replicate 4 (.act false (.sender .none)) ++ [pairPing] ++
  List.replicate 7 (.act false .receiver) ++ [pairAck] ++ List.replicate 6 (.act true .receiver)

theorem incarnations_bounded_pair :
    ∃ c c', Run step (start pairIds pairAddresses pairConfigs) pairRun c ∧
      step c (.act true .receiver) = some c' ∧ (c' true).list.myIncarnation = 1 ∧
      ((c false).list.getMember "replica-1").map MemberInfo.state = some .suspect ∧
      (c' false).ClaimsIn fun id k => id = "replica-1" → k < 1 := by
  have hrun : Run step (start pairIds pairAddresses pairConfigs) pairRun _ := run_get (by decide)
  have hs : step ((exec step (start pairIds pairAddresses pairConfigs) pairRun).get (by decide))
      (.act true .receiver) = some _ := (Option.some_get (by decide)).symm
  have hinj : Function.Injective pairIds := by
    intro a b h
    cases a <;> cases b <;> first | rfl | exact absurd h (by decide)
  have h := (incarnations_bounded hinj hrun (by decide) (by decide)).2.2 true _ hs (by decide) (by decide)
  exact ⟨_, _, hrun, hs, by decide, by decide, h.1 false (by decide)⟩

end Cluster

end LlmGateway.Gossip
