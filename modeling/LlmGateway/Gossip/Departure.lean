import LlmGateway.Gossip.Cluster
import LlmGateway.Gossip.MembershipCallback

/-!
# Leaving the cluster

`LeaveCluster` at incarnation `k` announces the node as `DEAD` at `k + 1`, and leaves its own
incarnation at `k`. Every peer passes the announcement on, to the leaving node too, whose receiver
thread takes it for a false suspicion: it refutes to `k + 1`, which the announcement still beats,
and the next time to `k + 2`, which beats the announcement at every peer.

1. `LifeUpTo`: no update says that the member lives, `ALIVE` or `SUSPECT`, above an incarnation.
   A step of the cluster keeps that while the member does not refute beyond it (`LifeUpTo.step`).
2. `rankOf_le_step`: what a node knows of another one only grows.
3. `departure_final`: so a departure that a peer has applied is final, as long as the member does
   not refute above the incarnation it left at.
-/

namespace LlmGateway.Gossip

open Transition MembershipList

/-- The update does not say that the member lives above the incarnation `i`. -/
def LifeUpTo (memberId : String) (i : ℕ) (u : MembershipUpdate) : Prop :=
  u.memberId = memberId → u.state ≠ .dead → u.incarnation ≤ i

theorem LifeUpTo.mono {memberId : String} {i j : ℕ} {u : MembershipUpdate}
    (h : LifeUpTo memberId i u) (hij : i ≤ j) : LifeUpTo memberId j u :=
  fun hid hst => (h hid hst).trans hij

namespace MembershipList

variable {U : MembershipUpdate → Prop} {L : MembershipList} {id memberId address : String}
  {e : MemberInfo} {u : MembershipUpdate} {now i : ℕ}

theorem Reports.applyUpdate (h : L.Reports (LifeUpTo memberId i)) (hu : LifeUpTo memberId i u) :
    (L.applyUpdate now u).list.Reports (LifeUpTo memberId i) := by
  rcases applyUpdate_list L now u with hl | ⟨e, he, hl⟩ | ⟨e, hl⟩ <;> rw [hl]
  · exact h
  · exact h.setMember (h.members _ e he)
  · exact h.record hu

/-! ## Knowledge grows -/

theorem rankOf_le_record (hle : L.rankOf id ≤ (e.rank : WithBot Rank)) :
    L.rankOf ≤ (L.record id e).rankOf := by
  rw [rankOf_record, rankOf_setMember]
  intro id'
  by_cases hid : id' = id
  · subst hid
    rw [Function.update_self]
    exact hle
  · rw [Function.update_of_ne hid]

theorem rankOf_le_applyUpdate (L : MembershipList) (now : ℕ) (u : MembershipUpdate) :
    L.rankOf ≤ (L.applyUpdate now u).list.rankOf := by
  rw [rankOf_applyUpdate]
  exact fun id => JoinMap.le_join L.rankOf _ id

theorem rankOf_le_markSuspect (L : MembershipList) (now : ℕ) (id : String) :
    L.rankOf ≤ (L.markSuspect now id).list.rankOf := by
  unfold markSuspect
  cases he : L.members.lookup id with
  | none => exact le_refl _
  | some e =>
    dsimp only
    split_ifs with hst
    · exact le_refl _
    · refine rankOf_le_record ?_
      rw [rankOf_of_lookup he]
      refine WithBot.coe_le_coe.mpr (Prod.Lex.toLex_le_toLex.mpr (Or.inr ⟨rfl, ?_⟩))
      rw [not_not.mp hst]
      exact MemberState.alive_le _

theorem rankOf_le_markDead (L : MembershipList) (id : String) :
    L.rankOf ≤ (L.markDead id).list.rankOf := by
  unfold markDead
  cases he : L.members.lookup id with
  | none => exact le_refl _
  | some e =>
    dsimp only
    split_ifs
    · exact le_refl _
    · refine rankOf_le_record ?_
      rw [rankOf_of_lookup he]
      exact WithBot.coe_le_coe.mpr
        (Prod.Lex.toLex_le_toLex.mpr (Or.inr ⟨rfl, MemberState.le_dead _⟩))

theorem rankOf_le_addMembers (L : MembershipList) (members : List (String × String)) :
    L.rankOf ≤ (L.addMembers members).rankOf := by
  intro id
  cases he : L.members.lookup id with
  | none => rw [rankOf_of_none he]; exact bot_le
  | some e => rw [rankOf_of_lookup he, rankOf_of_lookup (addMembers_getMember he)]

end MembershipList

namespace Node

variable {n n' : Node} {a : Act} {L' : MembershipList} {id memberId : String} {i : ℕ}
  {U : MembershipUpdate → Prop}

theorem ListEffect.rankOf_le (he : ListEffect n a L') (hid : id ≠ n.list.myId) :
    n.list.rankOf id ≤ L'.rankOf id := by
  cases he with
  | keep => exact le_refl _
  | collect m => exact le_refl _
  | suspect _ => exact rankOf_le_markSuspect n.list _ _ id
  | expire _ _ => exact rankOf_le_markDead n.list _ id
  | add members => exact rankOf_le_addMembers n.list members id
  | refute _ =>
    unfold MembershipList.rankOf
    rw [incrementMyIncarnation_lookup_of_ne hid]
  | apply _ => exact rankOf_le_applyUpdate n.list _ _ id

/-- The list after a step says of no life above `i`, when what is applied does not and the member
itself does not refute above it. -/
theorem ListEffect.lifeUpTo (he : ListEffect n a L') (h : n.list.Reports (LifeUpTo memberId i))
    (happly : ∀ u ∈ n.receiver.held, LifeUpTo memberId i u)
    (hrefute : n.list.myId = memberId → n.list.incrementMyIncarnation.myIncarnation ≤ i ∨
      ¬ (a = .receiver ∧ n.isRefuting)) :
    L'.Reports (LifeUpTo memberId i) := by
  cases he with
  | keep => exact h
  | collect m => exact h.takeUpdates m
  | suspect _ =>
    -- a suspicion repeats the incarnation at which the member was `ALIVE`
    refine h.markSuspect fun e he hst hid _ => h.members _ e he hid ?_
    show e.state ≠ .dead
    rw [hst]
    decide
  | expire _ _ => exact h.markDead fun _ _ _ hst => absurd rfl hst
  | add members => exact h.addMembers fun _ _ _ _ => Nat.zero_le _
  | refute hpc =>
    refine Reports.record (L := { n.list with myIncarnation := _ }) ⟨h.members, h.buffer⟩ ?_
    intro hid _
    rcases hrefute hid with hle | hnot
    · exact hle
    · exact absurd ⟨rfl, isRefuting_iff.mpr ⟨_, _, _, _, hpc⟩⟩ hnot
  | apply hpc => exact h.applyUpdate (happly _ (by rw [hpc]; exact List.mem_cons_self))

/-! ## `LeaveCluster` -/

/-- The update `LeaveCluster` announces. -/
def leaveUpdate (n : Node) : MembershipUpdate :=
  { memberId := n.list.myId, address := n.myAddress, state := .dead,
    incarnation := (n.list.myIncarnation + 1) % 2 ^ 64 }

theorem Held.leaverStep (h : n.Held U) (hleave : U n.leaveUpdate) (hs : n.leaverStep = some n') :
    n'.Held U := by
  cases leaverStep_move hs with
  | snapshot | done => exact { h with leaver := by intro u hu; cases hu }
  | readIncarnation =>
    refine { h with leaver := ?_ }
    intro u hu
    rw [List.mem_singleton.mp hu]
    exact hleave
  | @announce leave peer peers hpc =>
    have hheld := h.leaver
    rw [hpc] at hheld
    refine Held.withAddress ?_ fun dest => ?_
    · exact { h with }
    · refine { h with leaver := hheld, sent := ?_ }
      intro d hd u hu
      rcases List.mem_append.mp hd with hd | hd
      · exact h.sent d hd u hu
      · rw [List.mem_singleton.mp hd] at hu
        exact hheld u hu

/-- What the node says and holds, and what it says of itself, has the member live up to `i`. -/
structure LifeUpTo (memberId : String) (i : ℕ) (n : Node) : Prop
    extends n.Held (Gossip.LifeUpTo memberId i) where
  reports : n.list.Reports (Gossip.LifeUpTo memberId i)
  own : n.list.myId = memberId → n.list.myIncarnation ≤ i

theorem LifeUpTo.mono {j : ℕ} (h : n.LifeUpTo memberId i) (hij : i ≤ j) :
    n.LifeUpTo memberId j where
  sender u hu := (h.sender u hu).mono hij
  receiver u hu := (h.receiver u hu).mono hij
  leaver u hu := (h.leaver u hu).mono hij
  socket d hd u hu := (h.socket d hd u hu).mono hij
  sent d hd u hu := (h.sent d hd u hu).mono hij
  reports := ⟨fun id e he => (h.reports.members id e he).mono hij,
    fun q hq => (h.reports.buffer q hq).mono hij⟩
  own hid := (h.own hid).trans hij

theorem create_lifeUpTo (myId myAddress : String) (config : SwimConfig) :
    (create myId myAddress config).LifeUpTo memberId 0 where
  toHeld := create_held ..
  reports := reports_empty.addMember fun _ _ => Nat.zero_le _
  own _ := le_of_eq addMember_own.1

/-- **A step of a node.** -/
theorem LifeUpTo.step (h : n.LifeUpTo memberId i) (hknown : n.OwnKnown)
    (hrefute : n.list.myId = memberId → a = .receiver ∧ n.isRefuting →
      n.list.incrementMyIncarnation.myIncarnation ≤ i)
    (harrive : ∀ msg src, a = .arrive msg src → ∀ u ∈ msg.updates, Gossip.LifeUpTo memberId i u)
    (hs : n.step a = some n') : n'.LifeUpTo memberId i where
  toHeld := by
    by_cases hleave : a = .leaver
    · subst hleave
      cases step_move hs with
      | leaver _ hs => exact Held.leaverStep h.toHeld (fun _ hst => absurd rfl hst) hs
    · exact h.toHeld.step (fun _ => h.reports.buffer) (fun hid _ => h.own hid) harrive hleave hs
  reports := by
    refine ListEffect.lifeUpTo (step_spec hs).list h.reports h.receiver fun hid => ?_
    by_cases hr : a = .receiver ∧ n.isRefuting
    · exact Or.inl (hrefute hid hr)
    · exact Or.inr hr
  own := by
    intro hid
    rw [(hknown.step hs).2] at hid
    by_cases hr : a = .receiver ∧ n.isRefuting
    · obtain ⟨rfl, hr'⟩ := hr
      obtain ⟨msg, src, u, rest, hpc⟩ := isRefuting_iff.mp hr'
      rw [(step_refute hpc hs).1]
      exact hrefute hid ⟨rfl, hr'⟩
    · rw [step_myIncarnation hs hr]
      exact h.own hid

end Node

namespace Cluster

variable {ι : Type} [DecidableEq ι] {ids addresses : ι → String} {configs : ι → SwimConfig}
  {s c c' : Cluster ι} {e : Label ι} {es fs : List (Label ι)} {x j : ι} {i k : ℕ}

/-- No node says that `x` lives above the incarnation `i`, and every node is in its own list. -/
structure LifeUpTo (ids : ι → String) (x : ι) (i : ℕ) (c : Cluster ι) : Prop where
  nodes : ∀ j, (c j).LifeUpTo (ids x) i
  known : ∀ j, (c j).OwnKnown
  myId : ∀ j, (c j).list.myId = ids j

omit [DecidableEq ι] in
theorem lifeUpTo_start (ids addresses : ι → String) (configs : ι → SwimConfig) :
    LifeUpTo ids x 0 (start ids addresses configs) where
  nodes _ := Node.create_lifeUpTo ..
  known _ := Node.create_ownKnown ..
  myId _ := addMember_own.2

omit [DecidableEq ι] in
theorem LifeUpTo.mono (h : LifeUpTo ids x i c) (hik : i ≤ k) : LifeUpTo ids x k c where
  nodes j := (h.nodes j).mono hik
  known := h.known
  myId := h.myId

theorem LifeUpTo.step (hids : Function.Injective ids) (h : LifeUpTo ids x i c)
    (hs : step c e = some c')
    (hrefute : increments x c e → (c x).list.incrementMyIncarnation.myIncarnation ≤ i) :
    LifeUpTo ids x i c' := by
  obtain ⟨m, a, n', hn, rfl, hlabel⟩ := step_inv hs
  obtain ⟨hknown, hid⟩ := (h.known m).step hn
  have hlife : n'.LifeUpTo (ids x) i := by
    refine (h.nodes m).step (h.known m) ?_ ?_ hn
    · rintro hself ⟨rfl, hr⟩
      obtain rfl : m = x := hids ((h.myId m).symm.trans hself)
      refine hrefute ?_
      unfold increments
      rw [decide_eq_true_iff]
      rcases hlabel with ⟨rfl, -⟩ | ⟨_, _, _, -, heq, -⟩
      · exact ⟨rfl, hr⟩
      · cases heq
    · rintro msg src rfl u hu
      rcases hlabel with ⟨-, hne⟩ | ⟨sender, msg', src', -, heq, d, hd, rfl⟩
      · exact absurd rfl (hne msg src)
      · cases heq
        exact (h.nodes sender).sent d hd u hu
  refine ⟨?_, ?_, ?_⟩ <;> intro j <;> by_cases hj : j = m
  · rw [hj, Function.update_self]
    exact hlife
  · rw [Function.update_of_ne hj]
    exact h.nodes j
  · rw [hj, Function.update_self]
    exact hknown
  · rw [Function.update_of_ne hj]
    exact h.known j
  · rw [hj, Function.update_self, hid]
    exact h.myId m
  · rw [Function.update_of_ne hj]
    exact h.myId j

/-- While the counter of `x` has not wrapped, nobody says that `x` lives above its incarnation. -/
theorem lifeUpTo_of_run (hids : Function.Injective ids)
    (hrun : Run step (start ids addresses configs) es s)
    (hwide : EveryStep step (start ids addresses configs) es fun _ t e =>
      increments x t e → (t x).list.myIncarnation + 1 < 2 ^ 64) :
    LifeUpTo ids x (s x).list.myIncarnation s := by
  induction hrun with
  | nil => exact (lifeUpTo_start ids addresses configs).mono (Nat.zero_le _)
  | @snoc es e s t hrun hs ih =>
    obtain ⟨hpre, hlast⟩ := (everyStep_snoc hrun).mp hwide
    have hnext := myIncarnation_step hs x hlast
    refine ((ih hpre).mono ?_).step hids hs fun hincr => ?_
    · omega
    · rw [if_pos hincr] at hnext
      rw [hnext]
      exact Nat.mod_le _ _

/-- And while `x` does not refute above `k`, nobody says that it lives above `k + 1`. -/
theorem lifeUpTo_run (hids : Function.Injective ids) (h : LifeUpTo ids x (k + 1) s)
    (hrun : Run step s fs c)
    (hrefute : EveryStep step s fs fun _ t e =>
      increments x t e → (t x).list.myIncarnation ≤ k) :
    LifeUpTo ids x (k + 1) c := by
  induction hrun with
  | nil => exact h
  | snoc hrun hs ih =>
    obtain ⟨hpre, hlast⟩ := (everyStep_snoc hrun).mp hrefute
    refine (ih hpre).step hids hs fun hincr => ?_
    exact (Nat.mod_le _ _).trans (Nat.succ_le_succ (hlast hincr))

theorem rankOf_le_step (hs : step c e = some c') (hid : ids x ≠ (c j).list.myId) :
    (c j).list.rankOf (ids x) ≤ (c' j).list.rankOf (ids x) := by
  rcases step_node hs j with hsame | ⟨a, hn⟩
  · rw [hsame]
  · exact (Node.step_spec hn).list.rankOf_le hid

theorem rankOf_le_run (hids : Function.Injective ids) (h : LifeUpTo ids x i s) (hj : j ≠ x)
    (hrun : Run step s fs c) :
    (s j).list.rankOf (ids x) ≤ (c j).list.rankOf (ids x) := by
  have hall : (s j).list.rankOf (ids x) ≤ (c j).list.rankOf (ids x) ∧
      (∀ m, (c m).OwnKnown ∧ (c m).list.myId = ids m) := by
    induction hrun with
    | nil => exact ⟨le_refl _, fun m => ⟨h.known m, h.myId m⟩⟩
    | @snoc fs e t c hrun hs ih =>
      obtain ⟨hle, hown⟩ := ih
      refine ⟨hle.trans (rankOf_le_step hs ?_), fun m => ?_⟩
      · rw [(hown j).2]
        exact fun heq => hj (hids heq).symm
      · rcases step_node hs m with hsame | ⟨a, hn⟩
        · rw [hsame]
          exact hown m
        · obtain ⟨hknown, hid⟩ := (hown m).1.step hn
          exact ⟨hknown, hid.trans (hown m).2⟩
  exact hall.1

/-- `x` is in `LeaveCluster`, about to read the incarnation `k`. -/
def Leaves (x : ι) (k : ℕ) (c : Cluster ι) : Prop :=
  (∃ peers, (c x).leaver = .readIncarnation peers) ∧ (c x).list.myIncarnation = k

/-- In the run `fs` from `s` the node `j` applies the update `leave`, as announced or as passed on
with the load another node holds. -/
def Applies (j : ι) (leave : MembershipUpdate) (s : Cluster ι) (fs : List (Label ι)) : Prop :=
  ∃ pre t msg src u rest, pre ++ [.act j .receiver] <+: fs ∧ Run step s pre t ∧
    (t j).receiver = .apply msg src u rest ∧ u.memberId = leave.memberId ∧ u.rank = leave.rank

/-- **A departure is final while it is refuted at most once.** When `x` leaves at incarnation `k` and
from then on refutes only at `k`, a peer that has applied the announcement holds `x` as `DEAD`. -/
theorem departure_final (hids : Function.Injective ids)
    (hrun : Run step (start ids addresses configs) es s)
    (hwide : EveryStep step (start ids addresses configs) es fun _ t e =>
      increments x t e → (t x).list.myIncarnation + 1 < 2 ^ 64)
    (hleave : Leaves x k s) (hk : k + 1 < 2 ^ 64) (hrun' : Run step s fs c)
    (hrefute : EveryStep step s fs fun _ t e =>
      increments x t e → (t x).list.myIncarnation ≤ k)
    (hj : j ≠ x) (happlied : Applies j (s x).leaveUpdate s fs) :
    ∃ info, (c j).list.getMember (ids x) = some info ∧ info.state = .dead := by
  have hstart : LifeUpTo ids x (k + 1) s := by
    have h := lifeUpTo_of_run hids hrun hwide
    rw [hleave.2] at h
    exact h.mono (Nat.le_succ k)
  have hrank : (s x).leaveUpdate.rank = toLex (k + 1, .dead) := by
    show toLex (((s x).list.myIncarnation + 1) % 2 ^ 64, MemberState.dead) = _
    rw [hleave.2, Nat.mod_eq_of_lt hk]
  obtain ⟨pre, t, msg, src, u, rest, hpre, ht, hpc, hid, hu⟩ := happlied
  obtain ⟨t', gs, hstep, ht', hgs⟩ := hrun'.step_of_prefix hpre ht
  -- the update is in the list of `j` after it has been applied, and stays there
  have happly : ((toLex (k + 1, .dead) : Rank) : WithBot Rank) ≤
      (t' j).list.rankOf (ids x) := by
    obtain ⟨n', hn, rfl⟩ := step_act hstep
    have hmember : u.memberId = ids x := hid.trans (hstart.myId x)
    rw [Function.update_self, (Node.step_apply hpc hn).1, ← hmember, rankOf_applyUpdate,
      JoinMap.join_self, hu, hrank]
    exact le_sup_right
  have hmid : LifeUpTo ids x (k + 1) t' :=
    lifeUpTo_run hids hstart ht' (hrefute.of_prefix hpre)
  have hend := lifeUpTo_run hids hstart hrun' hrefute
  have hle := happly.trans (rankOf_le_run hids hmid hj hgs)
  cases hl : (c j).list.members.lookup (ids x) with
  | none =>
    rw [rankOf_of_none hl] at hle
    exact absurd (le_bot_iff.mp hle) WithBot.coe_ne_bot
  | some info =>
    refine ⟨info, hl, ?_⟩
    rw [rankOf_of_lookup hl] at hle
    by_contra hst
    have hlive : info.incarnation ≤ k + 1 := (hend.nodes j).reports.members _ _ hl rfl hst
    rcases Prod.Lex.toLex_le_toLex.mp (WithBot.coe_le_coe.mp hle) with hlt | ⟨-, hdead⟩
    · exact absurd hlive (not_le.mpr hlt)
    · exact hst (le_antisymm (MemberState.le_dead _) hdead)

/-! ## Two echoes -/

def replicaUpdate (state : MemberState) (incarnation : ℕ) : MembershipUpdate :=
  ⟨"replica-1", "10.0.0.1:17001", state, incarnation, "", 0, 0⟩

def gatewayUpdate (memberId : String) : MembershipUpdate :=
  ⟨memberId, "10.0.0.9:17000", .alive, 0, "", 0, 0⟩

def toGateway (seq : ℕ) (us : List MembershipUpdate) : Label Bool :=
  .deliver false true ⟨.ping, "replica-1", "", seq, us⟩ ⟨"10.0.0.1", 17001⟩

def toReplica (seq : ℕ) (us : List MembershipUpdate) : Label Bool :=
  .deliver true false ⟨.ack, "gateway-1", "", seq, us⟩ ⟨"10.0.0.9", 17000⟩

def pairStart : Cluster Bool := start pairIds pairAddresses fun _ => {}

/-- A replica joins through the gateway, knows it by two ids from then on, and is about to leave. -/
def joinedRun : List (Label Bool) :=
  [.act true (.joinCluster ["10.0.0.9:17000"]),
    .act true (.sender (.peer "seed-10.0.0.9:17000"))] ++
  List.replicate 3 (.act true (.sender .none)) ++
  [toGateway 1 [replicaUpdate .alive 0, gatewayUpdate "seed-10.0.0.9:17000",
    replicaUpdate .alive 0]] ++
  List.replicate 11 (.act false .receiver) ++
  [toReplica 1 [gatewayUpdate "gateway-1", replicaUpdate .alive 0,
    gatewayUpdate "seed-10.0.0.9:17000", gatewayUpdate "gateway-1"]] ++
  List.replicate 11 (.act true .receiver) ++ [.act true .leaver]

/-- The gateway's ACK to the announcement carries it back to the replica. -/
def echo (seq : ℕ) : Label Bool :=
  toReplica seq [gatewayUpdate "gateway-1", replicaUpdate .alive 0,
    gatewayUpdate "seed-10.0.0.9:17000", replicaUpdate .dead 1, gatewayUpdate "gateway-1"]

/-- The replica announces its departure, once for each id, and the gateway takes up the first
announcement. -/
def receivedRun : List (Label Bool) :=
  List.replicate 4 (.act true .leaver) ++ [toGateway 2 [replicaUpdate .dead 1]] ++
  List.replicate 2 (.act false .receiver)

/-- The gateway applies it, and its ACK comes back. -/
def echoedRun : List (Label Bool) :=
  receivedRun ++ List.replicate 5 (.act false .receiver) ++ [echo 2] ++
  List.replicate 14 (.act true .receiver)

/-- The ACK to the second one comes back too, and the replica pings once more. -/
def echoedTwiceRun : List (Label Bool) :=
  echoedRun ++ [toGateway 3 [replicaUpdate .dead 1]] ++ List.replicate 7 (.act false .receiver) ++
  [echo 3] ++ List.replicate 14 (.act true .receiver) ++
  List.replicate 3 (.act true (.sender .none)) ++ [.act true (.sender (.order []))] ++
  List.replicate 2 (.act true (.sender .none)) ++ [.act true (.sender (.peer "gateway-1"))] ++
  List.replicate 3 (.act true (.sender .none)) ++
  [toGateway 4 [replicaUpdate .alive 0, gatewayUpdate "seed-10.0.0.9:17000",
    gatewayUpdate "gateway-1", replicaUpdate .alive 1, replicaUpdate .dead 1,
    replicaUpdate .alive 2, replicaUpdate .alive 2]] ++
  List.replicate 19 (.act false .receiver)

theorem pairIds_injective : Function.Injective pairIds := by
  intro a b h
  cases a <;> cases b <;> first | rfl | exact absurd h (by decide)

def joined : Cluster Bool := (exec step pairStart joinedRun).get (by decide +kernel)

theorem run_joined : Run step pairStart joinedRun joined := run_get _

theorem leaves_joined : Leaves true 0 joined :=
  ⟨⟨(joined true).list.getMembersByState .alive, by decide +kernel⟩, by decide +kernel⟩

theorem applies_announced {es : List (Label Bool)}
    (hes : receivedRun ++ [.act false .receiver] <+: es) :
    Applies false (joined true).leaveUpdate joined es :=
  ⟨receivedRun, (exec step joined receivedRun).get (by decide +kernel),
    ⟨.ping, "replica-1", "", 2, [replicaUpdate .dead 1]⟩, ⟨"10.0.0.1", 17001⟩,
    replicaUpdate .dead 1, [], hes, run_get _, by decide +kernel, by decide +kernel,
    by decide +kernel⟩

/-- After one echo the departure stands, though the replica has refuted it. -/
theorem departure_final_echoed :
    ∃ c, Run step joined echoedRun c ∧ (c true).list.myIncarnation = 1 ∧
      ∃ info, (c false).list.getMember "replica-1" = some info ∧ info.state = .dead := by
  have hrun : Run step joined echoedRun _ := run_get (by decide +kernel)
  refine ⟨_, hrun, by decide +kernel, ?_⟩
  refine departure_final (x := true) (k := 0) pairIds_injective run_joined ?_ leaves_joined
    (by decide) hrun ?_ (by decide) (applies_announced (by decide +kernel))
  · refine (everyStep_of_check (c := fun s e => !increments true s e ||
      decide ((s true).list.myIncarnation + 1 < 2 ^ 64)) (by decide +kernel)).mono ?_
    intro pre s e h hincr
    simpa [hincr] using h
  · refine (everyStep_of_check (c := fun s e => !increments true s e ||
      decide ((s true).list.myIncarnation ≤ 0)) (by decide +kernel)).mono ?_
    intro pre s e h hincr
    simpa [hincr] using h

/-- After two echoes the replica, which has left, is `ALIVE` again. -/
theorem not_departure_final_echoedTwice :
    ∃ c, Run step pairStart joinedRun joined ∧ Leaves true 0 joined ∧
      Run step joined echoedTwiceRun c ∧
      Applies false (joined true).leaveUpdate joined echoedTwiceRun ∧
      (c false).list.getMember "replica-1" =
        some { address := "10.0.0.1:17001", state := .alive, incarnation := 2 } :=
  ⟨_, run_joined, leaves_joined, run_get (by decide +kernel),
    applies_announced (by decide +kernel), by decide +kernel⟩

end Cluster

end LlmGateway.Gossip
