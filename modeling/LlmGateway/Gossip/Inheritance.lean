import LlmGateway.Gossip.Departure

/-!
# What entries and updates inherit from each other

A list makes its entries from updates, and updates from its entries. `Inherited U` says that `U` goes
along: through an update that wins or refreshes the load, a suspicion, a death and a refutation.
Then all a list says satisfies `U` for ever, if what arrives and whom the node adds does
(`Node.reports_step`).
-/

namespace LlmGateway.Gossip

open Transition MembershipList

/-- An update made from an entry satisfies `U` if those do that the entry was made from. -/
structure Inherited (U : MembershipUpdate → Prop) : Prop where
  fresh : ∀ u, U u → U (MemberInfo.toUpdate u.memberId {})
  overwrite : ∀ (e : MemberInfo) (now : ℕ) (u : MembershipUpdate), U (e.toUpdate u.memberId) → U u →
    U ((e.overwrite now u).toUpdate u.memberId)
  refreshLoad : ∀ (e : MemberInfo) (u : MembershipUpdate), U (e.toUpdate u.memberId) → U u →
    U ((e.refreshLoad u).1.toUpdate u.memberId)
  mark : ∀ (e : MemberInfo) (id : String) (state : MemberState) (suspectTime : ℕ),
    U (e.toUpdate id) → U (MemberInfo.toUpdate id { e with state, suspectTime })
  renew : ∀ (e : MemberInfo) (id : String) (k : ℕ), U (e.toUpdate id) →
    U (MemberInfo.toUpdate id { e with state := .alive, incarnation := k % 2 ^ 64 })

namespace Inherited

variable {U : MembershipUpdate → Prop} {L : MembershipList} {u : MembershipUpdate}
  {id : String} {now : ℕ}

/-! ## The operations of a list -/

theorem applyUpdate (hU : Inherited U) (h : L.Reports U) (hu : U u) :
    (L.applyUpdate now u).list.Reports U := by
  rcases applyUpdate_cases L now u with ⟨-, heq⟩ | ⟨e, he, hcases⟩
  · rw [heq]
    exact h.record (hU.overwrite _ now u (hU.fresh u hu) hu)
  · have hentry := h.members _ e he
    rcases hcases with ⟨-, heq⟩ | ⟨-, -, heq, -⟩ | ⟨-, heq⟩ <;> rw [heq]
    · exact h.record (hU.overwrite e now u hentry hu)
    · exact h.setMember (hU.refreshLoad e u hentry hu)
    · exact h

theorem markSuspect (hU : Inherited U) (h : L.Reports U) : (L.markSuspect now id).list.Reports U :=
  h.markSuspect fun e he _ => hU.mark e id .suspect now (h.members id e he)

theorem markDead (hU : Inherited U) (h : L.Reports U) : (L.markDead id).list.Reports U :=
  h.markDead fun e he => hU.mark e id .dead e.suspectTime (h.members id e he)

/-- A refutation keeps the own entry but for its state and its incarnation. -/
theorem incrementMyIncarnation (hU : Inherited U) (h : L.Reports U)
    (hown : U (MemberInfo.toUpdate L.myId {})) : L.incrementMyIncarnation.Reports U := by
  have hself : U (((L.members.lookup L.myId).getD {}).toUpdate L.myId) := by
    cases he : L.members.lookup L.myId with
    | none => exact hown
    | some e => exact h.members _ e he
  refine Reports.record (L := { L with myIncarnation := _ }) ⟨h.members, h.buffer⟩ ?_
  exact hU.renew _ L.myId (L.myIncarnation + 1) hself

end Inherited

/-! ## A node -/

namespace Node

variable {U : MembershipUpdate → Prop} {n n' : Node} {a : Act} {c : Choice}

/-- The calls of `AddMember` in a step: for the seeds, and for the sender of a `PING`. -/
def Adds (n : Node) : Act → String → String → Prop
  | .joinCluster seeds, id, address => address ∈ seeds ∧ id = "seed-" ++ address
  | .receiver, id, address =>
    ∃ msg src, n.receiver = .dispatch msg src ∧ id = msg.senderId ∧ address = src.toString
  | _, _, _ => False

theorem reports_sendStep (h : n.list.Reports U) (m : Sending) : (n.sendStep m).1.list.Reports U := by
  rcases (n.sendStep_spec m).1.list with hl | ⟨k, hl⟩ <;> rw [hl]
  · exact h
  · exact h.takeUpdates k

theorem reports_withAddress (h : n.list.Reports U) {s : String} {k : Address → Node}
    (hk : ∀ a, (k a).list = n.list) : (n.withAddress s k).list.Reports U := by
  unfold Node.withAddress
  cases parseAddress s with
  | ok a =>
    show (k a).list.Reports U
    rw [hk a]
    exact h
  | error _ => exact h

theorem reports_senderStep (hU : Inherited U) (h : n.list.Reports U) (hs : n.senderStep c = some n') :
    n'.list.Reports U := by
  cases senderStep_move hs with
  | goto | pick => exact h
  | probe => exact reports_withAddress (n := n.register) h fun a => rfl
  | @send m =>
    have hsend := reports_sendStep h m
    generalize n.sendStep m = r at hsend
    obtain ⟨s, _ | m'⟩ := r <;> exact hsend
  | suspect => exact hU.markSuspect h
  | expire => exact hU.markDead h

theorem reports_receiverStep (hU : Inherited U) (h : n.list.Reports U)
    (hheld : ∀ u ∈ n.receiver.held, U u) (hown : U (MemberInfo.toUpdate n.list.myId {}))
    (hadd : ∀ id address, n.Adds .receiver id address → U (MemberInfo.toUpdate id { address }))
    (hs : n.receiverStep = some n') : n'.list.Reports U := by
  cases receiverStep_move hs with
  | refute => exact hU.incrementMyIncarnation h hown
  | @apply msg src u rest hpc =>
    refine hU.applyUpdate h (hheld u ?_)
    rw [hpc]
    exact List.mem_cons_self
  | ping hpc =>
    dsimp only
    split_ifs
    · exact h.addMember (hadd _ _ ⟨_, _, hpc, rfl, rfl⟩)
    · exact h
  | relayProbe => exact reports_withAddress (n := n.register) h fun a => rfl
  | @ackPing m | @relayPing _ _ _ m | @relayAck _ m =>
    have hsend := reports_sendStep h m
    generalize n.sendStep m = r at hsend
    obtain ⟨s, _ | m'⟩ := r <;> exact hsend
  | receive | handled | toRefute | toApply | unknown | pingReq | ack | waiting | answered
  | timedOut | relayForget => exact h

/-- **The list of a node, step by step.** -/
theorem reports_step (hU : Inherited U) (h : n.list.Reports U)
    (hheld : ∀ u ∈ n.receiver.held, U u) (hown : U (MemberInfo.toUpdate n.list.myId {}))
    (hadd : ∀ id address, n.Adds a id address → U (MemberInfo.toUpdate id { address }))
    (hs : n.step a = some n') : n'.list.Reports U := by
  cases step_move hs with
  | tick | setMyLoad | arrive => exact h
  | joinCluster seeds =>
    rw [joinCluster_list]
    refine h.addMembers fun m hm => ?_
    obtain ⟨address, haddress, rfl⟩ := List.mem_map.mp hm
    exact hadd _ _ ⟨(List.mem_filter.mp haddress).1, rfl⟩
  | sender _ hs => exact reports_senderStep hU h hs
  | receiver _ hs => exact reports_receiverStep hU h hheld hown hadd hs
  | leaver _ hs =>
    cases leaverStep_move hs with
    | snapshot | readIncarnation | done => exact h
    | announce =>
      refine reports_withAddress (n := { n with nextSeqNum := _ }) ?_ fun a => rfl
      exact h

end Node

end LlmGateway.Gossip
