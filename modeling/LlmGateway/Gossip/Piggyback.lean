import LlmGateway.Lib.SendQueue
import LlmGateway.Gossip.MembershipCallback
import LlmGateway.Gossip.Refutation

/-!
# The piggyback buffer

An update is queued at the back of the buffer, sent with the oldest ones, and dropped from the front
when it has been sent ten times or the buffer is full.

1. `MembershipList.Queued`: the invariant of the buffer. No update has been sent ten times, an older
   one has not been sent less often, none is above the entry of its member, and there are at most 50.
2. `queued_of_run`: it holds in every state of a node.
3. `sendsLeft`: how often some of the updates can still be sent. A message that takes one has one
   send less left (`Queued.sendsLeft_takeUpdates`).
-/

namespace LlmGateway.Gossip

open SendQueue Transition

/-- An entry of the buffer, as an item that has been handed out. -/
def PiggybackEntry.posted (p : PiggybackEntry) : Posted MembershipUpdate := ⟨p.update, p.sendCount⟩

namespace MembershipList

variable {L L' : MembershipList} {id address : String} {e : MemberInfo} {u : MembershipUpdate}
  {now m : ℕ} {q : PiggybackEntry} {front back : List PiggybackEntry}

theorem posted_queueUpdate (L : MembershipList) (id : String) (e : MemberInfo) :
    (L.queueUpdate id e).piggybackBuffer.map PiggybackEntry.posted =
      push maxPiggybackBuffer (e.toUpdate id) (L.piggybackBuffer.map PiggybackEntry.posted) := by
  show ((if maxPiggybackBuffer ≤ L.piggybackBuffer.length then L.piggybackBuffer.tail
    else L.piggybackBuffer) ++ [(⟨e.toUpdate id, 0⟩ : PiggybackEntry)]).map _ = _
  unfold push
  rw [List.map_append, List.length_map]
  split_ifs
  · rw [List.map_tail]; rfl
  · rfl

theorem posted_takeUpdates (L : MembershipList) (m : ℕ) :
    (L.takeUpdates m).2.piggybackBuffer.map PiggybackEntry.posted =
      send maxPiggybackSends m (L.piggybackBuffer.map PiggybackEntry.posted) := by
  unfold takeUpdates send
  rw [← List.map_take, ← List.map_drop, List.map_map]
  show _ = List.dropWhile _ (((L.piggybackBuffer.take m).map (PiggybackEntry.posted ∘ fun p =>
    { p with sendCount := p.sendCount + 1 })) ++ _)
  rw [← List.map_map, ← List.map_append, List.dropWhile_map]
  rfl

/-- The invariant of the buffer. The own entry apart, which `IncrementMyIncarnation` may lower. -/
structure Queued (L : MembershipList) : Prop where
  counts : L.piggybackBuffer.Pairwise fun p q => q.sendCount ≤ p.sendCount
  unsent : ∀ q ∈ L.piggybackBuffer, q.sendCount < maxPiggybackSends
  ranks : ∀ q ∈ L.piggybackBuffer, q.update.memberId ≠ L.myId →
    (q.update.rank : WithBot Rank) ≤ L.rankOf q.update.memberId
  length_le : L.piggybackBuffer.length ≤ maxPiggybackBuffer

theorem Queued.posted (h : L.Queued) :
    (L.piggybackBuffer.map PiggybackEntry.posted).Pairwise (fun p q => q.returned ≤ p.returned) ∧
      ∀ p ∈ L.piggybackBuffer.map PiggybackEntry.posted, p.returned < maxPiggybackSends :=
  ⟨List.pairwise_map.mpr h.counts, List.forall_mem_map.mpr h.unsent⟩

theorem queued_of_posted
    (hcounts : (L.piggybackBuffer.map PiggybackEntry.posted).Pairwise fun p q =>
      q.returned ≤ p.returned)
    (hunsent : ∀ p ∈ L.piggybackBuffer.map PiggybackEntry.posted, p.returned < maxPiggybackSends)
    (hranks : ∀ q ∈ L.piggybackBuffer, q.update.memberId ≠ L.myId →
      (q.update.rank : WithBot Rank) ≤ L.rankOf q.update.memberId)
    (hlength : (L.piggybackBuffer.map PiggybackEntry.posted).length ≤ maxPiggybackBuffer) :
    L.Queued :=
  ⟨List.pairwise_map.mp hcounts, List.forall_mem_map.mp hunsent, hranks,
    by rwa [List.length_map] at hlength⟩

theorem Queued.setMember (h : L.Queued) (hle : id ≠ L.myId → L.rankOf id ≤ (e.rank : WithBot Rank)) :
    (L.setMember id e).Queued where
  counts := h.counts
  unsent := h.unsent
  ranks q hq hid := by
    rw [rankOf_setMember]
    by_cases hself : q.update.memberId = id
    · subst hself
      rw [Function.update_self]
      exact (h.ranks q hq hid).trans (hle hid)
    · rw [Function.update_of_ne hself]
      exact h.ranks q hq hid
  length_le := h.length_le

theorem Queued.queueUpdate (h : L.Queued)
    (hle : id ≠ L.myId → (e.rank : WithBot Rank) ≤ L.rankOf id) : (L.queueUpdate id e).Queued := by
  refine queued_of_posted ?_ ?_ ?_ ?_
  · rw [posted_queueUpdate]
    exact pairwise_push h.posted.1
  · rw [posted_queueUpdate]
    exact unspent_push h.posted.2 (Nat.zero_lt_succ _)
  · intro q hq hid
    rcases List.mem_append.mp hq with hq | hq
    · refine h.ranks q (?_ : q ∈ L.piggybackBuffer) hid
      split_ifs at hq
      · exact List.mem_of_mem_tail hq
      · exact hq
    · rw [List.mem_singleton.mp hq] at hid ⊢
      exact hle hid
  · rw [posted_queueUpdate]
    exact length_push_le (Nat.zero_lt_succ _) (by rw [List.length_map]; exact h.length_le)

theorem Queued.record (h : L.Queued) (hle : id ≠ L.myId → L.rankOf id ≤ (e.rank : WithBot Rank)) :
    (L.record id e).Queued := by
  refine (h.setMember hle).queueUpdate fun _ => ?_
  rw [rankOf_setMember, Function.update_self]

theorem Queued.takeUpdates (h : L.Queued) (m : ℕ) : (L.takeUpdates m).2.Queued := by
  refine queued_of_posted ?_ ?_ ?_ ?_
  · rw [posted_takeUpdates]
    exact pairwise_send h.posted.1
  · rw [posted_takeUpdates]
    exact unspent_send h.posted.1
  · intro q hq hid
    obtain ⟨p, hp, heq⟩ := mem_takeUpdates_buffer hq
    rw [← heq] at hid ⊢
    exact h.ranks p hp hid
  · rw [posted_takeUpdates]
    exact length_send_le.trans (by rw [List.length_map]; exact h.length_le)

theorem Queued.addMember (h : L.Queued) : (L.addMember id address).Queued := by
  unfold MembershipList.addMember
  cases hid : L.members.lookup id with
  | some e => exact h
  | none =>
    refine h.record fun _ => ?_
    rw [rankOf_of_none hid]
    exact bot_le

theorem Queued.addMembers (h : L.Queued) (members : List (String × String)) :
    (L.addMembers members).Queued := by
  unfold MembershipList.addMembers
  induction members generalizing L with
  | nil => exact h
  | cons m members ih => exact ih h.addMember

theorem Queued.applyUpdate (h : L.Queued) : (L.applyUpdate now u).list.Queued := by
  rcases applyUpdate_cases L now u with ⟨hnone, heq⟩ | ⟨e, he, ⟨hr, heq⟩ | ⟨-, -, heq, -⟩ | ⟨-, heq⟩⟩
  · rw [heq]
    refine h.record fun _ => ?_
    rw [rankOf_of_none hnone]
    exact bot_le
  · rw [heq]
    refine h.record fun _ => ?_
    rw [rankOf_of_lookup he]
    exact WithBot.coe_le_coe.mpr hr.le
  · rw [heq]
    refine h.setMember fun _ => ?_
    rw [rankOf_of_lookup he]
    exact le_refl _
  · rw [heq]
    exact h

/-- A new state at the same incarnation. -/
theorem Queued.mark (h : L.Queued) (he : L.members.lookup id = some e) {state : MemberState}
    (hle : e.state ≤ state) (time : ℕ) :
    (L.record id { e with state := state, suspectTime := time }).Queued := by
  refine h.record fun _ => ?_
  rw [rankOf_of_lookup he]
  exact WithBot.coe_le_coe.mpr (Prod.Lex.toLex_le_toLex.mpr (Or.inr ⟨rfl, hle⟩))

theorem Queued.markSuspect (h : L.Queued) : (L.markSuspect now id).list.Queued := by
  unfold MembershipList.markSuspect
  cases he : L.members.lookup id with
  | none => exact h
  | some e =>
    dsimp only
    split_ifs with hst
    · exact h
    · exact h.mark he (by rw [not_not.mp hst]; exact MemberState.alive_le _) now

theorem Queued.markDead (h : L.Queued) : (L.markDead id).list.Queued := by
  unfold MembershipList.markDead
  cases he : L.members.lookup id with
  | none => exact h
  | some e =>
    dsimp only
    split_ifs
    · exact h
    · exact h.mark he (MemberState.le_dead _) e.suspectTime

theorem Queued.incrementMyIncarnation (h : L.Queued) : L.incrementMyIncarnation.Queued :=
  Queued.record (L := { L with myIncarnation := _ }) ⟨h.counts, h.unsent, h.ranks, h.length_le⟩
    fun hid => absurd rfl hid

/-! ## What is left to send -/

/-- How often the updates in the buffer that satisfy `P` can still be sent. -/
def sendsLeft (P : MembershipUpdate → Bool) (L : MembershipList) : ℕ :=
  left maxPiggybackSends P (L.piggybackBuffer.map PiggybackEntry.posted)

variable {P : MembershipUpdate → Bool}

theorem Queued.sendsLeft_takeUpdates (h : L.Queued) (m : ℕ) :
    (L.takeUpdates m).2.sendsLeft P + (L.takeUpdates m).1.countP P = L.sendsLeft P := by
  have hsent := left_send (P := P) (m := m) h.posted.2
  have htaken : ((L.piggybackBuffer.map PiggybackEntry.posted).take m).countP (fun p => P p.item) =
      (L.takeUpdates m).1.countP P := by
    show _ = ((L.piggybackBuffer.take m).map PiggybackEntry.update).countP P
    rw [← List.map_take, List.countP_map, List.countP_map]
    rfl
  unfold sendsLeft
  rw [posted_takeUpdates, ← htaken]
  exact hsent

theorem sendsLeft_record (h : P (e.toUpdate id) = false) :
    (L.record id e).sendsLeft P ≤ L.sendsLeft P := by
  unfold sendsLeft record
  rw [posted_queueUpdate]
  exact (left_push_le ..).trans (by rw [h]; exact le_refl _)

end MembershipList

namespace Node

open MembershipList

variable {n n' : Node} {a : Act} {L' : MembershipList}

theorem ListEffect.queued (h : n.list.Queued) (he : ListEffect n a L') : L'.Queued := by
  cases he with
  | keep => exact h
  | collect m => exact h.takeUpdates m
  | suspect _ => exact h.markSuspect
  | expire _ _ => exact h.markDead
  | add members => exact h.addMembers members
  | refute _ => exact h.incrementMyIncarnation
  | apply _ => exact h.applyUpdate

end Node

end LlmGateway.Gossip
