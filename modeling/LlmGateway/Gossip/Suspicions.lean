import LlmGateway.Gossip.Supply

/-!
# What a node says of a member, and what suspicions make of it

1. `ListEffect.pushed`: a node that holds a member as `DEAD` queues nothing about it, and the member
   itself only what is applied and its refutations.
2. `Silent`: so such a node tells of the member no more than it is told, and never more often than its
   buffer still has sends for (`Silent.supply_le`).
3. `Unaware`: the member stays at an incarnation while no suspicion lets it refute above.
4. `reach`: a suspicion takes the member one incarnation further, and only if it is not below
   (`Unaware.reach_step`).
-/

namespace LlmGateway.Gossip

open Transition MembershipList

/-! ## What is said about the member -/

/-- What the update says, if it is about the member. -/
def About (memberId : String) (A : ℕ → MemberState → Prop) (u : MembershipUpdate) : Prop :=
  u.memberId = memberId → A u.incarnation u.state

/-- Life up to `i` may be said of the member, and nothing above. -/
structure Allows (A : ℕ → MemberState → Prop) (i : ℕ) : Prop where
  alive : ∀ k ≤ i, A k .alive
  le : ∀ k state, A k state → k ≤ i

namespace MembershipList

/-- The buffer of the list is that of the first one, with some updates queued that satisfy `Q`. -/
inductive Pushed (Q : MembershipUpdate → Prop) (L : MembershipList) : MembershipList → Prop
  | same {L' : MembershipList} : L'.piggybackBuffer = L.piggybackBuffer → Pushed Q L L'
  | record {L' : MembershipList} {id : String} {e : MemberInfo} : Pushed Q L L' →
      Q (e.toUpdate id) → Pushed Q L (L'.record id e)

end MembershipList

namespace Node

variable {memberId : String} {i : ℕ} {n n' : Node} {a : Act} {L L' : MembershipList}
  {A : ℕ → MemberState → Prop} {Q U : MembershipUpdate → Prop} {P : MembershipUpdate → Bool}

theorem Buffered.pushed (h : (∃ m, L' = (L.takeUpdates m).2) ∨ Pushed Q L L')
    (hL : ∀ q ∈ L.piggybackBuffer, U q.update) (hQ : ∀ u, Q u → U u) :
    ∀ q ∈ L'.piggybackBuffer, U q.update := by
  rcases h with ⟨m, rfl⟩ | hpushed
  · intro q hq
    obtain ⟨p, hp, heq⟩ := mem_takeUpdates_buffer hq
    rw [← heq]
    exact hL p hp
  · induction hpushed with
    | same heq =>
      rw [heq]
      exact hL
    | record _ hq ih => exact forall_record_buffer ih (hQ _ hq)

theorem sendsLeft_pushed (hqueued : L.Queued) (h : (∃ m, L' = (L.takeUpdates m).2) ∨ Pushed Q L L')
    (hQ : ∀ u, Q u → P u = false) : L'.sendsLeft P ≤ L.sendsLeft P := by
  rcases h with ⟨m, rfl⟩ | hpushed
  · have := hqueued.sendsLeft_takeUpdates (P := P) m
    omega
  · induction hpushed with
    | same heq =>
      unfold sendsLeft
      rw [heq]
    | record _ hq ih => exact (sendsLeft_record (hQ _ hq)).trans ih

theorem pushed_addMembers {members : List (String × String)} (hknown : memberId ∈ L.members) :
    Pushed (About memberId A) L (L.addMembers members) := by
  have hadd : ∀ L₀, Pushed (About memberId A) L L₀ → memberId ∈ L₀.members →
      Pushed (About memberId A) L (L₀.addMembers members) := by
    unfold MembershipList.addMembers
    induction members with
    | nil => exact fun L₀ h _ => h
    | cons m members ih =>
      intro L₀ h hknown
      rw [List.foldl_cons]
      refine ih _ ?_ ?_
      · unfold MembershipList.addMember
        cases hl : L₀.members.lookup m.1 with
        | some e => exact h
        | none =>
          refine .record h fun hid => ?_
          have hid : m.1 = memberId := hid
          rw [hid] at hl
          exact absurd hknown (AList.lookup_eq_none.mp hl)
      · obtain ⟨e, he⟩ := Option.isSome_iff_exists.mp (AList.lookup_isSome.mpr hknown)
        exact AList.lookup_isSome.mp
          (Option.isSome_iff_exists.mpr ⟨e, addMember_lookup_of_some he⟩)
  exact hadd L (.same rfl) hknown

/-- A step queues about the member what is applied and wins, or the member's own refutation: a member
that is not suspected here is not marked, and one that is known is not added. -/
theorem ListEffect.pushed (hknown : memberId ∈ n.list.members)
    (hdead : ∀ e, n.list.members.lookup memberId = some e → memberId ∈ n.sender.targets →
      e.state = .dead)
    (hrefute : ∀ msg src u rest, n.receiver = .refute msg src u rest → n.list.myId = memberId →
      A n.list.incrementMyIncarnation.myIncarnation .alive)
    (happly : ∀ u ∈ n.receiver.held, u.memberId = memberId →
      A u.incarnation u.state ∨ (u.rank : WithBot Rank) ≤ n.list.rankOf memberId)
    (he : ListEffect n a L') :
    (∃ m, L' = (n.list.takeUpdates m).2) ∨ Pushed (About memberId A) n.list L' := by
  cases he with
  | keep => exact Or.inr (.same rfl)
  | collect m => exact Or.inl ⟨m, rfl⟩
  | suspect hpc =>
    rename_i c peer
    refine Or.inr ?_
    unfold MembershipList.markSuspect
    cases hl : n.list.members.lookup peer.1 with
    | none => exact .same rfl
    | some e =>
      dsimp only
      split_ifs with hst
      · exact .same rfl
      · refine .record (.same rfl) fun hid => ?_
        have hid : peer.1 = memberId := hid
        rw [hid] at hl
        have hdead := hdead e hl (by rw [hpc]; exact List.mem_singleton.mpr hid.symm)
        exact absurd hdead (by rw [not_not.mp hst]; exact nofun)
  | expire hpc hexp =>
    rename_i c now id info rest
    refine Or.inr ?_
    unfold MembershipList.markDead
    cases hl : n.list.members.lookup id with
    | none => exact .same rfl
    | some e =>
      dsimp only
      split_ifs with hst
      · exact .same rfl
      · refine .record (.same rfl) fun hid => ?_
        have hid : id = memberId := hid
        rw [hid] at hl
        exact absurd (hdead e hl (by rw [hpc, ← hid]; exact List.mem_cons_self)) hst
  | add members => exact Or.inr (pushed_addMembers hknown)
  | refute hpc =>
    have hsame : Pushed (About memberId A) n.list
        { n.list with myIncarnation := (n.list.myIncarnation + 1) % 2 ^ 64 } := .same rfl
    refine Or.inr (.record hsame fun hid => ?_)
    exact hrefute _ _ _ _ hpc hid
  | apply hpc =>
    rename_i msg src u rest
    refine Or.inr ?_
    have hu := happly u (by rw [hpc]; exact List.mem_cons_self)
    rcases applyUpdate_cases n.list n.clock u with
      ⟨hnone, heq⟩ | ⟨e, hl, ⟨hr, heq⟩ | ⟨-, -, heq, -⟩ | ⟨-, heq⟩⟩ <;> rw [heq]
    · refine .record (.same rfl) fun hid => ?_
      have hid : u.memberId = memberId := hid
      rw [hid] at hnone
      exact absurd hknown (AList.lookup_eq_none.mp hnone)
    · refine .record (.same rfl) fun hid => ?_
      have hid : u.memberId = memberId := hid
      refine (hu hid).resolve_right fun hle => ?_
      rw [← hid, rankOf_of_lookup hl] at hle
      exact absurd hr (not_lt.mpr (WithBot.coe_le_coe.mp hle))
    · exact .same rfl
    · exact .same rfl

theorem ListEffect.rankOf_dead (hid : n.list.myId ≠ memberId)
    (hdead : n.list.rankOf memberId = ((toLex (i, .dead) : Rank) : WithBot Rank))
    (happly : ∀ u ∈ n.receiver.held, u.memberId = memberId → u.incarnation ≤ i) (he : ListEffect n a L') :
    L'.rankOf memberId = ((toLex (i, .dead) : Rank) : WithBot Rank) := by
  obtain ⟨e, hl, hr⟩ := rankOf_eq_coe.mp hdead
  have hr : (e.incarnation, e.state) = (i, MemberState.dead) := toLex_inj.mp hr
  have hst : e.state = .dead := (Prod.mk.inj hr).2
  have hkeep : L'.members.lookup memberId = n.list.members.lookup memberId →
      L'.rankOf memberId = ((toLex (i, .dead) : Rank) : WithBot Rank) := by
    intro hsame
    rw [← hdead]
    unfold MembershipList.rankOf
    rw [hsame]
  cases he with
  | keep => exact hdead
  | collect m => exact hdead
  | suspect hpc =>
    rename_i c peer
    refine hkeep ?_
    by_cases hpeer : peer.1 = memberId
    · unfold MembershipList.markSuspect
      rw [hpeer, hl]
      dsimp only
      rw [if_pos (by rw [hst]; exact nofun)]
      exact hl
    · exact markSuspect_lookup_of_ne fun h => hpeer h.symm
  | expire hpc hexp =>
    rename_i c now id info rest
    refine hkeep ?_
    by_cases hmember : id = memberId
    · unfold MembershipList.markDead
      rw [hmember, hl]
      dsimp only
      rw [if_pos hst]
      exact hl
    · exact markDead_lookup_of_ne fun h => hmember h.symm
  | add members => exact hkeep ((addMembers_getMember hl).trans hl.symm)
  | refute hpc => exact hkeep (incrementMyIncarnation_lookup_of_ne fun h => hid h.symm)
  | apply hpc =>
    rename_i msg src u rest
    have hu := happly u (by rw [hpc]; exact List.mem_cons_self)
    rw [rankOf_applyUpdate]
    by_cases hmember : memberId = u.memberId
    · subst hmember
      rw [JoinMap.join_self, hdead]
      refine sup_eq_left.mpr (WithBot.coe_le_coe.mpr (Prod.Lex.toLex_le_toLex.mpr ?_))
      rcases (hu rfl).lt_or_eq with hlt | heq
      · exact Or.inl hlt
      · exact Or.inr ⟨heq, MemberState.le_dead _⟩
    · rw [JoinMap.join_of_ne _ hmember, hdead]

end Node

/-! ## A peer that tells nothing new -/

namespace Node

variable {memberId : String} {i ℓ : ℕ} {n n' : Node} {a : Act} {A : ℕ → MemberState → Prop}

/-- A node holds the member as `DEAD` at `i`, and whatever it has in hand about the member `A`
allows. -/
structure Silent (A : ℕ → MemberState → Prop) (memberId : String) (i : ℕ) (n : Node) : Prop where
  ne : n.list.myId ≠ memberId
  dead : n.list.rankOf memberId = ((toLex (i, .dead) : Rank) : WithBot Rank)
  queued : n.list.Queued
  held : n.Held (About memberId A)
  buffer : n.Buffered (About memberId A)

section

variable (hA : Allows A i) (h : n.Silent A memberId i) (hs : n.step a = some n')

include hA h hs

/-- The list of such a node queues nothing about the member. -/
theorem Silent.pushed : (∃ m, n'.list = (n.list.takeUpdates m).2) ∨
    Pushed (About memberId fun _ _ => False) n.list n'.list := by
  obtain ⟨e, hl, hr⟩ := rankOf_eq_coe.mp h.dead
  have hr : (e.incarnation, e.state) = (i, MemberState.dead) := toLex_inj.mp hr
  refine ListEffect.pushed (AList.lookup_isSome.mp (Option.isSome_iff_exists.mpr ⟨e, hl⟩)) ?_ ?_ ?_
    (step_spec hs).list
  · intro e' hl' _
    obtain rfl : e = e' := Option.some.inj (hl.symm.trans hl')
    exact (Prod.mk.inj hr).2
  · intro msg src u rest _ hid
    exact absurd hid h.ne
  · intro u hu hid
    refine Or.inr ?_
    rw [h.dead]
    refine WithBot.coe_le_coe.mpr (Prod.Lex.toLex_le_toLex.mpr ?_)
    rcases (hA.le _ _ (h.held.receiver u hu hid)).lt_or_eq with hlt | heq
    · exact Or.inl hlt
    · exact Or.inr ⟨heq, MemberState.le_dead _⟩

/-- **A step of the peer.** -/
theorem Silent.step (hleave : a ≠ .leaver)
    (harrive : ∀ msg src, a = .arrive msg src → ∀ u ∈ msg.updates, About memberId A u) :
    n'.Silent A memberId i := by
  have hspec := step_spec hs
  refine {
    ne := by rw [hspec.list.myId]; exact h.ne
    dead := hspec.list.rankOf_dead h.ne h.dead fun u hu hid => hA.le _ _ (h.held.receiver u hu hid)
    queued := hspec.list.queued h.queued
    held := h.held.step h.buffer (fun hid => absurd hid h.ne) harrive hleave hs
    buffer := ?_ }
  intro hmax
  rw [hspec.config] at hmax
  exact Buffered.pushed (h.pushed hA hs) (h.buffer hmax) fun u hu hid => absurd (hu hid) id

theorem Silent.supply_le {P : MembershipUpdate → Bool} (hP : ∀ u, P u → u.memberId = memberId)
    (hleave : a ≠ .leaver) : n'.supply P ≤ n.supply P := by
  have hother : ∀ u, u.memberId ≠ memberId → P u = false := fun u hu =>
    Bool.eq_false_iff.mpr fun hp => hu (hP u hp)
  refine step_supply h.queued (hother _ h.ne) ?_ hs hleave
  exact sendsLeft_pushed h.queued (h.pushed hA hs) fun u hu => hother u hu

end

/-! ## A member that does not refute above -/

/-- The new instance of the member has not got above `i`, and whatever it has in hand about itself
`A` allows. -/
structure Unaware (A : ℕ → MemberState → Prop) (memberId : String) (i : ℕ) (n : Node) : Prop where
  myId : n.list.myId = memberId
  own : n.OwnKnown
  incarnation : n.list.myIncarnation ≤ i
  held : n.Held (About memberId A)
  buffer : n.Buffered (About memberId A)
  refuting : ∀ msg src u rest, n.receiver = .refute msg src u rest → n.mustRefute u

theorem Unaware.refuting_step (h : n.Unaware A memberId i) (hs : n.step a = some n')
    (msg : GossipMessage) (src : Address) (u : MembershipUpdate) (rest : List MembershipUpdate)
    (hpc : n'.receiver = .refute msg src u rest) : n'.mustRefute u := by
  obtain ⟨-, hmyId⟩ := h.own.step hs
  rcases refute_of_step hs hpc with hpc' | ⟨hpc', hm⟩
  · -- the receiver thread has not moved
    have hkeep : ¬ (a = .receiver ∧ n.isRefuting) := by
      rintro ⟨rfl, -⟩
      rw [(step_refute hpc' hs).2] at hpc
      cases hpc
    have hm := h.refuting msg src u rest hpc'
    rw [mustRefute_iff] at hm ⊢
    rw [hmyId, step_myIncarnation hs hkeep]
    exact hm
  · by_cases ha : a = .receiver
    · subst ha
      rw [mustRefute_iff] at hm ⊢
      rw [(step_updates hpc' hs).1]
      exact hm
    · have hr := (step_spec hs).receiver ha
      rw [hpc, hpc'] at hr
      cases hr

/-- **A step of the member**, if no suspicion takes it above `i`. -/
theorem Unaware.step (hA : Allows A i) (h : n.Unaware A memberId i)
    (hrefute : ∀ msg src u rest, n.receiver = .refute msg src u rest →
      n.list.incrementMyIncarnation.myIncarnation ≤ i)
    (hs : n.step a = some n') (hleave : a ≠ .leaver)
    (harrive : ∀ msg src, a = .arrive msg src → ∀ u ∈ msg.updates, About memberId A u) :
    n'.Unaware A memberId i := by
  have hspec := step_spec hs
  obtain ⟨hown, hmyId⟩ := h.own.step hs
  have hself : About memberId A n.selfUpdate := fun _ => hA.alive _ h.incarnation
  have hinc : n'.list.myIncarnation ≤ i := by
    by_cases hrefuting : a = .receiver ∧ n.isRefuting
    · obtain ⟨rfl, hrefuting⟩ := hrefuting
      obtain ⟨msg, src, u, rest, hpc⟩ := isRefuting_iff.mp hrefuting
      rw [(step_refute hpc hs).1]
      exact hrefute msg src u rest hpc
    · rw [step_myIncarnation hs hrefuting]
      exact h.incarnation
  refine {
    myId := hmyId.trans h.myId
    own := hown
    incarnation := hinc
    held := h.held.step h.buffer hself harrive hleave hs
    buffer := ?_
    refuting := h.refuting_step hs }
  intro hmax
  rw [hspec.config] at hmax
  refine Buffered.pushed ?_ (h.buffer hmax) fun _ hu => hu
  refine ListEffect.pushed (h.myId ▸ h.own.known) ?_ ?_ ?_ hspec.list
  · exact fun e _ htarget => absurd h.myId.symm (h.own.targets _ htarget)
  · exact fun msg src u rest hpc _ => hA.alive _ (hrefute msg src u rest hpc)
  · exact fun u hu hid => Or.inl (h.held.receiver u hu hid)

end Node

/-! ## How far suspicions take the member -/

/-- The update suspects the member at `ℓ` or above. -/
def suspects (memberId : String) (ℓ : ℕ) (u : MembershipUpdate) : Bool :=
  u.memberId = memberId ∧ u.state ≠ .alive ∧ ℓ ≤ u.incarnation

theorem suspects_iff {memberId : String} {ℓ : ℕ} {u : MembershipUpdate} :
    suspects memberId ℓ u = true ↔ u.memberId = memberId ∧ u.state ≠ .alive ∧ ℓ ≤ u.incarnation :=
  decide_eq_true_iff

/-- The updates that the receiver thread has still to test. -/
def ReceiverPc.incoming : ReceiverPc → List MembershipUpdate
  | .updates _ _ rest => rest
  | .refute _ _ u rest => u :: rest
  | .apply _ _ _ rest => rest
  | _ => []

namespace Node

variable {memberId : String} {i ℓ : ℕ} {n n' : Node} {a : Act} {A : ℕ → MemberState → Prop}

/-- How many updates that satisfy `P` have arrived and are still to be tested. -/
def untested (P : MembershipUpdate → Bool) (n : Node) : ℕ :=
  (n.socket.map fun d => d.1.updates.countP P).sum + n.receiver.incoming.countP P

/-- The incarnation to which the suspicions at `ℓ` and above that have arrived can take a member that
is, or will be, at `ℓ`. -/
def reach (memberId : String) (ℓ : ℕ) (n : Node) : ℕ :=
  max n.list.myIncarnation ℓ + n.untested (suspects memberId ℓ)

end Node

end LlmGateway.Gossip
