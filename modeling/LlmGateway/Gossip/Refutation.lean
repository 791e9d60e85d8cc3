import LlmGateway.Lib.Transition
import LlmGateway.Gossip.Convergence
import LlmGateway.Gossip.Effects

/-!
# Self-refutation

`CheckSelfRefutation` and then `ApplyUpdate` act on every received update about the node itself.

1. `OwnKnown`: a node always knows itself and never suspects itself, so only the receiver thread
   touches its own entry (`ListEffect.own`).
2. `refuted_handleUpdate_iff`: what the two operations make of the own entry, for every incarnation
   of the update. An increment by one refutes an update at the own incarnation, and only that.
3. `selfRefutation_iff`: the same for the receiver thread of a running node, between any steps of
   the other threads, and what follows for runs in which no update is ahead of the node.
-/

namespace LlmGateway.Gossip

open Transition

namespace MembershipList

/-- The node's own entry is `ALIVE` at the node's own incarnation. -/
def OwnAlive (L : MembershipList) : Prop :=
  ∃ e, L.members.lookup L.myId = some e ∧ e.state = .alive ∧ e.incarnation = L.myIncarnation

/-- Two lists that agree on the node's own id, incarnation and entry, up to load data. -/
structure SameOwn (L L' : MembershipList) : Prop where
  myId : L'.myId = L.myId
  myIncarnation : L'.myIncarnation = L.myIncarnation
  rank : L'.rankOf L.myId = L.rankOf L.myId

variable {L L' L'' : MembershipList} {now : ℕ} {u : MembershipUpdate} {id address : String}

theorem ownAlive_iff_rankOf :
    L.OwnAlive ↔ L.rankOf L.myId = ((toLex (L.myIncarnation, .alive) : Rank) : WithBot Rank) := by
  rw [rankOf_eq_coe]
  constructor
  · rintro ⟨e, he, hst, hinc⟩
    refine ⟨e, he, ?_⟩
    unfold MemberInfo.rank
    rw [hst, hinc]
  · rintro ⟨e, he, hr⟩
    have hr : (e.incarnation, e.state) = (L.myIncarnation, MemberState.alive) := toLex_inj.mp hr
    exact ⟨e, he, (Prod.mk.inj hr).2, (Prod.mk.inj hr).1⟩

namespace SameOwn

theorem refl (L : MembershipList) : SameOwn L L := ⟨rfl, rfl, rfl⟩

theorem trans (h : SameOwn L L') (h' : SameOwn L' L'') : SameOwn L L'' where
  myId := h'.myId.trans h.myId
  myIncarnation := h'.myIncarnation.trans h.myIncarnation
  rank := by
    have hr := h'.rank
    rw [h.myId] at hr
    exact hr.trans h.rank

theorem ownAlive (h : SameOwn L L') : L'.OwnAlive ↔ L.OwnAlive := by
  rw [ownAlive_iff_rankOf, ownAlive_iff_rankOf, h.myId, h.rank, h.myIncarnation]

theorem of_lookup (hown : L'.myIncarnation = L.myIncarnation ∧ L'.myId = L.myId)
    (hl : L'.members.lookup L.myId = L.members.lookup L.myId) : SameOwn L L' where
  myId := hown.2
  myIncarnation := hown.1
  rank := by unfold rankOf; rw [hl]

theorem addMember (h : L.myId ∈ L.members) : SameOwn L (L.addMember id address) := by
  refine of_lookup addMember_own ?_
  obtain ⟨e, he⟩ := Option.isSome_iff_exists.mp (AList.lookup_isSome.mpr h)
  rw [he]
  exact addMember_lookup_of_some he

theorem mem_members (h : SameOwn L L') : L'.myId ∈ L'.members ↔ L.myId ∈ L.members := by
  rw [← not_iff_not, ← rankOf_eq_bot, ← rankOf_eq_bot, h.myId, h.rank]

theorem addMembers (h : L.myId ∈ L.members) (members : List (String × String)) :
    SameOwn L (L.addMembers members) := by
  unfold MembershipList.addMembers
  induction members generalizing L with
  | nil => exact refl L
  | cons m members ih =>
    have hm : SameOwn L (L.addMember m.1 m.2) := addMember h
    exact hm.trans (ih (hm.mem_members.mpr h))

theorem applyUpdate (h : SameOwn L L') (now : ℕ) (u : MembershipUpdate) :
    SameOwn (L.applyUpdate now u).list (L'.applyUpdate now u).list where
  myId := by rw [applyUpdate_own.2, applyUpdate_own.2]; exact h.myId
  myIncarnation := by rw [applyUpdate_own.1, applyUpdate_own.1]; exact h.myIncarnation
  rank := by
    rw [rankOf_applyUpdate, rankOf_applyUpdate, applyUpdate_own.2]
    by_cases hu : u.memberId = L.myId
    · rw [← hu, JoinMap.join_self, JoinMap.join_self, hu, h.rank]
    · rw [JoinMap.join_of_ne _ (Ne.symm hu), JoinMap.join_of_ne _ (Ne.symm hu), h.rank]

end SameOwn

theorem ownAlive_incrementMyIncarnation (L : MembershipList) : L.incrementMyIncarnation.OwnAlive :=
  incrementMyIncarnation_lookup_self

theorem SameOwn.incrementMyIncarnation (h : SameOwn L L') :
    SameOwn L.incrementMyIncarnation L'.incrementMyIncarnation where
  myId := h.myId
  myIncarnation := by
    rw [incrementMyIncarnation_myIncarnation, incrementMyIncarnation_myIncarnation, h.myIncarnation]
  rank := by
    have hL := ownAlive_iff_rankOf.mp (ownAlive_incrementMyIncarnation L)
    have hL' := ownAlive_iff_rankOf.mp (ownAlive_incrementMyIncarnation L')
    rw [hL, show L.incrementMyIncarnation.myId = L'.incrementMyIncarnation.myId from h.myId.symm, hL',
      incrementMyIncarnation_myIncarnation, incrementMyIncarnation_myIncarnation, h.myIncarnation]

/-! ## One update about the node itself -/

/-- What handling an update about the node itself is to achieve: the own incarnation is above that
of the update, the own entry is `ALIVE` there, and the `ALIVE` update that carries it overrides the
suspicion at every list that holds it. -/
structure Refuted (L : MembershipList) (u : MembershipUpdate) : Prop where
  above : u.incarnation < L.myIncarnation
  ownAlive : L.OwnAlive
  overrides : ∀ (peer : MembershipList) (now : ℕ) (gossiped : MembershipUpdate),
    peer.rankOf L.myId = (u.rank : WithBot Rank) → gossiped.memberId = L.myId →
    gossiped.rank = toLex (L.myIncarnation, .alive) →
    (peer.applyUpdate now gossiped).list.rankOf L.myId =
      ((toLex (L.myIncarnation, .alive) : Rank) : WithBot Rank)

theorem refuted_iff : L.Refuted u ↔ u.incarnation < L.myIncarnation ∧ L.OwnAlive := by
  constructor
  · intro h
    exact ⟨h.above, h.ownAlive⟩
  · rintro ⟨habove, hown⟩
    refine ⟨habove, hown, ?_⟩
    intro peer now gossiped hpeer hid hrank
    have hlt : u.rank < gossiped.rank := by
      rw [hrank]
      exact Prod.Lex.toLex_lt_toLex.mpr (Or.inl habove)
    rw [rankOf_applyUpdate, ← hid, JoinMap.join_self, hid, hpeer, ← hrank]
    exact sup_eq_right.mpr (WithBot.coe_le_coe.mpr hlt.le)

theorem SameOwn.refuted (h : SameOwn L L') : L'.Refuted u ↔ L.Refuted u := by
  rw [refuted_iff, refuted_iff, h.ownAlive, h.myIncarnation]

/-- `CheckSelfRefutation`, as an operation on the list. -/
def checkSelfRefutation (L : MembershipList) (u : MembershipUpdate) : MembershipList :=
  if u.memberId = L.myId ∧ (u.state = .suspect ∨ u.state = .dead) ∧ L.myIncarnation ≤ u.incarnation
  then L.incrementMyIncarnation else L

/-- One round of the loop of `ProcessPiggybackedUpdates`: `CheckSelfRefutation`, then
`ApplyUpdate`. -/
def handleUpdate (L : MembershipList) (now : ℕ) (u : MembershipUpdate) : MembershipList :=
  ((L.checkSelfRefutation u).applyUpdate now u).list

/-- `ApplyUpdate` on a suspicion keeps the own entry `ALIVE` exactly when the entry was, and at a
higher incarnation. -/
theorem ownAlive_applyUpdate_iff (hself : u.memberId = L.myId) (hlt : u.incarnation < L.myIncarnation) :
    (L.applyUpdate now u).list.OwnAlive ↔ L.OwnAlive := by
  rw [ownAlive_iff_rankOf, ownAlive_iff_rankOf, applyUpdate_own.1, applyUpdate_own.2,
    rankOf_applyUpdate, ← hself, JoinMap.join_self, hself]
  have hne : (u.rank : WithBot Rank) ≠ ((toLex (L.myIncarnation, .alive) : Rank) : WithBot Rank) := by
    intro h
    have h := congrArg (fun r => (ofLex r).1) (WithBot.coe_inj.mp h)
    have h : u.incarnation = L.myIncarnation := h
    omega
  have hle : (u.rank : WithBot Rank) ≤ ((toLex (L.myIncarnation, .alive) : Rank) : WithBot Rank) :=
    WithBot.coe_le_coe.mpr (Prod.Lex.toLex_le_toLex.mpr (Or.inl hlt))
  constructor
  · intro h
    rcases max_choice (L.rankOf L.myId) (u.rank : WithBot Rank) with hm | hm
    · rw [← hm]; exact h
    · exact absurd (hm.symm.trans h) hne
  · intro h
    rw [h]
    exact sup_eq_left.mpr hle

/-- **One round of `ProcessPiggybackedUpdates`** on a suspicion about the node itself. -/
theorem refuted_handleUpdate_iff (hself : u.memberId = L.myId) (hstate : u.state ≠ .alive)
    (hinc : u.incarnation < 2 ^ 64 - 1) :
    (L.handleUpdate now u).Refuted u ↔ u.incarnation = L.myIncarnation ∨
      (u.incarnation < L.myIncarnation ∧ L.OwnAlive) := by
  have hbad : u.state = .suspect ∨ u.state = .dead := by
    cases hu : u.state with
    | alive => exact absurd hu hstate
    | suspect => exact Or.inl rfl
    | dead => exact Or.inr rfl
  rw [refuted_iff]
  unfold handleUpdate checkSelfRefutation
  rw [applyUpdate_own.1]
  by_cases hle : L.myIncarnation ≤ u.incarnation
  · rw [if_pos ⟨hself, hbad, hle⟩]
    have hself' : u.memberId = L.incrementMyIncarnation.myId := hself
    have hinc' : L.incrementMyIncarnation.myIncarnation = L.myIncarnation + 1 := by
      rw [incrementMyIncarnation_myIncarnation]
      omega
    constructor
    · rintro ⟨habove, -⟩
      exact Or.inl (by omega)
    · intro h
      have habove : u.incarnation < L.incrementMyIncarnation.myIncarnation := by omega
      refine ⟨habove, ?_⟩
      rw [ownAlive_applyUpdate_iff hself' habove]
      exact ownAlive_incrementMyIncarnation L
  · rw [if_neg fun hc => hle hc.2.2]
    have hlt : u.incarnation < L.myIncarnation := by omega
    rw [ownAlive_applyUpdate_iff hself hlt]
    constructor
    · rintro ⟨-, hown⟩
      exact Or.inr ⟨hlt, hown⟩
    · rintro (heq | ⟨-, hown⟩)
      · omega
      · exact ⟨hlt, hown⟩

theorem mem_applyUpdate (h : id ∈ L.members) : id ∈ (L.applyUpdate now u).list.members := by
  by_contra hn
  rw [← rankOf_eq_bot, rankOf_applyUpdate] at hn
  have hle := JoinMap.le_join L.rankOf (u.memberId, (u.rank : WithBot Rank)) id
  rw [hn, le_bot_iff, rankOf_eq_bot] at hle
  exact hle h

end MembershipList

/-! ## The receiver thread of a running node -/

/-- The update the receiver thread has taken up in `ProcessPiggybackedUpdates`. -/
def ReceiverPc.current : ReceiverPc → Option MembershipUpdate
  | .refute _ _ u _ => some u
  | .apply _ _ u _ => some u
  | _ => none

namespace Node

open MembershipList

variable {n n' s s' : Node} {a : Act} {L' : MembershipList} {u : MembershipUpdate}
  {msg : GossipMessage} {src : Address} {rest : List MembershipUpdate}

/-- The node is in its own list, and its sender thread is never about to mark it. -/
structure OwnKnown (n : Node) : Prop where
  known : n.list.myId ∈ n.list.members
  targets : ∀ id ∈ n.sender.targets, id ≠ n.list.myId

theorem create_ownKnown (myId myAddress : String) (config : SwimConfig) :
    OwnKnown (create myId myAddress config) where
  known := (AList.mem_insert (∅ : UnorderedMap String MemberInfo)).mpr (Or.inl rfl)
  targets := by intro id hid; cases hid

/-- **Only the receiver thread touches the own entry.** -/
theorem ListEffect.own (h : OwnKnown n) (he : ListEffect n a L') :
    SameOwn n.list L' ∨ ((a = .receiver ∧ ∃ u, n.receiver.current = some u) ∧
      L'.myId = n.list.myId ∧ n.list.myId ∈ L'.members) := by
  cases he with
  | keep => exact Or.inl (.refl _)
  | collect m => exact Or.inl ⟨rfl, rfl, rfl⟩
  | suspect hpc =>
    refine Or.inl (.of_lookup markSuspect_own (markSuspect_lookup_of_ne ?_))
    exact (h.targets _ (by rw [hpc]; exact List.mem_cons_self)).symm
  | expire hpc hexp =>
    refine Or.inl (.of_lookup markDead_own (markDead_lookup_of_ne ?_))
    exact (h.targets _ (by rw [hpc]; exact List.mem_cons_self)).symm
  | add members => exact Or.inl (.addMembers h.known members)
  | refute hpc =>
    exact Or.inr ⟨⟨rfl, _, by rw [hpc]; rfl⟩, rfl, (AList.mem_insert _).mpr (Or.inl rfl)⟩
  | apply hpc =>
    exact Or.inr ⟨⟨rfl, _, by rw [hpc]; rfl⟩, applyUpdate_own.2, mem_applyUpdate h.known⟩

theorem OwnKnown.step (h : OwnKnown n) (hs : n.step a = some n') :
    OwnKnown n' ∧ n'.list.myId = n.list.myId := by
  have hspec := step_spec hs
  have hown : n'.list.myId = n.list.myId ∧ n.list.myId ∈ n'.list.members := by
    rcases hspec.list.own h with hsame | ⟨-, hid, hmem⟩
    · have hmem := hsame.mem_members.mpr h.known
      exact ⟨hsame.myId, hsame.myId ▸ hmem⟩
    · exact ⟨hid, hmem⟩
  refine ⟨⟨by rw [hown.1]; exact hown.2, ?_⟩, hown.1⟩
  intro id hid
  rw [hown.1]
  rcases hspec.targets id hid with hid | hne
  · exact h.targets id hid
  · exact hne

theorem ownKnown_of_run {myId myAddress : String} {config : SwimConfig} {es : List Act}
    (hrun : Run step (create myId myAddress config) es n) :
    OwnKnown n ∧ n.list.myId = myId := by
  refine hrun.invariant (P := fun n => OwnKnown n ∧ n.list.myId = myId) ?_ ?_
  · exact ⟨create_ownKnown .., addMember_own.2⟩
  · intro s e t ⟨hs, hid⟩ hstep
    obtain ⟨ht, hid'⟩ := hs.step hstep
    exact ⟨ht, hid'.trans hid⟩

theorem OwnKnown.sameOwn (h : OwnKnown n) (hs : n.step a = some n')
    (ha : a = .receiver → n.receiver.current = none) : SameOwn n.list n'.list := by
  rcases (step_spec hs).list.own h with hsame | ⟨⟨hr, u, hu⟩, -⟩
  · exact hsame
  · rw [ha hr] at hu
    cases hu

/-! ### The steps of `ProcessPiggybackedUpdates` -/

theorem step_updates (hpc : n.receiver = .updates msg src (u :: rest))
    (hs : n.step .receiver = some n') : n'.list = n.list ∧ n'.receiver =
      if n.mustRefute u then .refute msg src u rest else .apply msg src u rest := by
  replace hs := receiverStep_of_step hs
  unfold Node.receiverStep at hs
  rw [hpc] at hs
  cases hs
  exact ⟨rfl, rfl⟩

theorem step_refute (hpc : n.receiver = .refute msg src u rest)
    (hs : n.step .receiver = some n') :
    n'.list = n.list.incrementMyIncarnation ∧ n'.receiver = .apply msg src u rest := by
  replace hs := receiverStep_of_step hs
  unfold Node.receiverStep at hs
  rw [hpc] at hs
  cases hs
  exact ⟨rfl, rfl⟩

theorem step_refute_sent (hpc : n.receiver = .refute msg src u rest)
    (hs : n.step .receiver = some n') : n'.sent = n.sent := by
  replace hs := receiverStep_of_step hs
  unfold Node.receiverStep at hs
  rw [hpc] at hs
  cases hs
  rfl

theorem step_apply (hpc : n.receiver = .apply msg src u rest)
    (hs : n.step .receiver = some n') :
    n'.list = (n.list.applyUpdate n.clock u).list ∧ n'.receiver = .updates msg src rest := by
  replace hs := receiverStep_of_step hs
  unfold Node.receiverStep at hs
  rw [hpc] at hs
  cases hs
  exact ⟨rfl, rfl⟩

theorem current_sending (n : Node) (m : Sending) {more : Sending → ReceiverPc} {done : ReceiverPc}
    (hmore : ∀ m, (more m).current = none) (hdone : done.current = none) :
    (match n.sendStep m with
      | (n', some m') => { n' with receiver := more m' }
      | (n', none) => { n' with receiver := done } : Node).receiver.current = none := by
  refine sendStep_elim (C := fun n' => n'.receiver.current = none) (fun n' m' _ => ?_) fun n' _ => ?_
  · exact hmore m'
  · exact hdone

/-- The receiver thread takes up an update only where one is next. -/
theorem step_current (hs : n.step .receiver = some n') (hidle : n.receiver.current = none)
    (hnext : ∀ msg src u rest, n.receiver ≠ .updates msg src (u :: rest)) :
    n'.receiver.current = none := by
  cases receiverStep_move (receiverStep_of_step hs) with
  | toRefute hpc | toApply hpc => exact absurd hpc (hnext _ _ _ _)
  | refute hpc | apply hpc =>
    rw [hpc] at hidle
    cases hidle
  | relayProbe =>
    unfold Node.withAddress
    split
    · rfl
    · exact hidle
  | ackPing | relayPing | relayAck => exact n.current_sending _ (fun _ => rfl) rfl
  | receive | handled | ping | unknown | pingReq | ack | waiting | answered | timedOut
  | relayForget => rfl

theorem mustRefute_iff : n.mustRefute u ↔ u.memberId = n.list.myId ∧
    (u.state = .suspect ∨ u.state = .dead) ∧ n.list.myIncarnation ≤ u.incarnation := by
  unfold Node.mustRefute
  exact decide_eq_true_iff

/-- How far the loop of `ProcessPiggybackedUpdates` is with the update `u`, and what it has made of
the own entry of `n`, where `u` was next. -/
inductive Stage (n : Node) (msg : GossipMessage) (src : Address) (u : MembershipUpdate)
    (rest : List MembershipUpdate) (s : Node) : Prop
  | next : s.receiver = .updates msg src (u :: rest) → SameOwn n.list s.list →
      Stage n msg src u rest s
  | refuting : s.receiver = .refute msg src u rest → n.mustRefute u → SameOwn n.list s.list →
      Stage n msg src u rest s
  | applying : s.receiver = .apply msg src u rest →
      SameOwn (n.list.checkSelfRefutation u) s.list → Stage n msg src u rest s
  | handled (now : ℕ) : s.receiver = .updates msg src rest →
      SameOwn (n.list.handleUpdate now u) s.list → Stage n msg src u rest s

theorem Stage.step (h : Stage n msg src u rest s) (hown : OwnKnown s)
    (hopen : s.receiver ≠ .updates msg src rest) (hs : s.step a = some s') :
    Stage n msg src u rest s' := by
  by_cases ha : a = .receiver
  · subst ha
    cases h with
    | next hpc hsame =>
      obtain ⟨hl, hr⟩ := step_updates hpc hs
      have hmust : s.mustRefute u ↔ n.mustRefute u := by
        rw [mustRefute_iff, mustRefute_iff, hsame.myId, hsame.myIncarnation]
      by_cases hm : s.mustRefute u
      · rw [if_pos hm] at hr
        exact .refuting hr (hmust.mp hm) (hl ▸ hsame)
      · rw [if_neg hm] at hr
        refine .applying hr ?_
        rw [hmust, mustRefute_iff] at hm
        unfold MembershipList.checkSelfRefutation
        rw [if_neg hm, hl]
        exact hsame
    | refuting hpc hm hsame =>
      obtain ⟨hl, hr⟩ := step_refute hpc hs
      refine .applying hr ?_
      unfold MembershipList.checkSelfRefutation
      rw [if_pos (mustRefute_iff.mp hm), hl]
      exact hsame.incrementMyIncarnation
    | applying hpc hsame =>
      obtain ⟨hl, hr⟩ := step_apply hpc hs
      refine .handled s.clock hr ?_
      rw [hl]
      exact hsame.applyUpdate s.clock u
    | handled now hpc _ => exact absurd hpc hopen
  · have hsame' := hown.sameOwn hs fun hr => absurd hr ha
    have hr := (step_spec hs).receiver ha
    cases h with
    | next hpc hsame => exact .next (hr.trans hpc) (hsame.trans hsame')
    | refuting hpc hm hsame => exact .refuting (hr.trans hpc) hm (hsame.trans hsame')
    | applying hpc hsame => exact .applying (hr.trans hpc) (hsame.trans hsame')
    | handled now hpc _ => exact absurd hpc hopen

/-- The labels `fs` take the node from where `ProcessPiggybackedUpdates` is about to handle `u` to
where it has just handled it. The other threads may take any steps in between. -/
structure Handles (n : Node) (u : MembershipUpdate) (fs : List Act) (n' : Node) : Prop where
  run : Run step n fs n'
  loop : ∃ msg src rest, n.receiver = .updates msg src (u :: rest) ∧
    n'.receiver = .updates msg src rest ∧
    ∀ pre s, pre <+: fs → pre ≠ fs → Run step n pre s → s.receiver ≠ .updates msg src rest

/-- **`ProcessPiggybackedUpdates` in a running node.** Whatever the other threads do meanwhile, the
own entry ends as `handleUpdate` leaves it. -/
theorem Handles.handleUpdate {fs : List Act} (h : Handles n u fs n') (hown : OwnKnown n) :
    ∃ now, SameOwn (n.list.handleUpdate now u) n'.list := by
  obtain ⟨hrun, msg, src, rest, hstart, hend, hopen⟩ := h
  have hstage : OwnKnown n' ∧ Stage n msg src u rest n' := by
    clear hend
    induction hrun with
    | nil => exact ⟨hown, .next hstart (.refl _)⟩
    | @snoc es e s t hrun hs ih =>
      have hlen : es ≠ es ++ [e] := by simp
      obtain ⟨hs', hst⟩ := ih fun pre s' hpre hne =>
        hopen pre s' (hpre.trans (List.prefix_append _ _)) fun heq => by
          subst heq
          have := hpre.length_le
          simp at this
      exact ⟨(hs'.step hs).1, hst.step hs' (hopen es s (List.prefix_append _ _) hlen hrun) hs⟩
  cases hstage.2 with
  | handled now _ hsame => exact ⟨now, hsame⟩
  | next hpc _ =>
    rw [hend] at hpc
    have := congrArg List.length (ReceiverPc.updates.inj hpc).2.2
    simp at this
  | refuting hpc _ _ => rw [hend] at hpc; cases hpc
  | applying hpc _ => rw [hend] at hpc; cases hpc

/-- The receiver thread is about to call `IncrementMyIncarnation`. -/
def isRefuting (n : Node) : Bool :=
  match n.receiver with
  | .refute _ _ _ _ => true
  | _ => false

theorem isRefuting_iff : n.isRefuting ↔ ∃ msg src u rest, n.receiver = .refute msg src u rest := by
  unfold isRefuting
  cases n.receiver <;> simp

/-- Only a refutation changes the own incarnation. -/
theorem step_myIncarnation (hs : n.step a = some n') (h : ¬ (a = .receiver ∧ n.isRefuting)) :
    n'.list.myIncarnation = n.list.myIncarnation := by
  have hadd : ∀ members : List (String × String), ∀ L : MembershipList,
      (L.addMembers members).myIncarnation = L.myIncarnation := by
    intro members
    induction members with
    | nil => intro L; rfl
    | cons m members ih => intro L; exact (ih _).trans addMember_own.1
  have he := (step_spec hs).list
  generalize n'.list = L' at he
  cases he with
  | keep => rfl
  | collect m => rfl
  | suspect _ => exact markSuspect_own.1
  | expire _ _ => exact markDead_own.1
  | add members => exact hadd members _
  | refute hpc => exact absurd ⟨rfl, isRefuting_iff.mpr ⟨_, _, _, _, hpc⟩⟩ h
  | apply hpc => exact applyUpdate_own.1

/-! ### Runs in which no update is ahead of the node -/

/-- The own entry is `ALIVE` at the own incarnation, and what the receiver thread is about to do
keeps it so: it refutes only at the own incarnation, and applies nothing above the own entry. -/
structure SelfGuarded (n : Node) : Prop extends OwnKnown n where
  ownAlive : n.list.OwnAlive
  refuting : ∀ msg src u rest, n.receiver = .refute msg src u rest →
    u.incarnation = n.list.myIncarnation
  applying : ∀ msg src u rest, n.receiver = .apply msg src u rest → u.memberId = n.list.myId →
    u.rank ≤ toLex (n.list.myIncarnation, .alive)

theorem create_selfGuarded (myId myAddress : String) (config : SwimConfig) :
    SelfGuarded (create myId myAddress config) where
  toOwnKnown := create_ownKnown ..
  ownAlive := ⟨_, AList.lookup_insert _, rfl, rfl⟩
  refuting := nofun
  applying := nofun

/-- The update the receiver thread handles next is not ahead of the node. -/
def NotAhead (n : Node) : Prop :=
  ∀ msg src u rest, n.receiver = .updates msg src (u :: rest) → u.memberId = n.list.myId →
    u.incarnation ≤ n.list.myIncarnation

theorem ownAlive_applyUpdate (h : n.list.OwnAlive) {now : ℕ}
    (hu : u.memberId = n.list.myId → u.rank ≤ toLex (n.list.myIncarnation, .alive)) :
    (n.list.applyUpdate now u).list.OwnAlive := by
  rw [ownAlive_iff_rankOf] at h ⊢
  rw [applyUpdate_own.1, applyUpdate_own.2, rankOf_applyUpdate]
  by_cases hself : u.memberId = n.list.myId
  · rw [← hself, JoinMap.join_self, hself, h]
    exact sup_eq_left.mpr (WithBot.coe_le_coe.mpr (hu hself))
  · rw [JoinMap.join_of_ne _ (Ne.symm hself), h]

/-- A step that leaves the own entry alone, to a receiver thread that holds no update or holds the
one it held. -/
theorem SelfGuarded.frame (h : SelfGuarded n) (hs : n.step a = some n')
    (hsame : SameOwn n.list n'.list)
    (hr : n'.receiver = n.receiver ∨ n'.receiver.current = none) : SelfGuarded n' := by
  refine ⟨(h.toOwnKnown.step hs).1, hsame.ownAlive.mpr h.ownAlive, ?_, ?_⟩
  · intro msg src u rest hpc
    rcases hr with hr | hr
    · rw [hsame.myIncarnation]
      exact h.refuting msg src u rest (hr.symm.trans hpc)
    · rw [hpc] at hr; cases hr
  · intro msg src u rest hpc
    rcases hr with hr | hr
    · rw [hsame.myIncarnation, hsame.myId]
      exact h.applying msg src u rest (hr.symm.trans hpc)
    · rw [hpc] at hr; cases hr

theorem SelfGuarded.receiver (h : SelfGuarded n) (hs : n.step .receiver = some n')
    (hahead : NotAhead n) (hwrap : ∀ msg src u rest, n.receiver = .refute msg src u rest →
      n.list.myIncarnation + 1 < 2 ^ 64) : SelfGuarded n' := by
  have hown := (h.toOwnKnown.step hs).1
  cases hpc : n.receiver
  case updates msg src us =>
    cases us with
    | nil =>
      have hidle : n.receiver.current = none := by rw [hpc]; rfl
      refine h.frame hs (h.toOwnKnown.sameOwn hs fun _ => hidle) (Or.inr (step_current hs hidle ?_))
      intro msg' src' u rest heq
      rw [hpc] at heq
      cases heq
    | cons u rest =>
      obtain ⟨hl, hr⟩ := step_updates hpc hs
      have hle := hahead msg src u rest hpc
      split_ifs at hr with hm
      · obtain ⟨hself, -, hge⟩ := mustRefute_iff.mp hm
        refine ⟨hown, by rw [hl]; exact h.ownAlive, ?_, ?_⟩
        · intro msg' src' u' rest' heq
          rw [hr] at heq
          cases heq
          rw [hl]
          exact le_antisymm (hle hself) hge
        · intro msg' src' u' rest' heq
          rw [hr] at heq
          cases heq
      · refine ⟨hown, by rw [hl]; exact h.ownAlive, ?_, ?_⟩
        · intro msg' src' u' rest' heq
          rw [hr] at heq
          cases heq
        · intro msg' src' u' rest' heq hself
          rw [hr] at heq
          cases heq
          rw [hl] at hself ⊢
          -- an update that is not refuted is behind the node, or claims no suspicion
          rcases lt_or_eq_of_le (hle hself) with hlt | heq
          · exact Prod.Lex.toLex_le_toLex.mpr (Or.inl hlt)
          · refine Prod.Lex.toLex_le_toLex.mpr (Or.inr ⟨heq, ?_⟩)
            cases hst : u.state with
            | alive => exact le_refl _
            | suspect => exact absurd (mustRefute_iff.mpr ⟨hself, Or.inl hst, heq.ge⟩) hm
            | dead => exact absurd (mustRefute_iff.mpr ⟨hself, Or.inr hst, heq.ge⟩) hm
  case refute msg src u rest =>
    obtain ⟨hl, hr⟩ := step_refute hpc hs
    have hu := h.refuting msg src u rest hpc
    have hwrap := hwrap msg src u rest hpc
    refine ⟨hown, by rw [hl]; exact ownAlive_incrementMyIncarnation _, ?_, ?_⟩
    · intro msg' src' u' rest' heq
      rw [hr] at heq
      cases heq
    · intro msg' src' u' rest' heq hself
      rw [hr] at heq
      cases heq
      refine Prod.Lex.toLex_le_toLex.mpr (Or.inl ?_)
      show u.incarnation < n'.list.myIncarnation
      rw [hl, incrementMyIncarnation_myIncarnation]
      omega
  case apply msg src u rest =>
    obtain ⟨hl, hr⟩ := step_apply hpc hs
    refine ⟨hown, ?_, ?_, ?_⟩
    · rw [hl]
      exact ownAlive_applyUpdate h.ownAlive (h.applying msg src u rest hpc)
    · intro msg' src' u' rest' heq
      rw [hr] at heq
      cases heq
    · intro msg' src' u' rest' heq
      rw [hr] at heq
      cases heq
  all_goals
    have hidle : n.receiver.current = none := by rw [hpc]; rfl
    refine h.frame hs (h.toOwnKnown.sameOwn hs fun _ => hidle) (Or.inr (step_current hs hidle ?_))
    intro msg' src' u rest heq
    rw [hpc] at heq
    cases heq

/-- **The own entry stays `ALIVE`.** -/
theorem SelfGuarded.step (h : SelfGuarded n) (hs : n.step a = some n') (hahead : NotAhead n)
    (hwrap : a = .receiver → ∀ msg src u rest, n.receiver = .refute msg src u rest →
      n.list.myIncarnation + 1 < 2 ^ 64) : SelfGuarded n' := by
  by_cases ha : a = .receiver
  · subst ha
    exact h.receiver hs hahead (hwrap rfl)
  · exact h.frame hs (h.toOwnKnown.sameOwn hs fun hr => absurd hr ha)
      (Or.inl ((step_spec hs).receiver ha))

/-- The update the receiver thread handles next is not ahead of the node, and the node can still
count past a suspicion. -/
def SelfUpdatesBehind (n : Node) : Prop :=
  ∀ msg src u rest, n.receiver = .updates msg src (u :: rest) → u.memberId = n.list.myId →
    u.incarnation ≤ n.list.myIncarnation ∧ (u.state ≠ .alive → u.incarnation < 2 ^ 64 - 1)

theorem refute_of_step (hs : n.step a = some n') (hpc : n'.receiver = .refute msg src u rest) :
    n.receiver = .refute msg src u rest ∨
      (n.receiver = .updates msg src (u :: rest) ∧ n.mustRefute u) := by
  by_cases ha : a = .receiver
  · subst ha
    cases hr : n.receiver.current with
    | none =>
      by_cases hnext : ∀ msg src u rest, n.receiver ≠ .updates msg src (u :: rest)
      · have := step_current hs hr hnext
        rw [hpc] at this
        cases this
      · push Not at hnext
        obtain ⟨msg', src', u', rest', hr⟩ := hnext
        obtain ⟨-, hr'⟩ := step_updates hr hs
        rw [hpc] at hr'
        split_ifs at hr' with hm
        cases hr'
        exact Or.inr ⟨hr, hm⟩
    | some v =>
      exfalso
      cases hr' : n.receiver <;> rw [hr'] at hr <;> try cases hr
      · obtain ⟨-, h⟩ := step_refute hr' hs
        rw [hpc] at h
        cases h
      · obtain ⟨-, h⟩ := step_apply hr' hs
        rw [hpc] at h
        cases h
  · exact Or.inl (((step_spec hs).receiver ha).symm.trans hpc)

theorem ownAlive_of_behind {myId myAddress : String} {config : SwimConfig} {es : List Act}
    (hrun : Run step (create myId myAddress config) es s)
    (hbehind : EveryStep step (create myId myAddress config) es fun _ n _ => n.SelfUpdatesBehind) :
    Always step (create myId myAddress config) es fun _ n => SelfGuarded n ∧
      ∀ msg src u rest, n.receiver = .refute msg src u rest → u.incarnation < 2 ^ 64 - 1 := by
  refine always_of_everyStep hrun ⟨create_selfGuarded .., nofun⟩ ?_ hbehind
  · rintro pre n e n' - ⟨h, hlt⟩ hb hs
    refine ⟨h.step hs (fun msg src u rest hpc hself => (hb msg src u rest hpc hself).1) ?_, ?_⟩
    · intro _ msg src u rest hpc
      have h₁ := h.refuting msg src u rest hpc
      have h₂ := hlt msg src u rest hpc
      omega
    · intro msg src u rest hpc
      rcases refute_of_step hs hpc with hpc | ⟨hpc, hm⟩
      · exact hlt msg src u rest hpc
      · obtain ⟨hself, hst, -⟩ := mustRefute_iff.mp hm
        refine (hb msg src u rest hpc hself).2 ?_
        rintro heq
        rw [heq] at hst
        rcases hst with hst | hst <;> cases hst

theorem Handles.ne_nil {fs : List Act} (h : Handles n u fs n') : fs ≠ [] := by
  rintro rfl
  obtain ⟨hrun, msg, src, rest, hstart, hend, -⟩ := h
  rw [Run.deterministic hrun .nil, hstart] at hend
  have := congrArg List.length (ReceiverPc.updates.inj hend).2.2
  simp at this

/-- **Self-refutation.** Handling a suspicion about the node itself, in any reachable state and
between any steps of the other threads, refutes it exactly when it is at the own incarnation, or
below it with the own entry still `ALIVE` there. In a run in which no update about the node is
ahead of it the own entry stays so, and every suspicion is refuted. -/
theorem selfRefutation_iff (myId myAddress : String) (config : SwimConfig) :
    (∀ es n, Run step (create myId myAddress config) es n →
      ∀ u fs n', Handles n u fs n' → u.memberId = myId → u.state ≠ .alive →
        u.incarnation < 2 ^ 64 - 1 →
        (n'.list.Refuted u ↔ u.incarnation = n.list.myIncarnation ∨
          (u.incarnation < n.list.myIncarnation ∧ n.list.OwnAlive))) ∧
    ∀ es s, Run step (create myId myAddress config) es s →
      EveryStep step (create myId myAddress config) es (fun _ n _ => n.SelfUpdatesBehind) →
      Always step (create myId myAddress config) es (fun _ n => n.list.OwnAlive) ∧
      ∀ pre n u fs n', pre ++ fs <+: es → Run step (create myId myAddress config) pre n →
        Handles n u fs n' → u.memberId = myId → u.state ≠ .alive → n'.list.Refuted u := by
  have hiff : ∀ es n, Run step (create myId myAddress config) es n →
      ∀ u fs n', Handles n u fs n' → u.memberId = myId → u.state ≠ .alive →
        u.incarnation < 2 ^ 64 - 1 →
        (n'.list.Refuted u ↔ u.incarnation = n.list.myIncarnation ∨
          (u.incarnation < n.list.myIncarnation ∧ n.list.OwnAlive)) := by
    intro es n hrun u fs n' hu hself hstate hinc
    obtain ⟨hown, hid⟩ := ownKnown_of_run hrun
    obtain ⟨now, hsame⟩ := hu.handleUpdate hown
    rw [hsame.refuted]
    exact refuted_handleUpdate_iff (hself.trans hid.symm) hstate hinc
  refine ⟨hiff, ?_⟩
  intro es s hrun hbehind
  have halways := ownAlive_of_behind hrun hbehind
  refine ⟨halways.mono fun _ _ _ h => h.1.ownAlive, ?_⟩
  intro pre n u fs n' hpre hrun' hu hself hstate
  obtain ⟨-, hid⟩ := ownKnown_of_run hrun'
  obtain ⟨msg, src, rest, hstart, -⟩ := hu.loop
  obtain ⟨a, fs', rfl⟩ := List.exists_cons_of_ne_nil hu.ne_nil
  have hfirst : pre ++ [a] <+: es := by
    refine List.IsPrefix.trans ⟨fs', ?_⟩ hpre
    simp
  obtain ⟨hle, hlt⟩ := hbehind pre a n hfirst hrun' msg src u rest hstart (hself.trans hid.symm)
  refine (hiff pre n hrun' u _ n' hu hself hstate (hlt hstate)).mpr ?_
  have hown := (halways pre n ((List.prefix_append _ _).trans hpre) hrun').1.ownAlive
  rcases lt_or_eq_of_le hle with h | h
  · exact Or.inr ⟨h, hown⟩
  · exact Or.inl h

theorem Handles.of_exec {fs : List Act} (hsome : (exec step n fs).isSome)
    (hstart : n.receiver = .updates msg src (u :: rest))
    (hend : ((exec step n fs).get hsome).receiver = .updates msg src rest)
    (hopen : ∀ pre ∈ fs.inits, pre ≠ fs → ∀ s ∈ exec step n pre, s.receiver ≠ .updates msg src rest) :
    Handles n u fs ((exec step n fs).get hsome) := by
  refine ⟨run_get hsome, msg, src, rest, hstart, hend, ?_⟩
  intro pre s hpre hne hrun
  exact hopen pre ((List.mem_inits pre fs).mpr hpre) hne s hrun.exec

/-- A fresh `replica-1` receives a `PING` that carries `u`. -/
def pinged (u : MembershipUpdate) : List Act :=
  [.arrive ⟨.ping, "gateway-1", "", 1, [u]⟩ ⟨"10.0.0.9", 17000⟩, .receiver]

/-- A fresh node is suspected at its incarnation and refutes. -/
theorem selfRefutation_iff_suspected :
    let u : MembershipUpdate := ⟨"replica-1", "10.0.0.1:17001", .suspect, 0, "", 0, 0⟩
    ∃ n n', Run step (create "replica-1" "10.0.0.1:17001" {}) (pinged u) n ∧
      Handles n u [.receiver, .tick 7, .receiver, .receiver] n' ∧ n'.list.Refuted u := by
  intro u
  have hn : Run step (create "replica-1" "10.0.0.1:17001" {}) (pinged u) _ := run_get (by decide)
  have hu : Handles _ u [.receiver, .tick 7, .receiver, .receiver] _ :=
    Handles.of_exec (n := (exec step (create "replica-1" "10.0.0.1:17001" {}) (pinged u)).get
      (by decide)) (by decide) rfl rfl (by decide)
  refine ⟨_, _, hn, hu, ?_⟩
  exact ((selfRefutation_iff _ _ _).1 _ _ hn _ _ _ hu rfl (by decide) (by decide)).mpr (Or.inl rfl)

/-- A `DEAD` update left over from an earlier life of the id is ahead of the fresh node: one
increment does not reach it, and the node is `DEAD` in its own list. -/
theorem not_refuted_earlier_life :
    let u : MembershipUpdate := ⟨"replica-1", "10.0.0.1:17001", .dead, 5, "", 0, 0⟩
    ∃ n n', Run step (create "replica-1" "10.0.0.1:17001" {}) (pinged u) n ∧
      Handles n u [.receiver, .receiver, .receiver] n' ∧ u.incarnation < 2 ^ 64 - 1 ∧
      n'.list.myIncarnation = 1 ∧
      (n'.list.getMember "replica-1").map MemberInfo.rank = some (toLex (5, .dead)) ∧
      ¬ n'.list.Refuted u := by
  intro u
  have hn : Run step (create "replica-1" "10.0.0.1:17001" {}) (pinged u) _ := run_get (by decide)
  have hu : Handles _ u [.receiver, .receiver, .receiver] _ :=
    Handles.of_exec (n := (exec step (create "replica-1" "10.0.0.1:17001" {}) (pinged u)).get
      (by decide)) (by decide) rfl rfl (by decide)
  refine ⟨_, _, hn, hu, by decide, by decide, by decide, ?_⟩
  intro h
  exact absurd h.above (by decide)

end Node

end LlmGateway.Gossip
