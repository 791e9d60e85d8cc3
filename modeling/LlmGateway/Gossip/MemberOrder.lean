import LlmGateway.Gossip.Departure

/-!
# The order of what is known of a member

The operations of a membership list, as the two gossip threads call them in any order: each takes
the lock, so any interleaving of the threads is a sequence of them. `ApplyUpdate` compares before it
writes; `MarkSuspect` and `MarkDead` do not look at incarnations, but only raise the state of the
entry there is; `AddMember` writes unknown members only, and `IncrementMyIncarnation` the own entry
only.

1. `Operation.rankOf_le`: what one operation does to the rank of another member.
2. `revived_of_apply`: an operation that brings a `DEAD` member back.
3. `lookup_run`: both over any sequence of operations.
-/

namespace LlmGateway.Gossip

namespace MembershipList

/-- An operation that can change the list. The clock is read for the suspicion timers. -/
inductive Operation
  | applyUpdate (now : ℕ) (update : MembershipUpdate)
  | markSuspect (now : ℕ) (id : String)
  | markDead (id : String)
  | addMember (id address : String)
  | incrementMyIncarnation
  | getUpdatesForPiggyback (maxCount : ℤ)
  deriving DecidableEq, Repr

/-- The list an operation leaves. `GetUpdatesForPiggyback` with a negative count throws before it
changes anything. -/
def Operation.apply (L : MembershipList) : Operation → MembershipList
  | .applyUpdate now u => (L.applyUpdate now u).list
  | .markSuspect now id => (L.markSuspect now id).list
  | .markDead id => (L.markDead id).list
  | .addMember id address => L.addMember id address
  | .incrementMyIncarnation => L.incrementMyIncarnation
  | .getUpdatesForPiggyback maxCount => (L.getUpdatesForPiggyback maxCount).elim L Prod.snd

/-- One operation after the other. -/
def run (L : MembershipList) (ops : List Operation) : MembershipList :=
  ops.foldl Operation.apply L

variable {L : MembershipList} {x : String} {e e' : MemberInfo} {op : Operation}
  {ops pre : List Operation}

theorem run_append : L.run (pre ++ ops) = (L.run pre).run ops := List.foldl_append

theorem getUpdatesForPiggyback_members (L : MembershipList) (maxCount : ℤ) :
    ((L.getUpdatesForPiggyback maxCount).elim L Prod.snd).members = L.members ∧
      ((L.getUpdatesForPiggyback maxCount).elim L Prod.snd).myId = L.myId := by
  unfold getUpdatesForPiggyback
  split_ifs <;> exact ⟨rfl, rfl⟩

@[simp] theorem Operation.apply_myId (L : MembershipList) (op : Operation) :
    (op.apply L).myId = L.myId := by
  cases op with
  | applyUpdate now u => exact applyUpdate_own.2
  | markSuspect now id => exact markSuspect_own.2
  | markDead id => exact markDead_own.2
  | addMember id address => exact addMember_own.2
  | incrementMyIncarnation => rfl
  | getUpdatesForPiggyback m => exact (getUpdatesForPiggyback_members L m).2

@[simp] theorem run_myId (L : MembershipList) (ops : List Operation) : (L.run ops).myId = L.myId := by
  induction ops generalizing L with
  | nil => rfl
  | cons op ops ih => exact (ih _).trans (op.apply_myId L)

/-! ## One operation -/

theorem Operation.rankOf_le (hx : x ≠ L.myId) (op : Operation) :
    L.rankOf x ≤ (op.apply L).rankOf x := by
  cases op with
  | applyUpdate now u => exact rankOf_le_applyUpdate L now u x
  | markSuspect now id => exact rankOf_le_markSuspect L now id x
  | markDead id => exact rankOf_le_markDead L id x
  | addMember id address => exact rankOf_le_addMembers L [(id, address)] x
  | incrementMyIncarnation =>
    show L.rankOf x ≤ L.incrementMyIncarnation.rankOf x
    unfold rankOf
    rw [incrementMyIncarnation_lookup_of_ne hx]
  | getUpdatesForPiggyback m =>
    show L.rankOf x ≤ ((L.getUpdatesForPiggyback m).elim L Prod.snd).rankOf x
    unfold rankOf
    rw [(getUpdatesForPiggyback_members L m).1]

theorem mark_lookup_of_dead (he : L.members.lookup x = some e) (hdead : e.state = .dead) (now : ℕ)
    (id : String) :
    (L.markSuspect now id).list.members.lookup x = some e ∧
      (L.markDead id).list.members.lookup x = some e := by
  by_cases hid : x = id
  · subst hid
    unfold markSuspect markDead
    rw [he]
    dsimp only
    rw [if_pos (by rw [hdead]; decide), if_pos hdead]
    exact ⟨he, he⟩
  · exact ⟨(markSuspect_lookup_of_ne hid).trans he, (markDead_lookup_of_ne hid).trans he⟩

theorem applyUpdate_revives {now : ℕ} {u : MembershipUpdate}
    (he : L.members.lookup u.memberId = some e) (hdead : e.state = .dead)
    (he' : (L.applyUpdate now u).list.members.lookup u.memberId = some e')
    (halive : e'.state ≠ .dead) : e.incarnation < u.incarnation ∧ e' = e.overwrite now u := by
  rcases applyUpdate_cases L now u with ⟨hnone, -⟩ | ⟨d, hd, hcases⟩
  · rw [hnone] at he
    cases he
  · rw [hd] at he
    cases he
    rcases hcases with ⟨hrank, happly⟩ | ⟨-, -, happly, -⟩ | ⟨-, happly⟩
    · rw [happly] at he'
      refine ⟨?_, Option.some.inj (he'.symm.trans (AList.lookup_insert _))⟩
      rcases Prod.Lex.toLex_lt_toLex.mp hrank with hinc | ⟨-, hst⟩
      · exact hinc
      · -- no state is stronger than `DEAD`
        have hst : e.state < u.state := hst
        rw [hdead] at hst
        exact absurd hst (not_lt_of_ge (MemberState.le_dead _))
    · rw [happly, setMember_members, AList.lookup_insert] at he'
      cases he'
      exact absurd hdead halive
    · rw [happly, hd] at he'
      cases he'
      exact absurd hdead halive

/-- Only a winning update brings a `DEAD` member back. -/
theorem revived_of_apply (hx : x ≠ L.myId) (he : L.members.lookup x = some e)
    (hdead : e.state = .dead) (he' : (op.apply L).members.lookup x = some e')
    (halive : e'.state ≠ .dead) :
    ∃ now u, op = .applyUpdate now u ∧ u.memberId = x ∧ e.incarnation < u.incarnation ∧
      e' = e.overwrite now u := by
  have hchanged : (op.apply L).members.lookup x ≠ some e := by
    rw [he']
    rintro ⟨⟩
    exact halive hdead
  cases op with
  | applyUpdate now u =>
    by_cases hid : x = u.memberId
    · subst hid
      exact ⟨now, u, rfl, rfl, applyUpdate_revives he hdead he' halive⟩
    · exact absurd ((applyUpdate_lookup_of_ne hid).trans he) hchanged
  | markSuspect now id => exact absurd (mark_lookup_of_dead he hdead now id).1 hchanged
  | markDead id => exact absurd (mark_lookup_of_dead he hdead 0 id).2 hchanged
  | addMember id address => exact absurd (addMember_lookup_of_some he) hchanged
  | incrementMyIncarnation =>
    exact absurd ((incrementMyIncarnation_lookup_of_ne hx).trans he) hchanged
  | getUpdatesForPiggyback m =>
    refine absurd ?_ hchanged
    show ((L.getUpdatesForPiggyback m).elim L Prod.snd).members.lookup x = _
    rw [(getUpdatesForPiggyback_members L m).1, he]

/-! ## Any sequence of operations -/

theorem rankOf_le_run (hx : x ≠ L.myId) (ops : List Operation) : L.rankOf x ≤ (L.run ops).rankOf x := by
  induction ops generalizing L with
  | nil => exact le_refl _
  | cons op ops ih =>
    have hstep : x ≠ (op.apply L).myId := by rwa [Operation.apply_myId]
    exact (op.rankOf_le hx).trans (ih hstep)

theorem lookup_of_le_rankOf (h : (e.rank : WithBot Rank) ≤ L.rankOf x) :
    ∃ e', L.members.lookup x = some e' ∧ e.rank ≤ e'.rank := by
  cases he' : L.members.lookup x with
  | none =>
    rw [rankOf_of_none he'] at h
    exact absurd h (WithBot.not_coe_le_bot _)
  | some e' =>
    rw [rankOf_of_lookup he'] at h
    exact ⟨e', rfl, WithBot.coe_le_coe.mp h⟩

/-- **A member never goes back.** Over any operations a known member other than the node itself
stays known, with an incarnation and a state that do not decrease; and `DEAD` is left only by an
update about the member with a higher incarnation. -/
theorem lookup_run (L : MembershipList) (x : String) (hx : x ≠ L.myId) (pre ops : List Operation)
    (e : MemberInfo) (he : (L.run pre).members.lookup x = some e) :
    (∃ e', (L.run (pre ++ ops)).members.lookup x = some e' ∧ e.rank ≤ e'.rank) ∧
    ∀ op e', e.state = .dead → (L.run (pre ++ [op])).members.lookup x = some e' →
      e'.state ≠ .dead →
      ∃ now u, op = .applyUpdate now u ∧ u.memberId = x ∧ e.incarnation < u.incarnation ∧
        e' = e.overwrite now u := by
  have hpre : x ≠ (L.run pre).myId := by rwa [run_myId]
  constructor
  · rw [run_append]
    have hle := rankOf_le_run hpre ops
    rw [rankOf_of_lookup he] at hle
    exact lookup_of_le_rankOf hle
  · intro op e' hdead he' halive
    rw [run_append] at he'
    exact revived_of_apply hpre he hdead he' halive

/-- A dead member, a stale update about it, its address among the seeds, and a `PING` of it. -/
theorem lookup_run_dead :
    let L : MembershipList := { myId := "gateway" }
    let dead : List Operation :=
      [.addMember "replica-1" "10.0.0.1:17001", .markSuspect 5 "replica-1", .markDead "replica-1"]
    let rest : List Operation :=
      [.applyUpdate 9 ⟨"replica-1", "10.0.0.1:17001", .alive, 0, "v1", 1, 4⟩, .incrementMyIncarnation,
        .addMember "replica-1" "10.0.0.1:17001", .getUpdatesForPiggyback 5]
    ∃ e', (L.run (dead ++ rest)).members.lookup "replica-1" = some e' ∧
      (toLex (0, .dead) : Rank) ≤ e'.rank := by
  intro L dead rest
  exact (lookup_run L "replica-1" (by decide) dead rest
    ⟨"10.0.0.1:17001", .dead, 0, "", 0, 0, 5⟩ (by decide +kernel)).1

end MembershipList

end LlmGateway.Gossip
