import LlmGateway.Gossip.Refutation

/-!
# The suspicion timer

`CheckSuspectTimeouts` copies the suspects, reads the clock and then calls `MarkDead` for each copy
whose timer has run out. `MarkDead` looks at the current entry only to see that it is not `DEAD`.

1. `ListEffect.entry`: what one step does to the entry of a member, with its timer.
2. `heldSince_suspectTime`: a `SUSPECT` entry has been `SUSPECT` at its incarnation since the moment
   its timer shows.
3. `markDead_suspectedFor_iff`: when a `MarkDead` call is right, at every call of every run.
-/

namespace LlmGateway.Gossip

open Transition MembershipList

namespace Node

variable {n n' m : Node} {a : Act} {L' : MembershipList} {id : String} {e e' : MemberInfo}

/-- What a step does to the entry of the member `id`: nothing, a load refresh, or a new entry; a new
`SUSPECT` entry starts its timer and has another rank than the old one. -/
inductive EntryEffect (n : Node) (a : Act) (id : String) (L' : MembershipList) : Prop
  | same : L'.members.lookup id = n.list.members.lookup id → EntryEffect n a id L'
  | refresh {e e' : MemberInfo} : n.list.members.lookup id = some e →
      L'.members.lookup id = some e' → e'.rank = e.rank → e'.suspectTime = e.suspectTime →
      EntryEffect n a id L'
  | set {e' : MemberInfo} : L'.members.lookup id = some e' →
      (e'.state = .suspect → e'.suspectTime = n.clock ∧ (∀ ns, a ≠ .tick ns) ∧
        ∀ e, n.list.members.lookup id = some e → e.rank ≠ e'.rank) →
      EntryEffect n a id L'

theorem addMembers_lookup (L : MembershipList) (members : List (String × String)) (id : String) :
    (L.addMembers members).members.lookup id = L.members.lookup id ∨
      ∃ e, (L.addMembers members).members.lookup id = some e ∧ e.state = .alive := by
  unfold MembershipList.addMembers
  induction members generalizing L with
  | nil => exact Or.inl rfl
  | cons m members ih =>
    rw [List.foldl_cons]
    rcases ih (L.addMember m.1 m.2) with h | h
    · rw [h]
      unfold MembershipList.addMember
      cases hl : L.members.lookup m.1 with
      | some _ => exact Or.inl rfl
      | none =>
        by_cases hid : id = m.1
        · subst hid
          exact Or.inr ⟨_, AList.lookup_insert _, rfl⟩
        · exact Or.inl (lookup_insert_of_ne hid)
    · exact Or.inr h

theorem rank_ne_of_state_ne (h : e.state ≠ e'.state) : e.rank ≠ e'.rank := by
  intro heq
  exact h (Prod.mk.inj (toLex_inj.mp heq)).2

theorem ListEffect.entry (he : ListEffect n a L') (id : String) : EntryEffect n a id L' := by
  cases he with
  | keep => exact .same rfl
  | collect k => exact .same rfl
  | suspect hpc =>
    rename_i c peer
    by_cases hid : id = peer.1
    · subst hid
      unfold MembershipList.markSuspect
      cases hl : n.list.members.lookup peer.1 with
      | none => exact .same rfl
      | some e =>
        dsimp only
        split_ifs with hst
        · exact .same rfl
        · refine .set (AList.lookup_insert _) fun _ => ⟨rfl, nofun, ?_⟩
          intro e₀ he₀
          rw [hl] at he₀
          cases he₀
          refine rank_ne_of_state_ne ?_
          intro heq
          exact hst (by rw [heq]; exact nofun)
    · exact .same (markSuspect_lookup_of_ne hid)
  | expire hpc hexp =>
    rename_i c now id₀ info rest
    by_cases hid : id = id₀
    · subst hid
      unfold MembershipList.markDead
      cases hl : n.list.members.lookup id with
      | none => exact .same rfl
      | some e =>
        dsimp only
        split_ifs
        · exact .same rfl
        · exact .set (AList.lookup_insert _) (by intro h; cases h)
    · exact .same (markDead_lookup_of_ne hid)
  | add members =>
    rcases addMembers_lookup n.list members id with h | ⟨e, h, hst⟩
    · exact .same h
    · exact .set h (by rw [hst]; intro h; cases h)
  | refute hpc =>
    by_cases hid : id = n.list.myId
    · subst hid
      obtain ⟨self, hself, hst, -⟩ := n.list.incrementMyIncarnation_lookup_self
      exact .set hself (by rw [hst]; intro h; cases h)
    · exact .same (incrementMyIncarnation_lookup_of_ne hid)
  | apply hpc =>
    rename_i msg src u rest
    by_cases hid : id = u.memberId
    · subst hid
      have htime : ∀ e : MemberInfo, u.state = .suspect →
          (e.overwrite n.clock u).suspectTime = n.clock := fun e h => if_pos h
      rcases applyUpdate_cases n.list n.clock u with
        ⟨hnone, h⟩ | ⟨e, he, ⟨hr, h⟩ | ⟨-, -, h, -⟩ | ⟨-, h⟩⟩ <;> rw [h]
      · refine .set (AList.lookup_insert _) fun hst => ⟨htime _ hst, nofun, ?_⟩
        rw [hnone]
        nofun
      · refine .set (AList.lookup_insert _) fun hst => ⟨htime _ hst, nofun, ?_⟩
        intro e₀ he₀
        rw [he] at he₀
        cases he₀
        exact hr.ne
      · exact .refresh he (AList.lookup_insert _) rfl rfl
      · exact .same rfl
    · exact .same (applyUpdate_lookup_of_ne hid)

/-- The member `id` is `SUSPECT` at the incarnation `k`. -/
def SuspectAt (id : String) (k : ℕ) (n : Node) : Prop :=
  ∃ e, n.list.members.lookup id = some e ∧ e.state = .suspect ∧ e.incarnation = k

/-- The timer of a suspect is set as the suspicion starts, and then stands. -/
theorem suspect_step (hs : n.step a = some n') (he' : n'.list.members.lookup id = some e')
    (hst : e'.state = .suspect) :
    (∃ e, n.list.members.lookup id = some e ∧ e.rank = e'.rank ∧
      e'.suspectTime = e.suspectTime) ∨
    (e'.suspectTime = n'.clock ∧ ∀ e, n.list.members.lookup id = some e → e.rank ≠ e'.rank) := by
  have hspec := step_spec hs
  cases hspec.list.entry id with
  | same h => exact Or.inl ⟨e', h ▸ he', rfl, rfl⟩
  | refresh he hl hr ht =>
    rename_i e₀ e₁
    obtain rfl := Option.some.inj (hl.symm.trans he')
    exact Or.inl ⟨e₀, he, hr.symm, ht⟩
  | set hl h =>
    obtain rfl := Option.some.inj (hl.symm.trans he')
    obtain ⟨ht, htick, hne⟩ := h hst
    exact Or.inr ⟨ht.trans (hspec.clock_eq htick).symm, hne⟩

variable {myId myAddress : String} {config : SwimConfig} {es fs : List Act}

/-- **What the timer shows.** A suspect has been `SUSPECT` at its incarnation since the clock
reading in its entry. -/
theorem heldSince_suspectTime (hrun : Run step (create myId myAddress config) es n)
    (he : n.list.members.lookup id = some e) (hst : e.state = .suspect) :
    HeldSince step (create myId myAddress config) es (fun m => m.clock = e.suspectTime)
      (SuspectAt id e.incarnation) := by
  induction hrun generalizing e with
  | nil =>
    -- the only entry of a new node is its own, and `ALIVE`
    by_cases hid : id = myId
    · subst hid
      have hl : (create id myAddress config).list.members.lookup id =
          some { address := myAddress } := AList.lookup_insert _
      rw [hl] at he
      cases he
      cases hst
    · have hl : (create myId myAddress config).list.members.lookup id = none :=
        AList.lookup_insert_ne hid
      rw [hl] at he
      cases he
  | @snoc es a s t hrun hs ih =>
    have hnow : SuspectAt id e.incarnation t := ⟨e, he, hst, rfl⟩
    rcases suspect_step hs he hst with ⟨e₀, he₀, hr, ht⟩ | ⟨ht, -⟩
    · obtain ⟨hinc, hst'⟩ := Prod.mk.inj (toLex_inj.mp hr)
      have h := ih he₀ (hst'.trans hst)
      rw [show e₀.incarnation = e.incarnation from hinc, ← ht] at h
      exact h.snoc (hrun.snoc hs) hnow
    · exact .start (hrun.snoc hs) ht.symm hnow

theorem clock_mono (hrun : Run step n fs n') : n.clock ≤ n'.clock := by
  induction hrun with
  | nil => exact le_refl _
  | snoc _ hs ih => exact ih.trans (step_spec hs).clock

theorem config_eq (hrun : Run step n fs n') : n'.config = n.config := by
  induction hrun with
  | nil => rfl
  | snoc _ hs ih => exact (step_spec hs).config.trans ih

theorem suspectTime_le_clock (hrun : Run step (create myId myAddress config) es n)
    (he : n.list.members.lookup id = some e) (hst : e.state = .suspect) :
    e.suspectTime ≤ n.clock := by
  obtain ⟨pre, fs, s, rfl, hpre, hclock, -⟩ := heldSince_suspectTime hrun he hst
  obtain ⟨s', hpre', hfs⟩ := hrun.split
  obtain rfl := hpre'.deterministic hpre
  exact hclock ▸ clock_mono hfs

theorem suspectTime_const {k : ℕ} (hrun : Run step n fs n')
    (halways : Always step n fs fun _ m => SuspectAt id k m)
    (he : n.list.members.lookup id = some e) (he' : n'.list.members.lookup id = some e') :
    e'.suspectTime = e.suspectTime := by
  induction hrun generalizing e' with
  | nil =>
    rw [he] at he'
    cases he'
    rfl
  | @snoc fs a s t hrun hs ih =>
    obtain ⟨hpre, e₂, he₂, hst₂, hinc₂⟩ := (always_snoc (hrun.snoc hs)).mp halways
    obtain ⟨e₁, he₁, hst₁, hinc₁⟩ := hpre.last hrun
    obtain rfl := Option.some.inj (he₂.symm.trans he')
    have hr : e₁.rank = e₂.rank := by
      unfold MemberInfo.rank
      rw [hst₁, hst₂, hinc₁, hinc₂]
    rcases suspect_step hs he₂ hst₂ with ⟨e₀, he₀, -, ht⟩ | ⟨-, hne⟩
    · obtain rfl := Option.some.inj (he₁.symm.trans he₀)
      exact ht.trans (ih hpre he₁)
    · exact absurd hr (hne e₁ he₁)

/-! ## `MarkDead` -/

/-- The step `a` of the sender thread is a `MarkDead` call that turns the member `id` `DEAD`. -/
structure TurnsDead (n : Node) (a : Act) (id : String) : Prop where
  call : ∃ c now info rest, a = .sender c ∧ n.sender = .expire now ((id, info) :: rest)
  before : (n.list.getMember id).map MemberInfo.state ≠ some .dead
  after : ∃ n', n.step a = some n' ∧ (n'.list.getMember id).map MemberInfo.state = some .dead

/-- The member is `SUSPECT`, and has been so at its present incarnation for `ms` milliseconds. -/
def SuspectedFor (start : Node) (es : List Act) (n : Node) (id : String) (ms : ℤ) : Prop :=
  ∃ k, SuspectAt id k n ∧
    HeldSince step start es (fun m : Node => (m.clock : ℤ) + ms * 1000000 ≤ n.clock) (SuspectAt id k)

/-- The test of `CheckSuspectTimeouts`, made on the entry the member has now and with the clock as
it is now, instead of the snapshot. -/
def TimedOut (n : Node) (id : String) : Prop :=
  ∃ e, n.list.members.lookup id = some e ∧ e.state = .suspect ∧ n.expired n.clock e

theorem suspectedFor_iff (hrun : Run step (create myId myAddress config) es n) :
    SuspectedFor (create myId myAddress config) es n id config.suspectTimeoutMs ↔
      TimedOut n id := by
  have hconfig : n.config = config := config_eq hrun
  constructor
  · rintro ⟨k, ⟨e, he, hst, rfl⟩, pre, fs, s, rfl, hpre, hclock, halways⟩
    obtain ⟨s', hpre', hfs⟩ := hrun.split
    obtain rfl := hpre'.deterministic hpre
    obtain ⟨e₀, he₀, hst₀, -⟩ := halways [] s' List.nil_prefix .nil
    have htime := suspectTime_const hfs halways he₀ he
    have hle := suspectTime_le_clock hpre he₀ hst₀
    refine ⟨e, he, hst, ?_⟩
    unfold Node.expired
    rw [decide_eq_true_iff, le_elapsedMs_iff _ (suspectTime_le_clock hrun he hst), hconfig]
    omega
  · rintro ⟨e, he, hst, hexp⟩
    have hle := suspectTime_le_clock hrun he hst
    unfold Node.expired at hexp
    rw [decide_eq_true_iff, le_elapsedMs_iff _ hle, hconfig] at hexp
    refine ⟨e.incarnation, ⟨e, he, hst, rfl⟩, (heldSince_suspectTime hrun he hst).mono ?_ ?_⟩
    · intro m hm
      rw [hm]
      exact hexp
    · intro m hm
      exact hm

/-- **The suspicion timer.** At every `MarkDead` call of every run that turns a member `DEAD`: the
member has been `SUSPECT` at its present incarnation for the timeout exactly when the test of
`CheckSuspectTimeouts` holds of its present entry. So the timer is right throughout a run exactly
when all these calls meet that test. -/
theorem markDead_suspectedFor_iff (myId myAddress : String) (config : SwimConfig)
    (es : List Act) :
    (EveryStep step (create myId myAddress config) es fun pre n a => ∀ id, TurnsDead n a id →
      (SuspectedFor (create myId myAddress config) pre n id config.suspectTimeoutMs ↔
        TimedOut n id)) ∧
    ((EveryStep step (create myId myAddress config) es fun pre n a => ∀ id, TurnsDead n a id →
        SuspectedFor (create myId myAddress config) pre n id config.suspectTimeoutMs) ↔
      EveryStep step (create myId myAddress config) es fun _ n a => ∀ id, TurnsDead n a id →
        TimedOut n id) := by
  refine ⟨fun pre a s _ hpre id _ => suspectedFor_iff hpre, ?_, ?_⟩
  · intro h pre a s hes hpre id hid
    exact (suspectedFor_iff hpre).mp (h pre a s hes hpre id hid)
  · intro h pre a s hes hpre id hid
    exact (suspectedFor_iff hpre).mpr (h pre a s hes hpre id hid)

/-- A replica announces itself to `gateway-1`, which misses its ACK and suspects it; the timeout
passes, and the sender thread takes its snapshot and reads the clock. -/
def suspectRun : List Act :=
  [.arrive ⟨.ping, "replica-1", "", 1, [⟨"replica-1", "10.0.0.1:17001", .alive, 0, "", 0, 0⟩]⟩
    ⟨"10.0.0.1", 17001⟩] ++ List.replicate 7 .receiver ++ [.sender (.peer "replica-1")] ++
  List.replicate 4 (.sender .none) ++ [.tick 200000000] ++ List.replicate 4 (.sender .none) ++
  [.tick 2000000000, .sender (.order
    [("replica-1", ⟨"10.0.0.1:17001", .suspect, 0, "", 0, 0, 200000000⟩)]), .sender .none]

/-- Its refutation arrives and is applied. -/
def refutationRun : List Act :=
  [.arrive ⟨.ping, "replica-1", "", 2, [⟨"replica-1", "10.0.0.1:17001", .alive, 1, "", 0, 0⟩]⟩
    ⟨"10.0.0.1", 17001⟩] ++ List.replicate 3 .receiver

theorem TurnsDead.of_exec {c : Choice} {now : ℕ} {info : MemberInfo} {rest : List Peer}
    (hpc : n.sender = .expire now ((id, info) :: rest))
    (hbefore : (n.list.getMember id).map MemberInfo.state ≠ some .dead)
    (hsome : (n.step (.sender c)).isSome)
    (hafter : (((n.step (.sender c)).get hsome).list.getMember id).map MemberInfo.state =
      some .dead) : TurnsDead n (.sender c) id :=
  ⟨⟨c, now, info, rest, rfl, hpc⟩, hbefore, _, (Option.some_get hsome).symm, hafter⟩

/-- Without the refutation the timer is right. -/
theorem markDead_suspectedFor_iff_expired :
    ∃ n, Run step (create "gateway-1" "10.0.0.9:17000" { indirectPingCount := 0 }) suspectRun n ∧
      TurnsDead n (.sender .none) "replica-1" ∧
      SuspectedFor (create "gateway-1" "10.0.0.9:17000" { indirectPingCount := 0 }) suspectRun n
        "replica-1" 2000 := by
  have hrun : Run step (create "gateway-1" "10.0.0.9:17000" { indirectPingCount := 0 })
    suspectRun _ := run_get (by decide)
  have hdead : TurnsDead ((exec step (create "gateway-1" "10.0.0.9:17000"
      { indirectPingCount := 0 }) suspectRun).get (by decide)) (.sender .none) "replica-1" :=
    .of_exec rfl (by decide) (by decide) (by decide)
  refine ⟨_, hrun, hdead, ?_⟩
  exact ((markDead_suspectedFor_iff _ _ _ (suspectRun ++ [.sender .none])).1 _ _ _
    (List.prefix_refl _) hrun _ hdead).mpr ⟨_, rfl, rfl, by decide⟩

/-- The refutation is applied between the snapshot and the `MarkDead` call, which makes the
refuted member `DEAD` all the same. -/
theorem not_suspectedFor_refuted :
    ∃ n, Run step (create "gateway-1" "10.0.0.9:17000" { indirectPingCount := 0 })
        (suspectRun ++ refutationRun) n ∧
      (n.list.getMember "replica-1").map MemberInfo.rank = some (toLex (1, .alive)) ∧
      TurnsDead n (.sender .none) "replica-1" ∧
      ¬ SuspectedFor (create "gateway-1" "10.0.0.9:17000" { indirectPingCount := 0 })
        (suspectRun ++ refutationRun) n "replica-1" 2000 := by
  have hrun : Run step (create "gateway-1" "10.0.0.9:17000" { indirectPingCount := 0 })
    (suspectRun ++ refutationRun) _ := run_get (by decide)
  refine ⟨_, hrun, by decide, .of_exec rfl (by decide) (by decide) (by decide), ?_⟩
  rintro ⟨k, ⟨e, he, hst, -⟩, -⟩
  have halive := congrArg (Option.map MemberInfo.state) he
  rw [Option.map_some, hst] at halive
  exact absurd halive (by decide)

end Node

end LlmGateway.Gossip
