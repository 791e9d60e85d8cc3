import LlmGateway.Gossip.Departure

/-!
# How often a member comes back

A peer's view of a member flaps: the member is suspected, maybe declared dead, and is `ALIVE` again.
The way down is the peers' (`MarkSuspect`, `MarkDead`, gossip), the way back is the member's alone:
an entry is taken to a weaker state by an update with a higher incarnation only, and no report of
life is above the incarnation of the member itself, which counts its refutations. So a peer sees a
member recover no more often than the member has refuted, in any run, whoever leaves and whatever
the network does; and a member that refutes no more (it has crashed, or nothing reaches it) stays
`DEAD` at every peer that has declared it dead at its last incarnation.

1. `incarnation_recovers`: the incarnation of an entry counts the recoveries.
2. `Settled.step`: a recovered entry is not ahead of the member.
3. `recoveries_bounded`: both over whole runs.
-/

namespace LlmGateway.Gossip

open Transition MembershipList

namespace Cluster

variable {ι : Type} [DecidableEq ι] {ids addresses : ι → String} {configs : ι → SwimConfig}
  {s c c' : Cluster ι} {e : Label ι} {es fs : List (Label ι)} {x j : ι}

/-- What `j` holds about `x`. -/
def view (ids : ι → String) (j x : ι) (c : Cluster ι) : Option MemberInfo :=
  (c j).list.getMember (ids x)

/-- The incarnation `j` knows of `x`, 0 as long as it knows none. -/
def seenIncarnation (ids : ι → String) (j x : ι) (c : Cluster ι) : ℕ :=
  (view ids j x c).elim 0 MemberInfo.incarnation

/-- The step takes what `j` holds about `x` to a weaker state: from `DEAD` or from `SUSPECT`. -/
def recovers (ids : ι → String) (j x : ι) (c : Cluster ι) (e : Label ι) : Bool :=
  match view ids j x c, (step c e).bind (view ids j x) with
  | some info, some info' => info'.state < info.state
  | _, _ => false

theorem recovers_iff (hs : step c e = some c') : recovers ids j x c e ↔
    ∃ info info', view ids j x c = some info ∧ view ids j x c' = some info' ∧
      info'.state < info.state := by
  unfold recovers
  rw [hs, Option.bind_some]
  cases view ids j x c <;> cases view ids j x c' <;> simp

/-- Every node is in its own list, under its own id. -/
def Rooted (ids : ι → String) (c : Cluster ι) : Prop :=
  ∀ j, (c j).OwnKnown ∧ (c j).list.myId = ids j

omit [DecidableEq ι] in
theorem rooted_start (ids addresses : ι → String) (configs : ι → SwimConfig) :
    Rooted ids (start ids addresses configs) :=
  fun _ => ⟨Node.create_ownKnown .., addMember_own.2⟩

theorem Rooted.step (h : Rooted ids c) (hs : step c e = some c') : Rooted ids c' := by
  intro j
  rcases step_node hs j with hsame | ⟨a, hn⟩
  · rw [hsame]
    exact h j
  · obtain ⟨hknown, hid⟩ := (h j).1.step hn
    exact ⟨hknown, hid.trans (h j).2⟩

theorem view_step (hids : Function.Injective ids) (h : Rooted ids c) (hj : j ≠ x)
    (hs : step c e = some c') {info : MemberInfo} (hinfo : view ids j x c = some info) :
    ∃ info', view ids j x c' = some info' ∧ info.rank ≤ info'.rank := by
  have hle := rankOf_le_step (x := x) hs (j := j) (by
    rw [(h j).2]
    exact fun heq => hj (hids heq).symm)
  rw [rankOf_of_lookup hinfo] at hle
  cases hl : (c' j).list.members.lookup (ids x) with
  | none =>
    rw [rankOf_of_none hl] at hle
    exact absurd hle (WithBot.not_coe_le_bot _)
  | some info' =>
    rw [rankOf_of_lookup hl] at hle
    exact ⟨info', hl, WithBot.coe_le_coe.mp hle⟩

/-- **The incarnation of an entry counts the recoveries.** -/
theorem incarnation_recovers (hids : Function.Injective ids) (h : Rooted ids c) (hj : j ≠ x)
    (hs : step c e = some c') :
    seenIncarnation ids j x c + (if recovers ids j x c e then 1 else 0) ≤
      seenIncarnation ids j x c' := by
  unfold seenIncarnation
  cases hview : view ids j x c with
  | none =>
    have hno : ¬ recovers ids j x c e := by
      rw [recovers_iff hs, hview]
      rintro ⟨_, _, h, -⟩
      cases h
    rw [if_neg hno]
    exact Nat.zero_le _
  | some info =>
    obtain ⟨info', hview', hle⟩ := view_step hids h hj hs hview
    rw [hview']
    show info.incarnation + _ ≤ info'.incarnation
    split_ifs with hr
    · -- the state is weaker, so the incarnation is higher
      obtain ⟨i, i', hi, hi', hlt⟩ := (recovers_iff hs).mp hr
      obtain rfl : info = i := Option.some.inj (hview.symm.trans hi)
      obtain rfl : info' = i' := Option.some.inj (hview'.symm.trans hi')
      rcases Prod.Lex.toLex_le_toLex.mp hle with hinc | ⟨-, hst⟩
      · exact hinc
      · exact absurd hst (not_le_of_gt hlt)
    · rcases Prod.Lex.toLex_le_toLex.mp hle with hinc | ⟨hinc, -⟩
      · exact Nat.le_of_lt hinc
      · exact Nat.le_of_eq hinc

/-! ## The member's own counter -/

/-- While the counter of `x` has not wrapped, its incarnation counts its refutations. -/
theorem incarnation_of_run (hrun : Run step (start ids addresses configs) es c)
    (hcount : stepCount step (increments x) (start ids addresses configs) es < 2 ^ 64) :
    (c x).list.myIncarnation =
      stepCount step (increments x) (start ids addresses configs) es ∧
    EveryStep step (start ids addresses configs) es fun _ t e =>
      increments x t e → (t x).list.myIncarnation + 1 < 2 ^ 64 := by
  induction hrun with
  | nil => exact ⟨addMember_own.1, everyStep_nil⟩
  | @snoc es e s t hrun hs ih =>
    rw [stepCount_snoc hrun] at hcount
    obtain ⟨hinc, hwide⟩ := ih ((Nat.le_add_right _ _).trans_lt hcount)
    have hlast : increments x s e → (s x).list.myIncarnation + 1 < 2 ^ 64 := by
      intro hx
      rw [if_pos hx, ← hinc] at hcount
      exact hcount
    refine ⟨?_, (everyStep_snoc hrun).mpr ⟨hwide, hlast⟩⟩
    rw [myIncarnation_step hs x hlast, stepCount_snoc hrun, hinc]

/-- The recoveries so far, counted from the incarnation `k` that `j` knew, are within the
incarnation of `x`. -/
def Settled (x : ι) (k recoveries : ℕ) (c : Cluster ι) : Prop :=
  recoveries = 0 ∨ recoveries + k ≤ (c x).list.myIncarnation

/-- A recovered entry reports life, so it is not ahead of the member. -/
theorem Settled.step {k n : ℕ} (h : Settled x k n c) (hs : step c e = some c')
    (hlife : LifeUpTo ids x (c' x).list.myIncarnation c')
    (hwide : increments x c e → (c x).list.myIncarnation + 1 < 2 ^ 64)
    (hseen : n + (if recovers ids j x c e then 1 else 0) + k ≤ seenIncarnation ids j x c') :
    Settled x k (n + if recovers ids j x c e then 1 else 0) c' := by
  have hown := myIncarnation_step hs x hwide
  by_cases hr : recovers ids j x c e
  · refine Or.inr (hseen.trans ?_)
    obtain ⟨i, i', -, hi', hlt⟩ := (recovers_iff hs).mp hr
    have hlive : i'.state ≠ .dead := fun hdead =>
      absurd (MemberState.le_dead i.state) (not_le_of_gt (hdead ▸ hlt))
    unfold seenIncarnation
    rw [hi']
    exact (hlife.nodes j).reports.members _ _ hi' rfl hlive
  · rw [if_neg hr, Nat.add_zero]
    rcases h with h | h
    · exact Or.inl h
    · exact Or.inr (by omega)

/-- **A member recovers no more often than it refutes.** In every run in which the counter of `x`
does not wrap, a peer that knew `x` at some incarnation sees it come back from `SUSPECT` or `DEAD`
at most as often as the refutations of `x` are ahead of it. And where `x` was held `DEAD` at its
own incarnation or above and refutes no more, it stays `DEAD`. -/
theorem recoveries_bounded (hids : Function.Injective ids)
    (hrun : Run step (start ids addresses configs) es s) (hrun' : Run step s fs c)
    (hcount : stepCount step (increments x) (start ids addresses configs) (es ++ fs) < 2 ^ 64)
    (hj : j ≠ x) :
    stepCount step (recovers ids j x) s fs ≤
      stepCount step (increments x) (start ids addresses configs) (es ++ fs) -
        seenIncarnation ids j x s ∧
    ∀ info, view ids j x s = some info → info.state = .dead →
      stepCount step (increments x) (start ids addresses configs) (es ++ fs) ≤ info.incarnation →
      ∃ info', view ids j x c = some info' ∧ info'.state = .dead := by
  have hroot : Rooted ids s :=
    hrun.invariant (rooted_start ids addresses configs) fun _ _ _ h hs => h.step hs
  have hmono : ∀ {gs : List (Label ι)} {t : Cluster ι}, Run step s gs t → Rooted ids t ∧
      stepCount step (recovers ids j x) s gs + seenIncarnation ids j x s ≤
        seenIncarnation ids j x t := fun h =>
    h.stepCount_add_le hroot fun _ _ _ hI hs => ⟨hI.step hs, incarnation_recovers hids hI hj hs⟩
  have hsettled : Settled x (seenIncarnation ids j x s)
      (stepCount step (recovers ids j x) s fs) c := by
    induction hrun' with
    | nil => exact Or.inl rfl
    | @snoc gs e t u hgs hs ih =>
      rw [← List.append_assoc, stepCount_snoc (hrun.append hgs)] at hcount
      have hall := incarnation_of_run ((hrun.append hgs).snoc hs) (x := x)
        (by rwa [stepCount_snoc (hrun.append hgs)])
      have hnext := (hmono (hgs.snoc hs)).2
      rw [stepCount_snoc hgs] at hnext ⊢
      exact (ih ((Nat.le_add_right _ _).trans_lt hcount)).step hs
        (lifeUpTo_of_run hids ((hrun.append hgs).snoc hs) hall.2)
        ((everyStep_snoc (hrun.append hgs)).mp hall.2).2 hnext
  obtain ⟨hinc, hwide⟩ := incarnation_of_run (hrun.append hrun') hcount
  have hbound : stepCount step (recovers ids j x) s fs ≤
      (c x).list.myIncarnation - seenIncarnation ids j x s := by
    rcases hsettled with h | h <;> omega
  rw [hinc] at hbound
  refine ⟨hbound, fun info hinfo hdead hle => ?_⟩
  -- what is known of `x` has not become less, and a report of life would be above it
  have hlife := lifeUpTo_of_run hids (hrun.append hrun') hwide
  have hrank : ∃ info', view ids j x c = some info' ∧ info.rank ≤ info'.rank := by
    clear hcount hsettled hbound hinc hwide hlife hle
    induction hrun' with
    | nil => exact ⟨info, hinfo, le_refl _⟩
    | snoc hgs hs ih =>
      obtain ⟨mid, hmid, hle⟩ := ih
      obtain ⟨last, hlast, hle'⟩ := view_step hids (hmono hgs).1 hj hs hmid
      exact ⟨last, hlast, hle.trans hle'⟩
  obtain ⟨info', hinfo', hrank⟩ := hrank
  refine ⟨info', hinfo', ?_⟩
  by_contra hst
  have hlive : info'.incarnation ≤ (c x).list.myIncarnation :=
    (hlife.nodes j).reports.members _ _ hinfo' rfl hst
  rcases Prod.Lex.toLex_le_toLex.mp hrank with hlt | ⟨-, hge⟩
  · exact absurd (hinc ▸ hlive) (not_le_of_gt (hle.trans_lt hlt))
  · rw [hdead] at hge
    exact hst (le_antisymm (MemberState.le_dead _) hge)

/-- The gateway holds the replica that has left as `DEAD`, and sees it come back once. -/
theorem recoveries_bounded_echoed :
    ∃ c, Run step joined echoedTwiceRun c ∧
      stepCount step (recovers pairIds false true) joined echoedTwiceRun = 1 ∧
      stepCount step (recovers pairIds false true) joined echoedTwiceRun ≤
        stepCount step (increments true) (start pairIds pairAddresses fun _ => {})
          (joinedRun ++ echoedTwiceRun) - seenIncarnation pairIds false true joined := by
  have hrun : Run step joined echoedTwiceRun _ := run_get (by decide +kernel)
  have h := recoveries_bounded (x := true) (j := false) pairIds_injective run_joined hrun
    (by decide +kernel) (by decide)
  exact ⟨_, hrun, by decide +kernel, h.1⟩

end Cluster

end LlmGateway.Gossip
