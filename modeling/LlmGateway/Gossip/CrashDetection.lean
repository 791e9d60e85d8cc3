import LlmGateway.Gossip.Flapping
import LlmGateway.Gossip.MemberOrder
import LlmGateway.Gossip.RoundAnswers
import LlmGateway.Gossip.SuspectTimer

/-!
# Crash detection

A process that has stopped is declared dead by every peer that knows its last incarnation: after one
ping round about it, and one pass of `CheckSuspectTimeouts` begun `suspect_timeout_ms` later. What the
process has said before it stopped may still be in flight, and the other nodes may say of it what
they know; none of it brings the member back, for nobody says that it lives above its last
incarnation.

1. `Holds.step`: what is known of a member stays known.
2. `Suspected.step`: a suspicion at the last incarnation stands, and so does its timer.
3. `Pass.step`: a pass over the suspects reaches the member.
4. `crash_detected`: from the round to the end of the pass, and ever after.
-/

namespace LlmGateway.Gossip

open Transition MembershipList

namespace Node

variable {n n' : Node} {a : Act} {id : String} {k since : ℕ} {r : Rank} {e : MemberInfo}

/-- The node knows of the member at least what the rank says. -/
def Holds (id : String) (r : Rank) (n : Node) : Prop :=
  ∃ e, n.list.members.lookup id = some e ∧ r ≤ e.rank

/-- The node does not say that the member lives above the incarnation `k`. -/
def Outlived (id : String) (k : ℕ) (n : Node) : Prop :=
  ∀ e, n.list.members.lookup id = some e → e.state ≠ .dead → e.incarnation ≤ k

theorem LifeUpTo.outlived (h : n.LifeUpTo id k) : n.Outlived id k :=
  fun e he hst => h.reports.members id e he rfl hst

theorem lookup_step (hid : id ≠ n.list.myId) (hs : n.step a = some n')
    (he : n.list.members.lookup id = some e) :
    ∃ e', n'.list.members.lookup id = some e' ∧ e.rank ≤ e'.rank := by
  have hle := (step_spec hs).list.rankOf_le hid
  rw [rankOf_of_lookup he] at hle
  exact lookup_of_le_rankOf hle

theorem Holds.step (h : n.Holds id r) (hid : id ≠ n.list.myId) (hs : n.step a = some n') :
    n'.Holds id r := by
  obtain ⟨e, he, hr⟩ := h
  obtain ⟨e', he', hle⟩ := lookup_step hid hs he
  exact ⟨e', he', hr.trans hle⟩

theorem Holds.dead (h : n.Holds id (toLex (k, .dead))) (hlife : n.Outlived id k) :
    ∃ e, n.list.members.lookup id = some e ∧ e.state = .dead := by
  obtain ⟨e, he, hr⟩ := h
  refine ⟨e, he, ?_⟩
  by_contra hst
  rcases Prod.Lex.toLex_le_toLex.mp hr with hlt | ⟨-, hdead⟩
  · exact absurd (hlife e he hst) (not_le_of_gt hlt)
  · exact hst (le_antisymm (MemberState.le_dead _) hdead)

/-! ## The suspicion stands -/

/-- The member is at least `SUSPECT` at the incarnation `k`, and a suspicion is not younger than
`since`. -/
def Suspected (id : String) (k since : ℕ) (n : Node) : Prop :=
  ∃ e, n.list.members.lookup id = some e ∧ toLex (k, .suspect) ≤ e.rank ∧
    (e.state = .suspect → e.suspectTime ≤ since)

theorem Suspected.mono {later : ℕ} (h : n.Suspected id k since) (hle : since ≤ later) :
    n.Suspected id k later := by
  obtain ⟨e, he, hr, ht⟩ := h
  exact ⟨e, he, hr, fun hst => (ht hst).trans hle⟩

/-- At the last incarnation of the member a suspicion is just that. -/
theorem rank_of_suspect (hr : toLex (k, .suspect) ≤ e.rank) (hle : e.incarnation ≤ k)
    (hst : e.state = .suspect) : e.rank = toLex (k, .suspect) := by
  refine le_antisymm (Prod.Lex.toLex_le_toLex.mpr ?_) hr
  rcases Nat.lt_or_eq_of_le hle with hlt | heq
  · exact Or.inl hlt
  · exact Or.inr ⟨heq, le_of_eq hst⟩

theorem Suspected.step (h : n.Suspected id k since) (hid : id ≠ n.list.myId)
    (hs : n.step a = some n') (hlife : n'.Outlived id k) : n'.Suspected id k since := by
  obtain ⟨e, he, hr, ht⟩ := h
  obtain ⟨e', he', hle⟩ := lookup_step hid hs he
  refine ⟨e', he', hr.trans hle, fun hst => ?_⟩
  have hrank' : e'.rank = toLex (k, .suspect) :=
    rank_of_suspect (hr.trans hle) (hlife e' he' (by rw [hst]; decide)) hst
  have hrank : e.rank = toLex (k, .suspect) := le_antisymm (hle.trans_eq hrank') hr
  rcases suspect_step hs he' hst with ⟨e₀, he₀, -, htime⟩ | ⟨-, hne⟩
  · obtain rfl : e = e₀ := Option.some.inj (he.symm.trans he₀)
    rw [htime]
    exact ht (Prod.mk.inj (toLex_inj.mp hrank)).2
  · exact absurd (hrank.trans hrank'.symm) (hne e he)

theorem Holds.suspect (h : n.Holds id (toLex (k, .alive)))
    (htime : ∀ e, n.list.members.lookup id = some e → e.state = .suspect → e.suspectTime ≤ n.clock)
    {pc : SenderPc} :
    { n with list := (n.list.markSuspect n.clock id).list, sender := pc }.Suspected id k
      n.clock := by
  obtain ⟨e, he, hr⟩ := h
  have hk : k ≤ e.incarnation := by
    rcases Prod.Lex.toLex_le_toLex.mp hr with hlt | ⟨heq, -⟩
    · exact Nat.le_of_lt hlt
    · exact Nat.le_of_eq heq
  have hraised : ∀ e' : MemberInfo, e'.incarnation = e.incarnation → .suspect ≤ e'.state →
      toLex (k, MemberState.suspect) ≤ e'.rank := by
    intro e' hinc hst
    rcases Nat.lt_or_eq_of_le hk with hlt | heq
    · exact Prod.Lex.toLex_le_toLex.mpr (Or.inl (hlt.trans_eq hinc.symm))
    · exact Prod.Lex.toLex_le_toLex.mpr (Or.inr ⟨heq.trans hinc.symm, hst⟩)
  unfold Suspected MembershipList.markSuspect
  rw [he]
  dsimp only
  split_ifs with hst
  · refine ⟨e, he, hraised e rfl ?_, htime e he⟩
    cases hstate : e.state with
    | alive => exact absurd hstate hst
    | suspect => exact le_refl _
    | dead => exact MemberState.le_dead _
  · exact ⟨_, AList.lookup_insert _, hraised _ rfl (le_refl _), fun _ => le_refl _⟩

/-! ## The pass over the suspects -/

/-- The pass of `CheckSuspectTimeouts` has still to come to the member: its timer, not younger than
`since`, has run out at the clock reading of the pass. -/
def Due (id : String) (since : ℕ) (n : Node) : Prop :=
  match n.sender with
  | .timeouts => True
  | .readClock suspects => ∃ info, (id, info) ∈ suspects ∧ info.suspectTime ≤ since
  | .expire now suspects => (∃ info, (id, info) ∈ suspects ∧ info.suspectTime ≤ since) ∧
      since ≤ now ∧ since + n.config.suspectTimeoutMs * 1000000 ≤ now
  | _ => False

/-- The suspicion has timed out. -/
structure Overdue (id : String) (k since : ℕ) (n : Node) : Prop where
  suspected : n.Suspected id k since
  since_le : since ≤ n.clock
  timeout : since + n.config.suspectTimeoutMs * 1000000 ≤ n.clock
  due : n.Due id since

/-- During the pass: the member is `DEAD`, or its turn comes. -/
def Pass (id : String) (k since : ℕ) (n : Node) : Prop :=
  n.Holds id (toLex (k, .dead)) ∨ n.Overdue id k since

theorem holds_of_not_suspect (h : n.Suspected id k since) (hlife : n.Outlived id k)
    (hst : ∀ e, n.list.members.lookup id = some e → e.state ≠ .suspect) :
    n.Holds id (toLex (k, .dead)) := by
  obtain ⟨e, he, hr, -⟩ := h
  refine ⟨e, he, ?_⟩
  by_cases hdead : e.state = .dead
  · rcases Prod.Lex.toLex_le_toLex.mp hr with hlt | ⟨heq, -⟩
    · exact Prod.Lex.toLex_le_toLex.mpr (Or.inl hlt)
    · exact Prod.Lex.toLex_le_toLex.mpr (Or.inr ⟨heq, le_of_eq hdead.symm⟩)
  · -- alive above its last incarnation it cannot be
    rcases Prod.Lex.toLex_le_toLex.mp hr with hlt | ⟨-, hle⟩
    · exact absurd (hlife e he hdead) (not_le_of_gt hlt)
    · cases hstate : e.state with
      | alive =>
        have hle : MemberState.suspect ≤ e.state := hle
        rw [hstate] at hle
        exact absurd hle (by decide)
      | suspect => exact absurd hstate (hst e he)
      | dead => exact absurd hstate hdead

theorem Suspected.markDead (h : n.Suspected id k since) {pc : SenderPc} :
    { n with list := (n.list.markDead id).list, sender := pc }.Holds id (toLex (k, .dead)) := by
  obtain ⟨e, he, hr, -⟩ := h
  have hraised : ∀ e' : MemberInfo, e'.incarnation = e.incarnation → e'.state = .dead →
      toLex (k, MemberState.dead) ≤ e'.rank := by
    intro e' hinc hdead
    rcases Prod.Lex.toLex_le_toLex.mp hr with hlt | ⟨heq, -⟩
    · exact Prod.Lex.toLex_le_toLex.mpr (Or.inl (hlt.trans_eq hinc.symm))
    · exact Prod.Lex.toLex_le_toLex.mpr (Or.inr ⟨heq.trans hinc.symm, le_of_eq hdead.symm⟩)
  unfold Holds MembershipList.markDead
  rw [he]
  dsimp only
  split_ifs with hst
  · exact ⟨e, he, hraised e rfl hst⟩
  · exact ⟨_, AList.lookup_insert _, hraised _ rfl rfl⟩

theorem expired_of_le {now : ℕ} {info : MemberInfo} (htime : info.suspectTime ≤ since)
    (hle : since ≤ now) (htimeout : since + n.config.suspectTimeoutMs * 1000000 ≤ now) :
    n.expired now info := by
  unfold expired
  rw [decide_eq_true_iff, le_elapsedMs_iff _ (htime.trans hle)]
  omega

/-- **A step of the sender thread in the pass.** -/
theorem Overdue.senderStep {c : Choice} (h : n.Overdue id k since) (hid : id ≠ n.list.myId)
    (hcrash : n.crashed = false) (hs : n.senderStep c = some n') (hlife : n.Outlived id k)
    (hlife' : n'.Outlived id k) : n'.Pass id k since := by
  have hstep : n.step (.sender c) = some n' := by
    unfold step
    rw [hcrash]
    exact hs
  obtain ⟨hsus, hsince, htimeout, hdue⟩ := h
  have hsuspected := hsus.step hid hstep hlife'
  have hnext : n'.config = n.config → n'.clock = n.clock → n'.Due id since →
      n'.Pass id k since := by
    intro hconfig hclock hdue
    exact Or.inr ⟨hsuspected, by rwa [hclock], by rwa [hconfig, hclock], hdue⟩
  unfold Node.senderStep at hs
  unfold Due at hdue
  cases hpc : n.sender <;> rw [hpc] at hs hdue <;> dsimp only [Node.suspectTimeoutsStep] at hs hdue
  case timeouts =>
    cases c with
    | order suspects =>
      dsimp only at hs
      split_ifs at hs with hperm
      cases hs
      by_cases hst : ∀ e, n.list.members.lookup id = some e → e.state ≠ .suspect
      · exact Or.inl (holds_of_not_suspect hsus hlife hst)
      · push Not at hst
        obtain ⟨e, he, hstate⟩ := hst
        refine hnext rfl rfl ⟨e, hperm.symm.subset ?_, ?_⟩
        · refine List.mem_filter.mpr ⟨List.mem_map.mpr ⟨⟨id, e⟩, ?_, rfl⟩, ?_⟩
          · exact AList.mem_lookup_iff.mp he
          · exact decide_eq_true ⟨hid, hstate⟩
        · obtain ⟨e₀, he₀, -, ht⟩ := hsus
          obtain rfl : e = e₀ := Option.some.inj (he.symm.trans he₀)
          exact ht hstate
    | _ => cases hs
  case readClock suspects =>
    cases hs
    exact hnext rfl rfl ⟨hdue, hsince, htimeout⟩
  case expire now suspects =>
    obtain ⟨⟨info, hmem, htime⟩, hle, hout⟩ := hdue
    cases suspects with
    | nil => cases hmem
    | cons p rest =>
      obtain ⟨id₀, info₀⟩ := p
      dsimp only at hs
      rcases List.mem_cons.mp hmem with heq | hmem
      · obtain ⟨rfl, rfl⟩ := Prod.mk.inj heq
        rw [if_pos (expired_of_le htime hle hout)] at hs
        cases hs
        exact Or.inl hsus.markDead
      · split_ifs at hs <;> cases hs <;>
          exact hnext rfl rfl ⟨⟨info, hmem, htime⟩, hle, hout⟩

/-- **A step during the pass.** -/
theorem Pass.step (h : n.Pass id k since) (hid : id ≠ n.list.myId) (hs : n.step a = some n')
    (hlife : n.Outlived id k) (hlife' : n'.Outlived id k) : n'.Pass id k since := by
  rcases h with h | h
  · exact Or.inl (h.step hid hs)
  · have hspec := step_spec hs
    by_cases ha : ∃ c, a = .sender c
    · obtain ⟨c, rfl⟩ := ha
      cases step_move hs with
      | sender hc hs => exact h.senderStep hid hc hs hlife hlife'
    · have hsender : n'.sender = n.sender := hspec.sender fun c hc => ha ⟨c, hc⟩
      refine Or.inr ⟨h.suspected.step hid hs hlife', h.since_le.trans hspec.clock, ?_, ?_⟩
      · have hclock := hspec.clock
        have htimeout := h.timeout
        rw [hspec.config]
        omega
      · have hdue := h.due
        unfold Due at hdue ⊢
        rwa [hsender, hspec.config]

end Node

namespace Cluster

variable {ι : Type} [DecidableEq ι] {net : Network ι} {ids addresses : ι → String}
  {configs : ι → SwimConfig} {s t u v w c : Cluster ι} {es fs gs ps ks : List (Label ι)} {i x : ι}
  {k : ℕ} {info : MemberInfo}

/-- A run over the network is a run of the cluster. -/
theorem run_of_stepOver (hrun : Run (stepOver net) s fs c) : Run step s fs c := by
  induction hrun with
  | nil => exact .nil
  | snoc _ hstep ih => exact ih.snoc (stepOver_inv hstep).1

/-- The node that takes the step; an arrival is the network's doing. -/
def Label.actor : Label ι → Option ι
  | .act i _ => some i
  | .deliver _ _ _ _ => none

/-- The process `x` takes no step. -/
def Silent (x : ι) (fs : List (Label ι)) : Prop := ∀ a, .act x a ∉ fs

omit [DecidableEq ι] in
theorem silent_of_actor (h : ∀ e ∈ fs, e.actor ≠ some x) : Silent x fs :=
  fun _ ha => h _ ha rfl

omit [DecidableEq ι] in
theorem Silent.left (h : Silent x (fs ++ gs)) : Silent x fs :=
  fun a ha => h a (List.mem_append_left _ ha)

omit [DecidableEq ι] in
theorem Silent.right (h : Silent x (fs ++ gs)) : Silent x gs :=
  fun a ha => h a (List.mem_append_right _ ha)

/-- While `x` is silent nobody comes to say that it lives above `k`, and what each step of a node
keeps holds of the node throughout. -/
theorem LifeUpTo.silent (hids : Function.Injective ids) (h : LifeUpTo ids x k s)
    (hrun : Run (stepOver net) s fs c) (hsilent : Silent x fs) {P : Node → Prop} (h₀ : P (s i))
    (hP : ∀ n a n', P n → n.list.myId = ids i → n.step a = some n' → n.Outlived (ids x) k →
      n'.Outlived (ids x) k → P n') :
    LifeUpTo ids x k c ∧ P (c i) := by
  induction hrun with
  | nil => exact ⟨h, h₀⟩
  | @snoc fs e t c _ hstep ih =>
    obtain ⟨hlife, hp⟩ := ih hsilent.left
    have hstep := (stepOver_inv hstep).1
    have hlife' : LifeUpTo ids x k c := by
      refine hlife.step hids hstep fun hincr => ?_
      unfold increments at hincr
      rw [decide_eq_true_iff] at hincr
      exact absurd (by simp [hincr.1]) (hsilent .receiver)
    refine ⟨hlife', ?_⟩
    have hout := (hlife'.nodes i).outlived
    rcases step_node hstep i with hsame | ⟨a, hn⟩
    · rwa [hsame]
    · exact hP _ a _ hp (hlife.myId i) hn (hlife.nodes i).outlived hout

theorem LifeUpTo.holds (hids : Function.Injective ids) (h : LifeUpTo ids x k s)
    (hrun : Run (stepOver net) s fs c) (hsilent : Silent x fs) (hi : i ≠ x) {r : Rank}
    (hr : (s i).Holds (ids x) r) : (c i).Holds (ids x) r := by
  refine (h.silent hids hrun hsilent hr fun n a n' hn hid hs _ _ => hn.step ?_ hs).2
  rw [hid]
  exact fun heq => hi (hids heq).symm

/-- **The round.** A ping round about a process that has stopped leaves a suspicion. -/
theorem suspected_of_round (hids : Function.Injective ids)
    (hrun : Run (stepOver net) (start ids addresses configs) es s)
    (hround : PingRound net i s fs t) (hpeer : (s i).sender = .probe (ids x, info))
    (hdraws : drawsOf net (start ids addresses configs) (es ++ fs) i ≤ 2 ^ 64)
    (hresolve : ∀ dest j, parseAddress info.address = .ok dest → net.resolve dest = some j → j = x)
    (hlife : LifeUpTo ids x k s) (hi : i ≠ x) (hknown : (s i).Holds (ids x) (toLex (k, .alive)))
    (hsilent : Silent x fs) : (t i).Suspected (ids x) k (t i).clock := by
  have hne : ∀ n : Node, n.list.myId = ids i → ids x ≠ n.list.myId := by
    intro n hid
    rw [hid]
    exact fun heq => hi (hids heq).symm
  obtain ⟨pre, m, ch, hpre, hm, hpc⟩ := (answered_during hrun hround hpeer hdraws).2 (by
    intro dest j haddress hj
    rw [hresolve dest j haddress hj]
    exact hsilent .receiver)
  obtain ⟨m', rest, hstep, hm', hrest⟩ := hround.run.step_of_prefix hpre hm
  obtain ⟨tail, rfl⟩ := hpre
  have hrest : Run (stepOver net) m' tail t := by
    obtain ⟨m'', hm'', htail⟩ := hround.run.split
    rwa [hm''.deterministic hm'] at htail
  have hknown := hlife.holds hids hm hsilent.left.left hi hknown
  -- the step is the call of `MarkSuspect`
  have hmarked : (m' i).Suspected (ids x) k (m' i).clock := by
    obtain ⟨n', hn, rfl⟩ := step_act (stepOver_inv hstep).1
    rw [Function.update_self]
    cases Node.step_move hn with
    | sender _ hn =>
      unfold Node.senderStep at hn
      rw [hpc] at hn
      cases hn
      obtain ⟨as, has⟩ := nodeRun (hrun.append hm) i
      exact hknown.suspect fun e he hst => Node.suspectTime_le_clock has he hst
  obtain ⟨as, has⟩ := nodeRun hrest i
  have hlife' := (hlife.silent (i := i) hids hm' hsilent.left (P := fun _ => True) trivial
    fun _ _ _ _ _ _ _ _ => trivial).1
  refine ((hlife'.silent hids hrest hsilent.right hmarked ?_).2).mono (Node.clock_mono has)
  intro n a n' hn hid hs _ hout
  exact hn.step (hne n hid) hs hout

/-- **Crash detection.** A process `x` has stopped at its incarnation, which the node `i` knows. After a
ping round of `i` about `x`, and a pass of its `CheckSuspectTimeouts` that begins the suspicion
timeout or more later, `i` holds `x` as `DEAD`, and goes on holding it so while `x` takes no step:
over a network that does not forge, whatever the other nodes do and however late what `x` has sent
before arrives. -/
theorem crash_detected (hids : Function.Injective ids)
    (hrun : Run (stepOver net) (start ids addresses configs) es s)
    (hcount : stepCount step (increments x) (start ids addresses configs) es < 2 ^ 64)
    (hi : i ≠ x)
    (hknown : ∃ e, view ids i x s = some e ∧ (s x).list.myIncarnation ≤ e.incarnation)
    (hround : PingRound net i s fs t) (hpeer : (s i).sender = .probe (ids x, info))
    (hresolve : ∀ dest j, parseAddress info.address = .ok dest → net.resolve dest = some j → j = x)
    (hdraws : drawsOf net (start ids addresses configs) (es ++ fs) i ≤ 2 ^ 64)
    (hgs : Run (stepOver net) t gs u) (hpass : (u i).sender = .timeouts)
    (hclock : (t i).clock + (configs i).suspectTimeoutMs * 1000000 ≤ (u i).clock)
    (hps : Run (stepOver net) u ps v) (hdone : (v i).sender = .round)
    (hks : Run (stepOver net) v ks w) (hsilent : Silent x (fs ++ gs ++ ps ++ ks)) :
    ∃ info', view ids i x w = some info' ∧ info'.state = .dead := by
  obtain ⟨e, he, hinc⟩ := hknown
  have hlife : LifeUpTo ids x (s x).list.myIncarnation s :=
    lifeUpTo_of_run hids (run_of_stepOver hrun)
      (incarnation_of_run (run_of_stepOver hrun) hcount).2
  have hholds : (s i).Holds (ids x) (toLex ((s x).list.myIncarnation, .alive)) := by
    refine ⟨e, he, Prod.Lex.toLex_le_toLex.mpr ?_⟩
    rcases Nat.lt_or_eq_of_le hinc with hlt | heq
    · exact Or.inl hlt
    · exact Or.inr ⟨heq, MemberState.alive_le _⟩
  have hne : ∀ n : Node, n.list.myId = ids i → ids x ≠ n.list.myId := by
    intro n hid
    rw [hid]
    exact fun heq => hi (hids heq).symm
  have hsuspected := suspected_of_round hids hrun hround hpeer hdraws hresolve hlife hi hholds
    hsilent.left.left.left
  have hlife_t := (hlife.silent (i := i) hids hround.run hsilent.left.left.left
    (P := fun _ => True) trivial fun _ _ _ _ _ _ _ _ => trivial).1
  obtain ⟨hlife_u, hsuspected⟩ := hlife_t.silent hids hgs hsilent.left.left.right hsuspected
    fun n a n' hn hid hs _ hout => hn.step (hne n hid) hs hout
  -- the pass begins with the timer run out
  have hconfig : (u i).config = configs i := by
    obtain ⟨as, has⟩ := nodeRun ((hrun.append hround.run).append hgs) i
    exact Node.config_eq has
  have hpassing : (u i).Pass (ids x) (s x).list.myIncarnation (t i).clock := by
    obtain ⟨as, has⟩ := nodeRun hgs i
    refine Or.inr ⟨hsuspected, Node.clock_mono has, by rwa [hconfig], ?_⟩
    unfold Node.Due
    rw [hpass]
    trivial
  obtain ⟨hlife_v, hpassed⟩ := hlife_u.silent hids hps hsilent.left.right hpassing
    fun n a n' hn hid hs hout hout' => hn.step (hne n hid) hs hout hout'
  have hdead : (v i).Holds (ids x) (toLex ((s x).list.myIncarnation, .dead)) := by
    rcases hpassed with hdead | hover
    · exact hdead
    · have hdue := hover.due
      unfold Node.Due at hdue
      rw [hdone] at hdue
      exact hdue.elim
  obtain ⟨hlife_w, hdead⟩ := hlife_v.silent hids hks hsilent.right hdead
    fun n a n' hn hid hs _ _ => hn.step (hne n hid) hs
  exact hdead.dead (hlife_w.nodes i).outlived

/-! ## A replica that stops -/

def replicaPing : Label Bool :=
  .deliver false true ⟨.ping, "replica-1", "", 1, [pairUpdate true .alive]⟩ (pairSource true)

/-- `replica-1` announces itself to the gateway and stops; the gateway is about to probe it. -/
def announcedRun : List (Label Bool) :=
  [.act true (.joinCluster ["10.0.0.9:17000"]),
    .act true (.sender (.peer "seed-10.0.0.9:17000"))] ++
  List.replicate 3 (.act true (.sender .none)) ++ [replicaPing] ++
  List.replicate 7 (.act false .receiver) ++ [.act false (.sender (.peer "replica-1"))]

/-- The pass over the suspects. -/
def suspectsPass : List (Label Bool) :=
  .act false (.sender (.order [("replica-1", ⟨"10.0.0.1:17001", .suspect, 0, "", 0, 0, 200000000⟩)])) ::
  List.replicate 3 (.act false (.sender .none))

/-- The announcement arrives once more. -/
def lateRun : List (Label Bool) := replicaPing :: List.replicate 7 (.act false .receiver)

/-- The gateway is about to probe `replica-1`, which has stopped. -/
def announced : Cluster Bool :=
  (exec (stepOver pairNetwork) quietPair announcedRun).get (by decide +kernel)

/-- The round is over. -/
def suspecting : Cluster Bool :=
  (exec (stepOver pairNetwork) announced silentRound).get (by decide +kernel)

/-- The suspicion timeout has passed. -/
def overdue : Cluster Bool :=
  (exec (stepOver pairNetwork) suspecting [.act false (.tick 2000000000)]).get (by decide +kernel)

/-- The pass is over. -/
def detected : Cluster Bool :=
  (exec (stepOver pairNetwork) overdue suspectsPass).get (by decide +kernel)

theorem crash_detected_replica :
    ∃ w, Run (stepOver pairNetwork) detected lateRun w ∧
      ∃ info, view pairIds false true w = some info ∧ info.state = .dead := by
  have hrun : Run (stepOver pairNetwork) quietPair announcedRun announced := run_get _
  have hfs : Run (stepOver pairNetwork) announced silentRound suspecting := run_get _
  have hpeer : (announced false).sender = .probe (pairIds true, { address := "10.0.0.1:17001" }) := by
    decide +kernel
  have hround : PingRound pairNetwork false announced silentRound suspecting :=
    .of_exec ⟨_, hpeer⟩ hfs (by decide +kernel) (by decide +kernel)
  have hgs : Run (stepOver pairNetwork) suspecting [.act false (.tick 2000000000)] overdue := run_get _
  have hps : Run (stepOver pairNetwork) overdue suspectsPass detected := run_get _
  have hks : Run (stepOver pairNetwork) detected lateRun _ := run_get (by decide +kernel)
  refine ⟨_, hks, crash_detected (x := true) pairIds_injective hrun (by decide +kernel) (by decide)
    ⟨{ address := "10.0.0.1:17001" }, by decide +kernel, by decide +kernel⟩ hround hpeer ?_
    (by decide +kernel) hgs (by decide +kernel) (by decide +kernel) hps (by decide +kernel) hks
    (silent_of_actor (by decide +kernel))⟩
  intro dest j haddress hj
  have hdest : parseAddress "10.0.0.1:17001" = .ok (pairNetwork.source true) := by decide +kernel
  obtain rfl := Except.ok.inj (hdest.symm.trans haddress)
  rw [pairNetwork.resolve_source] at hj
  exact (Option.some.inj hj).symm

end Cluster

end LlmGateway.Gossip
