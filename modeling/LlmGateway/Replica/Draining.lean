import LlmGateway.Lib.Completion
import LlmGateway.Replica.ReplicaServer

/-!
# How a drain ends

`Drain` sets `draining_` and polls until `active_requests_` is zero. It can only end if the replica
runs out of work: a `Generate` call that comes later is turned away, and those past their test of
the flag have a bounded number of tokens to write.

1. `tokensLeft`: the tokens that the calls may still write. On a draining replica every write takes
   one of them, and nothing adds any (`tokensLeft_step`).
2. `exists_enabled`: a call that has not returned can go on, or another one can.
3. `drain_ends`: so what is written while the replica drains is bounded, and every call can return.
-/

namespace LlmGateway.Replica

open Transition

variable {s s' : ReplicaServer} {t t' : ReplicaCall} {g g' : GenerateCall} {c : Choice}
  {p p' : ReplicaPool} {l : ReplicaLabel} {es : List ReplicaLabel}

/-! ## What is left to write -/

/-- The tokens a call still has to write, if the replica is draining: one that has not passed its
test of the flag will not. -/
def GenerateCall.tokensLeft : GenerateCall → ℕ
  | .notDraining r | .notRejected r | .accepted r => (r.maxTokens - r.tokensAlreadyGenerated).toNat
  | .streaming r i _ | .writing r i _ => (r.maxTokens - i).toNat
  | .entered _ | .leaving .. | .returned .. => 0

def ReplicaCall.tokensLeft : ReplicaCall → ℕ
  | .generate g => g.tokensLeft
  | .drain _ => 0

/-- The tokens all calls still have to write. -/
def tokensLeft (p : ReplicaPool) : ℕ := (p.calls.map ReplicaCall.tokensLeft).sum

/-- The call calls `Write` in its next step. -/
def ReplicaCall.writing : ReplicaCall → Bool
  | .generate (.writing ..) => true
  | _ => false

/-- A call of `Write`. -/
def writesToken (p : ReplicaPool) : ReplicaLabel → Bool
  | .call i _ => p.calls[i]?.any ReplicaCall.writing
  | _ => false

/-- A call at `Write` has a token left. -/
def GenerateCall.Within : GenerateCall → Prop
  | .writing r i _ => i < r.maxTokens
  | _ => True

def ReplicaCall.Within : ReplicaCall → Prop
  | .generate g => g.Within
  | .drain _ => True

theorem ReplicaCall.Within.step (hs : t.step s c = some (s', t')) : t'.Within := by
  cases replicaStep_cases hs with
  | generate hg => cases hg <;> trivial
  | setFlag | poll | drained => trivial

theorem tokensLeft_call (hdraining : s.draining = true) (ht : t.Within)
    (hs : t.step s c = some (s', t')) :
    (if t.writing then 1 else 0) + t'.tokensLeft ≤ t.tokensLeft := by
  cases replicaStep_cases hs with
  | generate hg =>
    cases hg with
    | notDraining hopen =>
      rw [hdraining] at hopen
      cases hopen
    | write | disconnected =>
      simp only [ReplicaCall.Within, GenerateCall.Within] at ht
      simp only [ReplicaCall.writing, ReplicaCall.tokensLeft, GenerateCall.tokensLeft, if_true]
      omega
    | _ => simp [ReplicaCall.writing, ReplicaCall.tokensLeft, GenerateCall.tokensLeft]
  | setFlag | poll | drained => exact le_rfl

theorem within_step (h : ∀ t ∈ p.calls, t.Within) (hs : replicaProgram.step p l = some p') :
    ∀ t ∈ p'.calls, t.Within := by
  cases Program.step_cases hs with
  | spawn x =>
    intro t ht
    rcases List.mem_append.mp ht with ht | ht
    · exact h t ht
    · rw [List.mem_singleton.mp ht]
      cases x <;> trivial
  | call hi ht =>
    intro u hu
    rcases List.mem_or_eq_of_mem_set hu with hu | rfl
    · exact h u hu
    · exact ReplicaCall.Within.step ht
  | env henv => exact h

theorem within_of_run (hrun : Run replicaProgram.step newReplica es p) : ∀ t ∈ p.calls, t.Within :=
  hrun.invariant (P := fun p => ∀ t ∈ p.calls, t.Within) (by intro t ht; cases ht)
    fun _ _ _ h hs => within_step h hs

structure IsDraining (p : ReplicaPool) : Prop where
  flag : p.shared.draining = true
  within : ∀ t ∈ p.calls, t.Within

theorem IsDraining.step (h : IsDraining p) (hs : replicaProgram.step p l = some p') :
    IsDraining p' := by
  refine ⟨?_, within_step h.within hs⟩
  cases Program.step_cases hs with
  | spawn => exact h.flag
  | call _ ht => exact draining_step ht h.flag
  | @env d s' henv => cases d <;> cases henv <;> exact h.flag

/-- **One step of a draining replica.** -/
theorem tokensLeft_step (h : IsDraining p) (hs : replicaProgram.step p l = some p') :
    (if writesToken p l then 1 else 0) + tokensLeft p' ≤ tokensLeft p := by
  cases Program.step_cases hs with
  | spawn x => cases x <;> simp [writesToken, tokensLeft, replicaProgram, ReplicaCall.tokensLeft,
      GenerateCall.tokensLeft]
  | @call i c t t' s' hi ht =>
    have hcall := tokensLeft_call h.flag (h.within t (List.mem_of_getElem? hi)) ht
    have hsum : ((p.calls.set i t').map ReplicaCall.tokensLeft).sum + t.tokensLeft =
        (p.calls.map ReplicaCall.tokensLeft).sum + t'.tokensLeft := Program.sum_set hi
    simp only [writesToken, tokensLeft, hi, Option.any_some]
    omega
  | env henv => simp [writesToken, tokensLeft]

/-! ## Every call can return -/

def ReplicaCall.Returned : ReplicaCall → Prop
  | .generate (.returned ..) | .drain .drained => True
  | _ => False

/-- The steps a call has before it, if its client stays. -/
def ReplicaCall.budget : ReplicaCall → ℕ
  | .generate (.entered r) => 2 * (r.maxTokens - r.tokensAlreadyGenerated).toNat + 7
  | .generate (.notDraining r) => 2 * (r.maxTokens - r.tokensAlreadyGenerated).toNat + 6
  | .generate (.notRejected r) => 2 * (r.maxTokens - r.tokensAlreadyGenerated).toNat + 5
  | .generate (.accepted r) => 2 * (r.maxTokens - r.tokensAlreadyGenerated).toNat + 4
  | .generate (.streaming r i _) => 2 * (r.maxTokens - i).toNat + 3
  | .generate (.writing r i _) => 2 * (r.maxTokens - i).toNat + 2
  | .generate (.leaving ..) => 1
  | .generate (.returned ..) => 0
  | .drain .entered => 2
  | .drain .polling => 1
  | .drain .drained => 0

theorem budget_generate (hg : g.Within) (hs : GenerateStep s g s' g') :
    (ReplicaCall.generate g').budget < (ReplicaCall.generate g).budget := by
  cases hs with
  | write | disconnected =>
    simp only [GenerateCall.Within] at hg
    simp only [ReplicaCall.budget]
    omega
  | _ => simp only [ReplicaCall.budget]; omega

theorem generate_enabled (hopen : ¬ (ReplicaCall.generate g).Returned) :
    ∃ r, g.step s {} = some r := by
  cases g with
  | returned => exact absurd trivial hopen
  | accepted | leaving => exact ⟨_, rfl⟩
  | _ => simp only [GenerateCall.step]; split_ifs <;> exact ⟨_, rfl⟩

/-- A step of a call, whose client stays. -/
def OwnStep : ReplicaLabel → Prop
  | .call _ c => c = {}
  | _ => False

def totalBudget (p : ReplicaPool) : ℕ := (p.calls.map ReplicaCall.budget).sum

/-- A `Drain` call polls in vain only while a `Generate` call is streaming. -/
theorem active_of_returned (hrun : Run replicaProgram.step newReplica es p)
    (h : ∀ g, .generate g ∈ p.calls → (ReplicaCall.generate g).Returned) :
    p.shared.activeRequests = 0 := by
  rw [active_eq_count hrun]
  refine Nat.cast_eq_zero.mpr (List.countP_eq_zero.mpr fun t ht hstreaming => ?_)
  cases t with
  | drain => cases hstreaming
  | generate g =>
    have hreturned := h g ht
    cases g with
    | returned => cases hstreaming
    | _ => exact hreturned

/-- While a call has not returned, some call can take a step that makes its budget smaller. -/
theorem exists_enabled (hrun : Run replicaProgram.step newReplica es p)
    (hopen : ¬ ∀ t ∈ p.calls, t.Returned) :
    ∃ (i : ℕ) (t t' : ReplicaCall) (s' : ReplicaServer), p.calls[i]? = some t ∧
      t.step p.shared {} = some (s', t') ∧ t'.budget < t.budget := by
  by_cases hgenerate : ∀ g, .generate g ∈ p.calls → (ReplicaCall.generate g).Returned
  · have hactive := active_of_returned hrun hgenerate
    simp only [not_forall] at hopen
    obtain ⟨t, ht, hopen⟩ := hopen
    obtain ⟨i, hi⟩ := List.mem_iff_getElem?.mp ht
    cases t with
    | generate g => exact absurd (hgenerate g ht) hopen
    | drain d =>
      cases d with
      | entered => exact ⟨i, _, .drain .polling, _, hi, rfl, by decide⟩
      | polling =>
        refine ⟨i, _, .drain .drained, p.shared, hi, ?_, by decide⟩
        simp [ReplicaCall.step, DrainCall.step, hactive]
      | drained => exact absurd trivial hopen
  · simp only [not_forall] at hgenerate
    obtain ⟨g, hg, hopen⟩ := hgenerate
    obtain ⟨i, hi⟩ := List.mem_iff_getElem?.mp hg
    obtain ⟨⟨s', g'⟩, hs⟩ := generate_enabled (s := p.shared) hopen
    exact ⟨i, _, .generate g', s', hi, by rw [ReplicaCall.step, hs]; rfl,
      budget_generate (within_of_run hrun _ hg) (generateStep_cases hs)⟩

theorem progress (hrun : Run replicaProgram.step newReplica es p)
    (hopen : ¬ ∀ t ∈ p.calls, t.Returned) :
    ∃ l q, OwnStep l ∧ replicaProgram.step p l = some q ∧ totalBudget q < totalBudget p := by
  obtain ⟨i, t, t', s', hi, hs, hlt⟩ := exists_enabled hrun hopen
  refine ⟨.call i {}, ⟨s', p.calls.set i t'⟩, rfl, Program.step_call hi hs, ?_⟩
  have hsum : ((p.calls.set i t').map ReplicaCall.budget).sum + t.budget =
      (p.calls.map ReplicaCall.budget).sum + t'.budget := Program.sum_set hi
  unfold totalBudget
  dsimp only
  omega

/-- **The end of a drain.** Once `draining_` is set, whatever calls and settings follow, no more
tokens are written than the calls that had passed their test of it still had to write. And from
every reachable state, draining or not, steps of the calls alone bring every one of them to its end,
the `Drain` calls with them. -/
theorem drain_ends (es : List ReplicaLabel) (p : ReplicaPool)
    (hrun : Run replicaProgram.step newReplica es p) :
    (p.shared.draining = true → ∀ fs q, Run replicaProgram.step p fs q →
      stepCount replicaProgram.step writesToken p fs + tokensLeft q ≤ tokensLeft p) ∧
    ∃ fs q, (∀ l ∈ fs, OwnStep l) ∧ Run replicaProgram.step p fs q ∧ ∀ t ∈ q.calls, t.Returned := by
  constructor
  · intro hdraining fs q hq
    exact stepCount_add_le (I := IsDraining) ⟨hdraining, within_of_run hrun⟩
      (fun _ _ _ h hs => ⟨h.step hs, tokensLeft_step h hs⟩) hq
  · obtain ⟨fs, q, hfs, hq, -, hreturned⟩ := drain (A := OwnStep)
      (I := fun p => ∃ es, Run replicaProgram.step newReplica es p)
      (G := fun q => ∀ t ∈ q.calls, t.Returned) totalBudget
      (fun p ⟨es, hp⟩ hopen => by
        obtain ⟨l, q, hl, hs, hlt⟩ := progress hp hopen
        refine ⟨[l], q, by simpa using hl, Run.snoc .nil hs, ⟨es ++ [l], hp.snoc hs⟩, hlt⟩)
      p ⟨es, hrun⟩
    exact ⟨fs, q, hfs, hq, hreturned⟩

/-- Two calls are counted when a `Drain` call sets the flag; a third one comes too late. -/
def drainRun : List ReplicaLabel :=
  [.spawn (.generate ⟨"req-1", "hello", 2, 0⟩), .spawn (.generate ⟨"req-2", "hello", 3, 1⟩),
    .spawn .drain] ++
  List.replicate 6 (.call 0 {}) ++ List.replicate 4 (.call 1 {}) ++
  [.call 2 {}, .spawn (.generate ⟨"req-3", "hello", 5, 0⟩)]

theorem drain_ends_two :
    ∃ p, Run replicaProgram.step newReplica drainRun p ∧ tokensLeft p = 3 ∧
      (∀ fs q, Run replicaProgram.step p fs q →
        stepCount replicaProgram.step writesToken p fs + tokensLeft q ≤ 3) ∧
      ∃ fs q, (∀ l ∈ fs, OwnStep l) ∧ Run replicaProgram.step p fs q ∧
        ∀ t ∈ q.calls, t.Returned := by
  have hrun : Run replicaProgram.step newReplica drainRun _ := run_get (by decide)
  have htokens : tokensLeft ((exec replicaProgram.step newReplica drainRun).get (by decide)) = 3 := by
    decide
  have h := drain_ends drainRun _ hrun
  rw [htokens] at h
  exact ⟨_, hrun, htokens, h.1 (by decide), h.2⟩

end LlmGateway.Replica
