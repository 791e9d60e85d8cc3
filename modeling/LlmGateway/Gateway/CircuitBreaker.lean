import LlmGateway.Common.Clock
import LlmGateway.Gossip.MembershipList
import LlmGateway.Lib.Pool
import Mathlib.Data.Rat.Defs
import Mathlib.Algebra.Order.Ring.Unbundled.Rat

/-!
# The circuit breaker

`CircuitBreaker` guards one replica. The three operations take the reading of the steady clock as
an argument; the error rate is compared over the rationals. `CircuitBreakerManager` keeps a breaker
for each replica id, made on first use.

1. `AllowStep` and `record_state` say what `AllowRequest` and the two record operations do to the
   state.
2. `breakerProgram`: requests that ask, and record one outcome if let through. Every request let
   through knows whether it is a probe, and how many HALF_OPEN periods had begun by then.
3. `leaves_by_probe_iff`: a breaker leaves HALF_OPEN by its probe alone, as long as no request let
   through before the period records during it.
-/

namespace LlmGateway.Gateway

open Transition

namespace CircuitBreaker

inductive State
  | closed
  | opened
  | halfOpen
  deriving DecidableEq, Repr

structure Config where
  windowSize : ℤ := 10
  errorThreshold : ℚ := 1 / 2
  cooldownMs : ℤ := 5000
  deriving DecidableEq, Repr

end CircuitBreaker

/-- The outcomes are kept oldest first, `true` for a success. -/
structure CircuitBreaker where
  config : CircuitBreaker.Config := {}
  state : CircuitBreaker.State := .closed
  outcomes : List Bool := []
  openedAt : ℕ := 0
  probeInFlight : Bool := false
  deriving DecidableEq, Repr

namespace CircuitBreaker

variable (b : CircuitBreaker)

/-- `AllowRequest` at the clock reading `now`. -/
def allowRequest (now : ℕ) : CircuitBreaker × Bool :=
  match b.state with
  | .closed => (b, true)
  | .opened =>
    if b.config.cooldownMs ≤ elapsedMs b.openedAt now then
      ({ b with state := .halfOpen, probeInFlight := true }, true)
    else (b, false)
  | .halfOpen =>
    if b.probeInFlight then (b, false) else ({ b with probeInFlight := true }, true)

/-- The new outcome enters the window, and the oldest leaves one that is too long. -/
def pushOutcome (ok : Bool) : CircuitBreaker :=
  let outcomes := b.outcomes ++ [ok]
  { b with outcomes := if b.config.windowSize < outcomes.length then outcomes.tail else outcomes }

/-- `EvaluateState`. -/
def evaluateState (now : ℕ) : CircuitBreaker :=
  if b.state ≠ .closed then b
  else if (b.outcomes.length : ℤ) < b.config.windowSize then b
  else
    let failures := b.outcomes.countP (!·)
    -- without outcomes the rate is `0.0 / 0`, and a NaN exceeds nothing
    if b.outcomes ≠ [] ∧ b.config.errorThreshold < (failures : ℚ) / b.outcomes.length then
      { b with state := .opened, openedAt := now }
    else b

/-- `RecordSuccess`. -/
def recordSuccess (now : ℕ) : CircuitBreaker :=
  let b := b.pushOutcome true
  if b.state = .halfOpen then
    evaluateState { b with state := .closed, probeInFlight := false, outcomes := [] } now
  else b.evaluateState now

/-- `RecordFailure`. -/
def recordFailure (now : ℕ) : CircuitBreaker :=
  let b := b.pushOutcome false
  if b.state = .halfOpen then
    { b with state := .opened, openedAt := now, probeInFlight := false }
  else b.evaluateState now

/-- The record operation for an outcome. -/
def record (now : ℕ) (ok : Bool) : CircuitBreaker :=
  if ok then b.recordSuccess now else b.recordFailure now

end CircuitBreaker

/-- The breakers by replica id, all with one configuration. -/
structure CircuitBreakerManager where
  config : CircuitBreaker.Config := {}
  breakers : Gossip.UnorderedMap String CircuitBreaker := ∅

namespace CircuitBreakerManager

variable (m : CircuitBreakerManager)

/-- `GetOrCreate`. -/
def getOrCreate (id : String) : CircuitBreaker :=
  (m.breakers.lookup id).getD { config := m.config }

def set (id : String) (b : CircuitBreaker) : CircuitBreakerManager :=
  { m with breakers := m.breakers.insert id b }

/-- `AllowRequest`. -/
def allowRequest (now : ℕ) (id : String) : CircuitBreakerManager × Bool :=
  let (b, allowed) := (m.getOrCreate id).allowRequest now
  (m.set id b, allowed)

/-- `RecordSuccess`. -/
def recordSuccess (now : ℕ) (id : String) : CircuitBreakerManager :=
  m.set id ((m.getOrCreate id).recordSuccess now)

/-- `RecordFailure`. -/
def recordFailure (now : ℕ) (id : String) : CircuitBreakerManager :=
  m.set id ((m.getOrCreate id).recordFailure now)

variable {m : CircuitBreakerManager} {id id' : String} {b : CircuitBreaker}

@[simp] theorem getOrCreate_set : (m.set id b).getOrCreate id = b := by
  simp only [getOrCreate, set, AList.lookup_insert, Option.getD_some]

theorem getOrCreate_set_of_ne (h : id' ≠ id) :
    (m.set id b).getOrCreate id' = m.getOrCreate id' := by
  simp only [getOrCreate, set, AList.lookup_insert_ne h]

end CircuitBreakerManager

namespace CircuitBreaker

/-! ## What the operations do to the state -/

variable {b : CircuitBreaker} {now : ℕ}

/-- The answers of `AllowRequest`. -/
inductive AllowStep (b : CircuitBreaker) (now : ℕ) : CircuitBreaker × Bool → Prop
  | closed : b.state = .closed → AllowStep b now (b, true)
  | cooling : b.state = .opened → elapsedMs b.openedAt now < b.config.cooldownMs →
      AllowStep b now (b, false)
  | probe : b.state = .opened → b.config.cooldownMs ≤ elapsedMs b.openedAt now →
      AllowStep b now ({ b with state := .halfOpen, probeInFlight := true }, true)
  | probing : b.state = .halfOpen → b.probeInFlight = true → AllowStep b now (b, false)
  | noProbe : b.state = .halfOpen → b.probeInFlight = false →
      AllowStep b now ({ b with probeInFlight := true }, true)

theorem allowStep (b : CircuitBreaker) (now : ℕ) : AllowStep b now (b.allowRequest now) := by
  unfold allowRequest
  split
  · rename_i hstate
    exact .closed hstate
  · rename_i hstate
    split_ifs with helapsed
    · exact .probe hstate helapsed
    · exact .cooling hstate (not_le.mp helapsed)
  · rename_i hstate
    split_ifs with hprobe
    · exact .probing hstate hprobe
    · exact .noProbe hstate (Bool.eq_false_iff.mpr hprobe)

theorem allowRequest_state (h : (b.allowRequest now).2 = true ∨ b.state ≠ .opened) :
    (b.allowRequest now).1.state ≠ .opened := by
  have hstep := allowStep b now
  generalize b.allowRequest now = r at h hstep
  cases hstep with
  | closed hstate | probing hstate | noProbe hstate => simp [hstate]
  | cooling hstate => simp [hstate] at h
  | probe => simp

@[simp] theorem pushOutcome_state (ok : Bool) : (b.pushOutcome ok).state = b.state := rfl

@[simp] theorem pushOutcome_probeInFlight (ok : Bool) :
    (b.pushOutcome ok).probeInFlight = b.probeInFlight := rfl

theorem evaluateState_of_nil (h : b.outcomes = []) : b.evaluateState now = b := by
  unfold evaluateState
  simp [h]

theorem evaluateState_halfOpen : (b.evaluateState now).state = .halfOpen ↔ b.state = .halfOpen := by
  unfold evaluateState
  by_cases hclosed : b.state = .closed
  · rw [if_neg (not_not.mpr hclosed), hclosed]
    dsimp only
    split_ifs <;> simp [hclosed]
  · rw [if_pos hclosed]

/-- Outside of HALF_OPEN an outcome enters the window, which is then evaluated. -/
theorem record_of_ne_halfOpen {ok : Bool} (h : b.state ≠ .halfOpen) :
    b.record now ok = (b.pushOutcome ok).evaluateState now := by
  have hpushed : (b.pushOutcome ok).state ≠ .halfOpen := h
  cases ok with
  | true => exact if_neg hpushed
  | false => exact if_neg hpushed

theorem record_true_of_halfOpen (h : b.state = .halfOpen) : b.record now true =
    { b with state := .closed, probeInFlight := false, outcomes := [] } := by
  show b.recordSuccess now = _
  unfold recordSuccess
  rw [if_pos (show (b.pushOutcome true).state = .halfOpen from h), evaluateState_of_nil rfl]
  rfl

theorem record_false_of_halfOpen (h : b.state = .halfOpen) : b.record now false =
    { b.pushOutcome false with state := .opened, openedAt := now, probeInFlight := false } :=
  if_pos h

/-- An outcome recorded while HALF_OPEN decides: the breaker closes or opens. -/
theorem record_state (h : b.state = .halfOpen) (ok : Bool) :
    (b.record now ok).state = if ok then .closed else .opened := by
  cases ok with
  | true => rw [record_true_of_halfOpen h]; rfl
  | false => rw [record_false_of_halfOpen h]; rfl

theorem record_halfOpen (ok : Bool) : (b.record now ok).state ≠ .halfOpen := by
  by_cases h : b.state = .halfOpen
  · rw [record_state h]
    cases ok <;> simp
  · rw [record_of_ne_halfOpen h]
    intro heq
    exact h ((evaluateState_halfOpen (b := b.pushOutcome ok)).mp heq)

end CircuitBreaker

/-! ## Requests on one breaker -/

/-- A breaker, and how many HALF_OPEN periods have begun. -/
structure BreakerHistory where
  breaker : CircuitBreaker
  periods : ℕ := 0
  deriving DecidableEq, Repr

/-- A request. One that was let through knows whether the breaker was HALF_OPEN when it was, and
how many periods had begun, its own included. -/
inductive BreakerRequest
  | asking
  | refused
  | admitted (probe : Bool) (period : ℕ)
  | done
  deriving DecidableEq, Repr

namespace BreakerRequest

/-- One step of a request, at a clock reading and with an outcome: `AllowRequest`, and later
`RecordSuccess` or `RecordFailure`. -/
def step (h : BreakerHistory) (now : ℕ) (ok : Bool) :
    BreakerRequest → Option (BreakerHistory × BreakerRequest)
  | .asking =>
    let (b, allowed) := h.breaker.allowRequest now
    let probe := b.state = .halfOpen
    let periods := if h.breaker.state ≠ .halfOpen ∧ probe then h.periods + 1 else h.periods
    some (⟨b, periods⟩, if allowed then .admitted probe periods else .refused)
  | .admitted _ _ => some ({ h with breaker := h.breaker.record now ok }, .done)
  | _ => none

end BreakerRequest

/-- Any number of requests. Every step comes with its clock reading and an outcome. -/
def breakerProgram : Program BreakerHistory BreakerRequest Unit (ℕ × Bool) Empty where
  start _ := .asking
  call h r c := r.step h c.1 c.2
  env _ d := d.elim

abbrev BreakerPool := Pool BreakerHistory BreakerRequest

abbrev BreakerLabel := Program.Label Unit (ℕ × Bool) Empty

def newBreaker (config : CircuitBreaker.Config) : BreakerPool := ⟨{ breaker := { config } }, []⟩

/-- The step `l` takes the breaker out of HALF_OPEN. -/
def LeavesHalfOpen (p : BreakerPool) (l : BreakerLabel) : Prop :=
  p.shared.breaker.state = .halfOpen ∧
    ∃ p', breakerProgram.step p l = some p' ∧ p'.shared.breaker.state ≠ .halfOpen

/-- The step `l` is one of the request that was let through as the probe of this period. -/
def ByProbe (p : BreakerPool) (l : BreakerLabel) : Prop :=
  ∃ i c, l = .call i c ∧ p.calls[i]? = some (.admitted true p.shared.periods)

/-- While the breaker is HALF_OPEN the step `l` records the outcome of a request that was let
through before the period began. -/
def LateOutcome (p : BreakerPool) (l : BreakerLabel) : Prop :=
  p.shared.breaker.state = .halfOpen ∧ ∃ i c probe period, l = .call i c ∧
    p.calls[i]? = some (.admitted probe period) ∧ period < p.shared.periods

/-! ## The invariant -/

/-- A request let through in the present HALF_OPEN period is a probe. -/
def BreakerRequest.Numbered (h : BreakerHistory) : BreakerRequest → Prop
  | .admitted probe period =>
    period ≤ h.periods ∧ (h.breaker.state = .halfOpen → period = h.periods → probe = true)
  | _ => True

/-- HALF_OPEN has a probe in flight. -/
def BreakerHistory.Guarded (h : BreakerHistory) : Prop :=
  h.breaker.state = .halfOpen → h.breaker.probeInFlight = true

/-- What one step of a request does. -/
inductive RequestStep (h : BreakerHistory) : BreakerRequest → BreakerHistory → BreakerRequest → Prop
  | refused : RequestStep h .asking h .refused
  | normal : h.breaker.state = .closed →
      RequestStep h .asking h (.admitted false h.periods)
  | probe {b : CircuitBreaker} : h.breaker.state = .opened → b.state = .halfOpen →
      b.probeInFlight = true →
      RequestStep h .asking ⟨b, h.periods + 1⟩ (.admitted true (h.periods + 1))
  | record {probe : Bool} {period now : ℕ} {ok : Bool} :
      RequestStep h (.admitted probe period) { h with breaker := h.breaker.record now ok } .done

variable {h h' : BreakerHistory} {r r' : BreakerRequest} {now : ℕ} {ok : Bool}
  {p p' : BreakerPool} {l : BreakerLabel}

theorem requestStep_cases (hg : h.Guarded) (hs : r.step h now ok = some (h', r')) :
    RequestStep h r h' r' := by
  cases r with
  | asking =>
    unfold BreakerRequest.step at hs
    generalize hallow : h.breaker.allowRequest now = a at hs
    have hstep : CircuitBreaker.AllowStep h.breaker now a := hallow ▸ CircuitBreaker.allowStep _ _
    cases hstep with
    | closed hstate =>
      simp [hstate] at hs
      obtain ⟨rfl, rfl⟩ := hs
      exact .normal hstate
    | cooling hstate _ =>
      simp [hstate] at hs
      obtain ⟨rfl, rfl⟩ := hs
      exact .refused
    | probe hstate _ =>
      simp [hstate] at hs
      obtain ⟨rfl, rfl⟩ := hs
      exact .probe hstate rfl rfl
    | probing hstate _ =>
      simp [hstate] at hs
      obtain ⟨rfl, rfl⟩ := hs
      exact .refused
    | noProbe hstate hprobe =>
      rw [hg hstate] at hprobe
      cases hprobe
  | admitted probe period =>
    cases hs
    exact .record
  | refused => cases hs
  | done => cases hs

theorem numbered_of_step (hs : RequestStep h r h' r') {u : BreakerRequest} (hu : u.Numbered h) :
    u.Numbered h' := by
  cases u with
  | admitted probe period =>
    obtain ⟨hle, hprobe⟩ := hu
    cases hs with
    | refused => exact ⟨hle, hprobe⟩
    | normal _ => exact ⟨hle, hprobe⟩
    | probe hopened hhalf _ =>
      -- the new period is above all earlier ones
      refine ⟨hle.trans (Nat.le_succ _), fun _ heq => ?_⟩
      have hlt : period < h.periods + 1 := Nat.lt_succ_of_le hle
      exact absurd heq (Nat.ne_of_lt hlt)
    | record => exact ⟨hle, fun hhalf => absurd hhalf (CircuitBreaker.record_halfOpen _)⟩
  | _ => trivial

theorem breaker_preserves :
    Program.Preserves breakerProgram BreakerHistory.Guarded BreakerRequest.Numbered where
  start _ _ _ := trivial
  call h r c h' r' hg hr hs := by
    cases requestStep_cases hg hs with
    | refused => exact ⟨hg, trivial⟩
    | normal hclosed =>
      refine ⟨hg, le_refl _, fun hhalf => ?_⟩
      rw [hclosed] at hhalf
      cases hhalf
    | probe _ _ hflight => exact ⟨fun _ => hflight, le_refl _, fun _ _ => rfl⟩
    | record => exact ⟨fun hhalf => absurd hhalf (CircuitBreaker.record_halfOpen _), trivial⟩
  others h r c h' r' hg _ hs u hu := numbered_of_step (requestStep_cases hg hs) hu
  env _ d := d.elim

theorem breaker_invariant {config : CircuitBreaker.Config} {es : List BreakerLabel}
    (hrun : Run breakerProgram.step (newBreaker config) es p) :
    Program.Holds BreakerHistory.Guarded BreakerRequest.Numbered p := by
  refine breaker_preserves.invariant ?_ hrun
  intro hhalf
  cases hhalf

/-! ## Leaving HALF_OPEN -/

/-- In HALF_OPEN every recorded outcome takes the breaker out of it, and nothing else does. -/
theorem leavesHalfOpen_iff (hg : p.shared.Guarded) :
    LeavesHalfOpen p l ↔ p.shared.breaker.state = .halfOpen ∧
      ∃ i c probe period, l = .call i c ∧ p.calls[i]? = some (.admitted probe period) := by
  refine and_congr_right fun hhalf => ?_
  constructor
  · rintro ⟨p', hs, hleft⟩
    cases Program.step_cases hs with
    | spawn x => exact absurd hhalf hleft
    | @call i c r r' h' hi hr =>
      cases requestStep_cases hg hr with
      | refused => exact absurd hhalf hleft
      | normal hclosed => exact absurd hhalf hleft
      | probe hopened =>
        rw [hopened] at hhalf
        cases hhalf
      | record => exact ⟨i, c, _, _, rfl, hi⟩
    | @env d h' henv => exact d.elim
  · rintro ⟨i, c, probe, period, rfl, hi⟩
    exact ⟨_, Program.step_call hi rfl, CircuitBreaker.record_halfOpen _⟩

theorem probe_unique {config : CircuitBreaker.Config} {es : List BreakerLabel}
    (hrun : Run breakerProgram.step (newBreaker config) es p) {i j k : ℕ}
    (hi : p.calls[i]? = some (.admitted true k)) (hj : p.calls[j]? = some (.admitted true k)) :
    i = j := by
  induction hrun generalizing i j k with
  | nil => cases hi
  | @snoc es l s t hrun hs ih =>
    obtain ⟨hg, hnum⟩ := breaker_invariant hrun
    cases Program.step_cases hs with
    | spawn x =>
      -- the new request has not been let through
      have hold : ∀ n : ℕ, (s.calls ++ [BreakerRequest.asking])[n]? = some (.admitted true k) →
          s.calls[n]? = some (.admitted true k) := by
        intro n hn
        rcases lt_trichotomy n s.calls.length with hlt | rfl | hgt
        · rwa [List.getElem?_append_left hlt] at hn
        · simp at hn
        · rw [List.getElem?_eq_none (by simp; omega)] at hn
          cases hn
      exact ih (hold i hi) (hold j hj)
    | @call n c r r' h' hn hr =>
      have hother : ∀ m : ℕ, n ≠ m → (s.calls.set n r')[m]? = some (.admitted true k) →
          s.calls[m]? = some (.admitted true k) := by
        intro m hne hm
        rwa [List.getElem?_set_ne hne] at hm
      have hself : (s.calls.set n r')[n]? = some (.admitted true k) → s.shared.periods < k := by
        intro hm
        rw [List.getElem?_set_self (List.getElem?_eq_some_iff.mp hn).1] at hm
        cases hm
        cases requestStep_cases hg hr with
        | probe => exact Nat.lt_succ_self _
      have hle : ∀ m : ℕ, s.calls[m]? = some (.admitted true k) → k ≤ s.shared.periods :=
        fun m hm => (hnum _ (List.mem_of_getElem? hm)).1
      by_cases hni : n = i <;> by_cases hnj : n = j
      · exact hni.symm.trans hnj
      · subst hni
        exact absurd (hle j (hother j hnj hj)) (not_le.mpr (hself hi))
      · subst hnj
        exact absurd (hle i (hother i hni hi)) (not_le.mpr (hself hj))
      · exact ih (hother i hni hi) (hother j hnj hj)
    | @env d h' henv => exact d.elim

/-- **The probe decides.** In every run, each step that leaves HALF_OPEN is one of the probe of
that period if and only if no request let through before a HALF_OPEN period records during it. -/
theorem leaves_by_probe_iff (config : CircuitBreaker.Config) (es : List BreakerLabel) :
    (EveryStep breakerProgram.step (newBreaker config) es fun _ p l =>
      LeavesHalfOpen p l → ByProbe p l) ↔
    EveryStep breakerProgram.step (newBreaker config) es fun _ p l => ¬ LateOutcome p l := by
  have hiff : ∀ pre l p, Run breakerProgram.step (newBreaker config) pre p →
      ((LeavesHalfOpen p l → ByProbe p l) ↔ ¬ LateOutcome p l) := by
    intro pre l p hrun
    obtain ⟨hg, hnum⟩ := breaker_invariant hrun
    rw [leavesHalfOpen_iff hg]
    constructor
    · rintro hby ⟨hhalf, i, c, probe, period, rfl, hi, hlt⟩
      obtain ⟨j, d, heq, hj⟩ := hby ⟨hhalf, i, c, probe, period, rfl, hi⟩
      cases heq
      rw [hi] at hj
      cases hj
      exact lt_irrefl _ hlt
    · rintro hlate ⟨hhalf, i, c, probe, period, rfl, hi⟩
      obtain ⟨hle, hprobe⟩ := hnum _ (List.mem_of_getElem? hi)
      have hge : p.shared.periods ≤ period := by
        by_contra hlt
        exact hlate ⟨hhalf, i, c, probe, period, rfl, hi, not_le.mp hlt⟩
      obtain rfl : period = p.shared.periods := le_antisymm hle hge
      rw [hprobe hhalf rfl] at hi
      exact ⟨i, c, rfl, hi⟩
  exact ⟨fun h pre l p hpre hrun => (hiff pre l p hrun).mp (h pre l p hpre hrun),
    fun h pre l p hpre hrun => (hiff pre l p hrun).mpr (h pre l p hpre hrun)⟩

/-- A request let through while CLOSED ends during the HALF_OPEN period of a later probe, whose
outcome is still to come. Its success closes the breaker. -/
theorem not_leaves_by_probe_overlap :
    let config : CircuitBreaker.Config := { windowSize := 1 }
    let es : List BreakerLabel := [.spawn (), .spawn (), .spawn (),
      .call 0 (0, true), .call 1 (0, true), .call 1 (0, false), .call 2 (5000000000, true)]
    ∃ p, Run breakerProgram.step (newBreaker config) es p ∧
      p.calls = [.admitted false 0, .done, .admitted true 1] ∧
      LeavesHalfOpen p (.call 0 (5000000001, true)) ∧ ¬ ByProbe p (.call 0 (5000000001, true)) := by
  intro config es
  have hrun : Run breakerProgram.step (newBreaker config) es _ := run_get (by decide)
  have hcalls : ((exec breakerProgram.step (newBreaker config) es).get (by decide)).calls =
      [.admitted false 0, .done, .admitted true 1] := by decide +kernel
  refine ⟨_, hrun, hcalls, ⟨by decide +kernel, _, rfl, by decide +kernel⟩, ?_⟩
  rintro ⟨i, c, hl, hi⟩
  cases hl
  rw [hcalls] at hi
  cases hi

end LlmGateway.Gateway
