import LlmGateway.Gateway.CircuitBreaker
import Mathlib.Algebra.Order.Field.Rat
import Mathlib.Algebra.Order.Field.Basic
import Mathlib.Data.List.DropRight

/-!
# A circuit breaker under any calls

One `CircuitBreaker` and any sequence of calls on it, each with its clock reading.

1. `RecordStep`: what recording an outcome does, in each of the three states.
2. `opens_iff`: the bounded window against all the outcomes since the breaker was made or last
   closed by a probe.
3. `admission`: which requests are let through once the breaker has opened.
-/

namespace LlmGateway.Gateway

namespace CircuitBreaker

inductive Call
  | allowRequest (now : ℕ)
  | recordSuccess (now : ℕ)
  | recordFailure (now : ℕ)
  deriving DecidableEq, Repr

namespace Call

def now : Call → ℕ
  | .allowRequest now => now
  | .recordSuccess now => now
  | .recordFailure now => now

def apply (b : CircuitBreaker) : Call → CircuitBreaker
  | .allowRequest now => (b.allowRequest now).1
  | .recordSuccess now => b.recordSuccess now
  | .recordFailure now => b.recordFailure now

/-- The outcome a call records. -/
def outcome : Call → Option Bool
  | .allowRequest _ => none
  | .recordSuccess _ => some true
  | .recordFailure _ => some false

end Call

/-- The breaker after some calls. -/
def after (b : CircuitBreaker) (calls : List Call) : CircuitBreaker := calls.foldl Call.apply b

/-- The full window has more failures than the threshold allows. -/
def Trips (b : CircuitBreaker) : Prop :=
  b.config.windowSize ≤ b.outcomes.length ∧ b.outcomes ≠ [] ∧
    b.config.errorThreshold < (b.outcomes.countP (!·) : ℚ) / b.outcomes.length

variable {b b' : CircuitBreaker} {now : ℕ} {ok : Bool} {c : Call} {calls pre mid asks : List Call}
  {config : Config}

theorem after_append : b.after (pre ++ calls) = (b.after pre).after calls := List.foldl_append

/-! ## Recording an outcome -/

/-- What recording an outcome does. -/
inductive RecordStep (b : CircuitBreaker) (now : ℕ) : Bool → CircuitBreaker → Prop
  | kept {ok : Bool} : b.state = .closed → ¬ (b.pushOutcome ok).Trips →
      RecordStep b now ok (b.pushOutcome ok)
  | opens {ok : Bool} : b.state = .closed → (b.pushOutcome ok).Trips →
      RecordStep b now ok { b.pushOutcome ok with state := .opened, openedAt := now }
  | ignored {ok : Bool} : b.state = .opened → RecordStep b now ok (b.pushOutcome ok)
  | recovered : b.state = .halfOpen →
      RecordStep b now true { b with state := .closed, probeInFlight := false, outcomes := [] }
  | reopened : b.state = .halfOpen →
      RecordStep b now false
        { b.pushOutcome false with state := .opened, openedAt := now, probeInFlight := false }

theorem evaluateState_of_trips (hclosed : b.state = .closed) (h : b.Trips) :
    b.evaluateState now = { b with state := .opened, openedAt := now } := by
  unfold evaluateState
  rw [if_neg (not_not.mpr hclosed), if_neg (not_lt.mpr h.1)]
  exact if_pos h.2

theorem evaluateState_of_not_trips (hclosed : b.state = .closed) (h : ¬ b.Trips) :
    b.evaluateState now = b := by
  unfold evaluateState
  rw [if_neg (not_not.mpr hclosed)]
  by_cases hfull : (b.outcomes.length : ℤ) < b.config.windowSize
  · exact if_pos hfull
  · rw [if_neg hfull]
    exact if_neg fun htoo => h ⟨not_lt.mp hfull, htoo⟩

theorem record_of_opened (h : b.state = .opened) : b.record now ok = b.pushOutcome ok := by
  rw [record_of_ne_halfOpen (by rw [h]; decide)]
  exact if_pos (by rw [pushOutcome_state, h]; decide)

theorem recordStep (b : CircuitBreaker) (now : ℕ) (ok : Bool) :
    RecordStep b now ok (b.record now ok) := by
  cases hstate : b.state with
  | closed =>
    have hpushed : (b.pushOutcome ok).state = .closed := hstate
    rw [record_of_ne_halfOpen (by rw [hstate]; decide)]
    by_cases htrips : (b.pushOutcome ok).Trips
    · rw [evaluateState_of_trips hpushed htrips]
      exact .opens hstate htrips
    · rw [evaluateState_of_not_trips hpushed htrips]
      exact .kept hstate htrips
  | opened =>
    rw [record_of_opened hstate]
    exact .ignored hstate
  | halfOpen =>
    cases ok with
    | true => rw [record_true_of_halfOpen hstate]; exact .recovered hstate
    | false => rw [record_false_of_halfOpen hstate]; exact .reopened hstate

theorem allowRequest_ne_closed (h : b.state ≠ .closed) (now : ℕ) :
    (b.allowRequest now).1.state ≠ .closed := by
  have hstep := allowStep b now
  generalize b.allowRequest now = r at hstep
  cases hstep with
  | probe => exact fun hnow => by cases hnow
  | _ => exact h

theorem Call.cases_eq (b : CircuitBreaker) (c : Call) :
    (c.outcome = none ∧ c = .allowRequest c.now ∧ c.apply b = (b.allowRequest c.now).1) ∨
      ∃ ok, c.outcome = some ok ∧ c.apply b = b.record c.now ok := by
  cases c with
  | allowRequest now => exact Or.inl ⟨rfl, rfl, rfl⟩
  | recordSuccess now => exact Or.inr ⟨true, rfl, rfl⟩
  | recordFailure now => exact Or.inr ⟨false, rfl, rfl⟩

@[simp] theorem allowRequest_config : (b.allowRequest now).1.config = b.config := by
  have hstep := allowStep b now
  generalize b.allowRequest now = r at hstep
  cases hstep <;> rfl

@[simp] theorem record_config : (b.record now ok).config = b.config := by
  have hstep := recordStep b now ok
  generalize b.record now ok = r at hstep
  cases hstep <;> rfl

@[simp] theorem after_config (b : CircuitBreaker) (calls : List Call) :
    (b.after calls).config = b.config := by
  induction calls generalizing b with
  | nil => rfl
  | cons c calls ih =>
    refine (ih _).trans ?_
    rcases c.cases_eq b with ⟨-, -, h⟩ | ⟨ok, -, h⟩ <;> rw [h]
    · exact allowRequest_config
    · exact record_config

/-! ## The window -/

/-- The outcomes recorded since the breaker was made or last closed by its probe, oldest first. -/
structure Recorded where
  breaker : CircuitBreaker
  outcomes : List Bool := []

def Recorded.call (r : Recorded) (c : Call) : Recorded where
  breaker := c.apply r.breaker
  outcomes :=
    if r.breaker.state = .halfOpen ∧ (c.apply r.breaker).state = .closed then []
    else r.outcomes ++ c.outcome.toList

/-- A new breaker after some calls, with what was recorded. -/
def recorded (config : Config) (calls : List Call) : Recorded :=
  calls.foldl Recorded.call ⟨{ config }, []⟩

theorem recorded_breaker (config : Config) (calls : List Call) :
    (recorded config calls).breaker = after { config } calls := by
  exact (List.foldl_hom Recorded.breaker fun _ _ => rfl).symm

/-- The last `n` items and one more, without the first if there are too many. -/
theorem rtake_push (l : List Bool) (n : ℕ) (hn : 0 < n) :
    (if n < (l.rtake n ++ [ok]).length then (l.rtake n ++ [ok]).tail else l.rtake n ++ [ok]) =
      (l ++ [ok]).rtake n := by
  unfold List.rtake
  rw [List.length_append, List.length_drop, List.length_singleton, List.length_append,
    List.length_singleton]
  by_cases hlong : n ≤ l.length
  · have hdrop : l.drop (l.length - n) ++ [ok] = (l ++ [ok]).drop (l.length - n) :=
      (List.drop_append_of_le_length (by omega)).symm
    rw [if_pos (by omega), hdrop, List.tail_drop]
    congr 1
    omega
  · rw [if_neg (by omega), show l.length - n = 0 by omega, show l.length + 1 - n = 0 by omega]
    rfl

/-- While CLOSED the window has the last of them. -/
def Recorded.Windowed (r : Recorded) : Prop :=
  r.breaker.state = .closed →
    r.breaker.outcomes = r.outcomes.rtake r.breaker.config.windowSize.toNat

theorem pushOutcome_windowed {r : Recorded} (h : r.Windowed) (hclosed : r.breaker.state = .closed)
    (hwindow : 1 ≤ r.breaker.config.windowSize) (ok : Bool) : (r.breaker.pushOutcome ok).outcomes =
      (r.outcomes ++ [ok]).rtake r.breaker.config.windowSize.toNat := by
  rw [← rtake_push r.outcomes _ (by omega), ← h hclosed]
  show (if r.breaker.config.windowSize < _ then _ else _) = _
  refine if_congr ?_ rfl rfl
  omega

theorem Recorded.Windowed.call {r : Recorded} (h : r.Windowed)
    (hwindow : 1 ≤ r.breaker.config.windowSize) (c : Call) : (r.call c).Windowed := by
  unfold Windowed Recorded.call
  dsimp only
  rcases c.cases_eq r.breaker with ⟨houtcome, -, happly⟩ | ⟨ok, houtcome, happly⟩
  · rw [houtcome, happly]
    have hstep := allowStep r.breaker c.now
    generalize r.breaker.allowRequest c.now = a at hstep
    cases hstep with
    | closed hstate =>
      rw [if_neg (by rw [hstate]; decide), Option.toList_none, List.append_nil]
      exact h
    | cooling hstate => intro hclosed; rw [hstate] at hclosed; cases hclosed
    | probe => intro hclosed; cases hclosed
    | probing hstate => intro hclosed; rw [hstate] at hclosed; cases hclosed
    | noProbe hstate => intro hclosed; rw [hstate] at hclosed; cases hclosed
  · rw [houtcome, happly]
    have hstep := recordStep r.breaker c.now ok
    generalize r.breaker.record c.now ok = b at hstep
    cases hstep with
    | kept hstate =>
      intro _
      rw [if_neg (fun hreset => by rw [hstate] at hreset; cases hreset.1), Option.toList_some]
      exact pushOutcome_windowed h hstate hwindow ok
    | opens => intro hclosed; cases hclosed
    | ignored hstate => intro hclosed; rw [pushOutcome_state, hstate] at hclosed; cases hclosed
    | recovered hstate =>
      intro _
      rw [if_pos ⟨hstate, rfl⟩, List.rtake_nil]
    | reopened => intro hclosed; cases hclosed

theorem windowed_recorded (config : Config) (hwindow : 1 ≤ config.windowSize) (calls : List Call) :
    (recorded config calls).Windowed := by
  induction calls using List.reverseRecOn with
  | nil => intro _; exact (List.rtake_nil _).symm
  | append_singleton calls c ih =>
    unfold recorded at ih ⊢
    rw [List.foldl_append]
    refine ih.call ?_ c
    rw [← recorded, recorded_breaker, after_config]
    exact hwindow

/-- The full window and the threshold, on the outcomes themselves. -/
theorem trips_iff {l : List Bool} (hconfig : b.config = config) (hwindow : 1 ≤ config.windowSize)
    (h : b.outcomes = l.rtake config.windowSize.toNat) :
    b.Trips ↔ config.windowSize ≤ l.length ∧ config.errorThreshold * config.windowSize <
      ((l.rtake config.windowSize.toNat).countP (!·) : ℕ) := by
  have hlength : b.outcomes.length = min config.windowSize.toNat l.length := by
    rw [h, List.rtake, List.length_drop]
    omega
  have hfull : config.windowSize ≤ b.outcomes.length ↔ config.windowSize ≤ l.length := by
    rw [hlength]
    omega
  unfold Trips
  rw [hconfig, hfull]
  refine and_congr_right fun hle => ?_
  have hexact : (b.outcomes.length : ℤ) = config.windowSize := by
    rw [hlength]
    omega
  have hne : b.outcomes ≠ [] := by
    intro hnil
    rw [hnil, List.length_nil] at hexact
    omega
  have hcast : (b.outcomes.length : ℚ) = config.windowSize := by rw [← hexact]; rfl
  have hpos : (0 : ℚ) < config.windowSize := by exact_mod_cast hwindow
  rw [hcast, lt_div_iff₀ hpos, ← h]
  exact and_iff_right hne

/-! ## Outcomes recorded while OPEN or HALF_OPEN -/

theorem allowRequest_outcomes (hclosed : b.state ≠ .closed) (os : List Bool) :
    (({ b with outcomes := os } : CircuitBreaker).allowRequest now).1 =
      { (b.allowRequest now).1 with outcomes := os } ∧ (b.allowRequest now).1.state ≠ .closed := by
  refine ⟨?_, allowRequest_ne_closed hclosed now⟩
  obtain ⟨config, state, outcomes, openedAt, probeInFlight⟩ := b
  unfold allowRequest
  cases state with
  | closed => rfl
  | opened => dsimp only; split_ifs <;> rfl
  | halfOpen => dsimp only; split_ifs <;> rfl

theorem record_outcomes (hclosed : b.state ≠ .closed) (os : List Bool) (now : ℕ) (ok : Bool) :
    ∃ os', ({ b with outcomes := os } : CircuitBreaker).record now ok =
      { b.record now ok with outcomes := os' } ∧
      ((b.record now ok).state = .closed → os' = (b.record now ok).outcomes) := by
  obtain ⟨config, state, outcomes, openedAt, probeInFlight⟩ := b
  cases state with
  | closed => exact absurd rfl hclosed
  | opened =>
    rw [record_of_opened rfl, record_of_opened rfl]
    exact ⟨_, rfl, by rintro ⟨⟩⟩
  | halfOpen =>
    cases ok with
    | true =>
      rw [record_true_of_halfOpen rfl, record_true_of_halfOpen rfl]
      exact ⟨[], rfl, fun _ => rfl⟩
    | false =>
      rw [record_false_of_halfOpen rfl, record_false_of_halfOpen rfl]
      exact ⟨_, rfl, by rintro ⟨⟩⟩

/-- What is in the window of a breaker that is not CLOSED plays no part in any later call. -/
theorem after_outcomes (calls : List Call) {os : List Bool} (h : b.state = .closed → os = b.outcomes) :
    ∃ os', after { b with outcomes := os } calls = { b.after calls with outcomes := os' } := by
  induction calls generalizing b os with
  | nil => exact ⟨os, rfl⟩
  | cons c calls ih =>
    have hcall : ∃ os', c.apply { b with outcomes := os } = { c.apply b with outcomes := os' } ∧
        ((c.apply b).state = .closed → os' = (c.apply b).outcomes) := by
      by_cases hclosed : b.state = .closed
      · have hsame : ({ b with outcomes := os } : CircuitBreaker) = b := by rw [h hclosed]
        exact ⟨(c.apply b).outcomes, by rw [hsame], fun _ => rfl⟩
      · cases c with
        | allowRequest now =>
          obtain ⟨heq, hkept⟩ := allowRequest_outcomes hclosed os
          exact ⟨os, heq, fun hnow => absurd hnow hkept⟩
        | recordSuccess now => exact record_outcomes hclosed os now true
        | recordFailure now => exact record_outcomes hclosed os now false
    obtain ⟨os', heq, hos'⟩ := hcall
    show ∃ os'', after (c.apply { b with outcomes := os }) calls = _
    rw [heq]
    exact ih hos'

/-- **When a breaker opens.** A CLOSED breaker opens at a record exactly if the window is full, this
outcome included, and too many of the last outcomes are failures, where only outcomes since the
breaker was made or closed by its probe count. In another state the window plays no part in what
follows, so nothing recorded there does. -/
theorem opens_iff (config : Config) (hwindow : 1 ≤ config.windowSize) (calls : List Call) :
    let r := recorded config calls
    r.breaker = after { config } calls ∧
    (r.breaker.state = .closed → ∀ now ok,
      ((r.breaker.record now ok).state = .opened ↔
        config.windowSize ≤ (r.outcomes ++ [ok]).length ∧
          config.errorThreshold * config.windowSize <
            (((r.outcomes ++ [ok]).rtake config.windowSize.toNat).countP (!·) : ℕ))) ∧
    (r.breaker.state ≠ .closed → ∀ os rest,
      (after { r.breaker with outcomes := os } rest).state = (r.breaker.after rest).state) := by
  intro r
  have hbreaker : r.breaker = after { config } calls := recorded_breaker config calls
  have hconfig : r.breaker.config = config := by rw [hbreaker, after_config]
  refine ⟨hbreaker, fun hclosed now ok => ?_, fun hclosed os rest => ?_⟩
  · have hpushed : (r.breaker.pushOutcome ok).state = .closed := hclosed
    have hwindowed : (r.breaker.pushOutcome ok).outcomes =
        (r.outcomes ++ [ok]).rtake config.windowSize.toNat := by
      rw [pushOutcome_windowed (windowed_recorded config hwindow calls) hclosed
        (by rw [hconfig]; exact hwindow), hconfig]
    rw [← trips_iff (b := r.breaker.pushOutcome ok) hconfig hwindow hwindowed,
      record_of_ne_halfOpen (by rw [hclosed]; decide)]
    by_cases h : (r.breaker.pushOutcome ok).Trips
    · rw [evaluateState_of_trips hpushed h]
      exact iff_of_true rfl h
    · rw [evaluateState_of_not_trips hpushed h, hpushed]
      exact iff_of_false (by decide) h
  · obtain ⟨os', heq⟩ := after_outcomes rest fun hnow => absurd hnow hclosed
    rw [heq]

/-- Two failures after a success fill a window of two. -/
theorem opens_iff_twoFailures :
    let config : Config := { windowSize := 2 }
    ((recorded config [.recordSuccess 0, .allowRequest 1, .recordFailure 2]).breaker.record 3
      false).state = .opened := by
  intro config
  have hiff := (opens_iff config (by decide)
    [.recordSuccess 0, .allowRequest 1, .recordFailure 2]).2.1 (by decide +kernel) 3 false
  exact hiff.mpr (by decide +kernel)

/-! ## Admission -/

/-- HALF_OPEN is when a probe is in flight. -/
def Probing (b : CircuitBreaker) : Prop := b.state = .halfOpen ↔ b.probeInFlight = true

theorem Probing.apply (h : b.Probing) (c : Call) : (c.apply b).Probing := by
  rcases c.cases_eq b with ⟨-, -, happly⟩ | ⟨ok, -, happly⟩
  · rw [happly]
    have hstep := allowStep b c.now
    generalize b.allowRequest c.now = r at hstep
    cases hstep with
    | closed | cooling | probing => exact h
    | probe => exact iff_of_true rfl rfl
    | noProbe hstate => exact iff_of_true hstate rfl
  · rw [happly]
    have hstep := recordStep b c.now ok
    generalize b.record c.now ok = r at hstep
    cases hstep with
    | kept | ignored => exact h
    | opens hstate =>
      refine iff_of_false (by rintro ⟨⟩) fun hflight => ?_
      rw [h.mpr hflight] at hstate
      cases hstate
    | recovered => exact iff_of_false (by rintro ⟨⟩) (by rintro ⟨⟩)
    | reopened => exact iff_of_false (by rintro ⟨⟩) (by rintro ⟨⟩)

theorem Probing.after (h : b.Probing) (calls : List Call) : (b.after calls).Probing := by
  induction calls generalizing b with
  | nil => exact h
  | cons c calls ih => exact ih (h.apply c)

theorem openedAt_of_opens (h : b.state ≠ .opened) (hc : (c.apply b).state = .opened) :
    (c.apply b).openedAt = c.now := by
  rcases c.cases_eq b with ⟨-, -, happly⟩ | ⟨ok, -, happly⟩
  · rw [happly] at hc
    exact absurd hc (allowRequest_state (Or.inr h))
  · rw [happly] at hc ⊢
    have hstep := recordStep b c.now ok
    generalize b.record c.now ok = r at hstep hc
    cases hstep with
    | kept hstate => rw [pushOutcome_state, hstate] at hc; cases hc
    | opens => rfl
    | ignored hstate => exact absurd hstate h
    | recovered => cases hc
    | reopened => rfl

/-- An OPEN breaker stays OPEN, since the same moment, whatever is recorded and however often it is
asked during the cooldown. -/
theorem after_cooling (h : b.state = .opened)
    (hcooling : ∀ s, .allowRequest s ∈ mid → elapsedMs b.openedAt s < b.config.cooldownMs) :
    (b.after mid).state = .opened ∧ (b.after mid).openedAt = b.openedAt := by
  induction mid generalizing b with
  | nil => exact ⟨h, rfl⟩
  | cons c mid ih =>
    have hstays : (c.apply b).state = .opened ∧ (c.apply b).openedAt = b.openedAt ∧
        (c.apply b).config = b.config := by
      rcases c.cases_eq b with ⟨-, hc, happly⟩ | ⟨ok, -, happly⟩
      · have hearly := hcooling c.now (hc ▸ List.mem_cons_self)
        have hrefused : b.allowRequest c.now = (b, false) := by
          unfold allowRequest
          rw [h]
          exact if_neg (not_le.mpr hearly)
        rw [happly, hrefused]
        exact ⟨h, rfl, rfl⟩
      · rw [happly, record_of_opened h]
        exact ⟨h, rfl, rfl⟩
    obtain ⟨hstate, hopenedAt, hconfig⟩ := hstays
    have hrest := ih hstate fun s hs => by
      rw [hopenedAt, hconfig]
      exact hcooling s (List.mem_cons_of_mem _ hs)
    exact ⟨hrest.1, hrest.2.trans hopenedAt⟩

theorem after_asks (hstate : b.state = .halfOpen) (hprobe : b.probeInFlight = true)
    (hasks : ∀ d ∈ asks, ∃ s, d = .allowRequest s) : b.after asks = b := by
  induction asks with
  | nil => rfl
  | cons d asks ih =>
    obtain ⟨s, rfl⟩ := hasks d List.mem_cons_self
    have hrefused : b.allowRequest s = (b, false) := by
      unfold allowRequest
      rw [hstate]
      exact if_pos hprobe
    show ((b.allowRequest s).1).after asks = b
    rw [hrefused]
    exact ih fun d hd => hasks d (List.mem_cons_of_mem _ hd)

/-- The end of the cooldown that begins at the clock reading `t`. -/
def Config.deadline (config : Config) (t : ℕ) : ℤ := t + config.cooldownMs * 1000000

/-- The call `c` takes the breaker into OPEN. -/
def Opens (config : Config) (pre : List Call) (c : Call) : Prop :=
  (after { config } pre).state ≠ .opened ∧ (after { config } (pre ++ [c])).state = .opened

theorem Opens.cooling (h : Opens config pre c) (hclock : ∀ d ∈ mid, c.now ≤ d.now)
    (hmid : ∀ s : ℕ, .allowRequest s ∈ mid → (s : ℤ) < config.deadline c.now) :
    (after { config } (pre ++ c :: mid)).state = .opened ∧
      (after { config } (pre ++ c :: mid)).openedAt = c.now := by
  obtain ⟨hbefore, hopened⟩ := h
  rw [after_append] at hopened
  have hat : (c.apply (after { config } pre)).openedAt = c.now := openedAt_of_opens hbefore hopened
  have hconfig : (c.apply (after { config } pre)).config = config :=
    (after_config (after { config } pre) [c]).trans (after_config _ pre)
  rw [after_append]
  show (after (c.apply (after { config } pre)) mid).state = _ ∧
    (after (c.apply (after { config } pre)) mid).openedAt = _
  rw [← hat]
  refine after_cooling hopened fun s hs => ?_
  rw [hat, hconfig]
  have hlater : c.now ≤ s := hclock _ hs
  have hearly := hmid s hs
  unfold Config.deadline at hearly
  by_contra hle
  have := (le_elapsedMs_iff _ hlater).mp (not_lt.mp hle)
  omega

/-- **Who is let through.** With a clock that does not go back, once the breaker has opened at `t`
every request before the end of the cooldown is refused whatever is recorded, the first one from
then on is let through, and the next ones are refused until an outcome is recorded. HALF_OPEN is
when a probe is in flight. -/
theorem admission (config : Config) (calls : List Call)
    (hclock : calls.Pairwise fun c d => c.now ≤ d.now) :
    (∀ pre c mid (now : ℕ) rest, calls = pre ++ c :: (mid ++ .allowRequest now :: rest) →
      Opens config pre c →
      ((now : ℤ) < config.deadline c.now →
        ((after { config } (pre ++ c :: mid)).allowRequest now).2 = false) ∧
      (config.deadline c.now ≤ now →
        (∀ s : ℕ, .allowRequest s ∈ mid → (s : ℤ) < config.deadline c.now) →
        ((after { config } (pre ++ c :: mid)).allowRequest now).2 = true ∧
        ∀ asks later rest', rest = asks ++ .allowRequest later :: rest' →
          (∀ d ∈ asks, ∃ s, d = .allowRequest s) →
          ((after { config } (pre ++ c :: (mid ++ .allowRequest now :: asks))).allowRequest
            later).2 = false)) ∧
    ∀ pre, pre <+: calls →
      ((after { config } pre).state = .halfOpen ↔ (after { config } pre).probeInFlight = true) := by
  constructor
  · intro pre c mid now rest hcalls hopens
    -- all that comes after the opening is not before it, and the request not before `mid`
    rw [hcalls, List.pairwise_append, List.pairwise_cons, List.pairwise_append] at hclock
    obtain ⟨-, ⟨hc, -, -, hmid⟩, -⟩ := hclock
    have hlater : c.now ≤ now := hc _ (List.mem_append_right _ List.mem_cons_self)
    have hmidLater : ∀ d ∈ mid, c.now ≤ d.now := fun d hd => hc d (List.mem_append_left _ hd)
    have hmidEarlier : ∀ d ∈ mid, d.now ≤ now := fun d hd => hmid d hd _ List.mem_cons_self
    have hconfig : (after { config } (pre ++ c :: mid)).config = config := after_config _ _
    have hanswer : ∀ hcool : (∀ s : ℕ, .allowRequest s ∈ mid → (s : ℤ) < config.deadline c.now),
        (after { config } (pre ++ c :: mid)).allowRequest now =
          if config.deadline c.now ≤ now then
            ({ after { config } (pre ++ c :: mid) with state := .halfOpen, probeInFlight := true },
              true)
          else (after { config } (pre ++ c :: mid), false) := by
      intro hcool
      obtain ⟨hstate, hat⟩ := hopens.cooling hmidLater hcool
      unfold allowRequest
      rw [hstate]
      dsimp only
      rw [hat, hconfig]
      exact if_congr (le_elapsedMs_iff _ hlater) rfl rfl
    refine ⟨fun hearly => ?_, fun hdue hcool => ⟨?_, ?_⟩⟩
    · rw [hanswer fun s hs => lt_of_le_of_lt (by exact_mod_cast hmidEarlier _ hs) hearly,
        if_neg (not_le.mpr hearly)]
    · rw [hanswer hcool, if_pos hdue]
    · intro asks later rest' _ hasks
      have hprobe := hanswer hcool
      rw [if_pos hdue] at hprobe
      have hlist : pre ++ c :: (mid ++ .allowRequest now :: asks) =
          (pre ++ c :: mid) ++ .allowRequest now :: asks := by simp
      rw [hlist, after_append]
      show ((after ((after { config } (pre ++ c :: mid)).allowRequest now).1 asks).allowRequest
        later).2 = false
      rw [hprobe, after_asks rfl rfl hasks]
      rfl
  · intro pre _
    exact Probing.after (b := { config }) (iff_of_false (by rintro ⟨⟩) (by rintro ⟨⟩)) pre

/-- A window of one, a failure, a success too late, and requests around the end of the cooldown. -/
theorem admission_windowOfOne :
    let config : Config := { windowSize := 1 }
    let late : List Call := [.allowRequest 7, .recordSuccess 8]
    ((after { config } (.recordFailure 5 :: late)).allowRequest 4999999999).2 = false ∧
    ((after { config } (.recordFailure 5 :: late)).allowRequest 5000000005).2 = true := by
  intro config late
  have hopens : Opens config [] (.recordFailure 5) := ⟨by decide +kernel, by decide +kernel⟩
  exact ⟨((admission config (.recordFailure 5 :: (late ++ [.allowRequest 4999999999])) (by decide)).1
      [] (.recordFailure 5) late 4999999999 [] rfl hopens).1 (by decide),
    (((admission config (.recordFailure 5 :: (late ++ [.allowRequest 5000000005])) (by decide)).1
      [] (.recordFailure 5) late 5000000005 [] rfl hopens).2 (by decide) (by simp [late]; decide)).1⟩

end CircuitBreaker

end LlmGateway.Gateway
