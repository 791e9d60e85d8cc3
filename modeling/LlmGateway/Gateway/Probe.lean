import LlmGateway.Gateway.BreakerDiscipline
import LlmGateway.Gateway.PartialDelivery

/-!
# The probe of a half-open circuit

A circuit is HALF_OPEN only as long as some call owes it an outcome.

1. `Awaited`: after an answer that allows it, nothing has been recorded yet. By the protocol of a
   plain call (`phase_of_plain`) that is a phase other than `idle`.
2. `circuitMove`: what a step of a call does to one circuit, with its events about the replica.
3. `halfOpen_awaited`: the invariant of all runs.
-/

namespace LlmGateway.Gateway

open Transition Replica

/-- Of these events, the last answer of `AllowRequest` that let the call through has no outcome
recorded after it. -/
def Awaited (events : List DispatchEvent) : Prop :=
  ∃ pre post, events = pre ++ .asked true :: post ∧ ∀ ok, .recorded ok ∉ post

variable {hash : List UInt8 → ℕ} {g g' g₀ : GatewayState} {c : InferChoice} {f f' : InferCall}
  {id : String}

/-! ## Phases -/

theorem Awaited.snoc {events : List DispatchEvent} {e : DispatchEvent} (h : Awaited events)
    (he : ∀ ok, e ≠ .recorded ok) : Awaited (events ++ [e]) := by
  obtain ⟨pre, post, rfl, hpost⟩ := h
  refine ⟨pre, post ++ [e], by simp, fun ok hok => ?_⟩
  rcases List.mem_append.mp hok with hok | hok
  · exact hpost ok hok
  · exact he ok (List.mem_singleton.mp hok).symm

theorem awaited_of_phase {events : List DispatchEvent} {phase : Phase}
    (h : events.foldlM Phase.next .idle = some phase) (hphase : phase ≠ .idle) :
    Awaited events := by
  induction events using List.reverseRecOn generalizing phase with
  | nil =>
    cases h
    exact absurd rfl hphase
  | append_singleton events e ih =>
    rw [List.foldlM_append] at h
    obtain ⟨before, hbefore, hlast⟩ := Option.bind_eq_some_iff.mp h
    have hnext : before.next e = some phase := by simpa using hlast
    by_cases hidle : before = .idle
    · -- the answer that lets the call through
      subst hidle
      cases e with
      | asked allowed =>
        cases allowed with
        | true => exact ⟨events, [], rfl, fun ok hok => by cases hok⟩
        | false =>
          cases hnext
          exact absurd rfl hphase
      | opened | ended | recorded => cases hnext
    · refine (ih hbefore hidle).snoc fun ok hok => ?_
      subst hok
      cases before with
      | idle => exact hidle rfl
      | allowed | streaming => cases hnext
      | ended failed =>
        have hidle : (if ok = !failed then some Phase.idle else none) = some phase := hnext
        split_ifs at hidle
        cases hidle
        exact hphase rfl

/-- A call does not get back to `idle` without recording an outcome. -/
theorem phase_ne_idle {events : List DispatchEvent} {phase phase' : Phase}
    (h : events.foldlM Phase.next phase = some phase') (hphase : phase ≠ .idle)
    (hnone : ∀ ok, .recorded ok ∉ events) : phase' ≠ .idle := by
  induction events generalizing phase with
  | nil =>
    cases h
    exact hphase
  | cons e events ih =>
    rw [List.foldlM_cons] at h
    obtain ⟨next, hnext, hrest⟩ := Option.bind_eq_some_iff.mp h
    refine ih hrest ?_ fun ok hok => hnone ok (List.mem_cons_of_mem _ hok)
    rintro rfl
    cases e with
    | recorded ok => exact hnone ok List.mem_cons_self
    | asked | opened | ended => cases phase <;> first | cases hnext | exact hphase rfl

theorem plain_of_step (hs : f.step hash g c = some (g', f')) (h : f'.Plain) : f.Plain := by
  cases InferCall.step_output hs with
  | same hplain => exact hplain h
  | stream hplain => exact hplain
  | hedged s hs' => exact absurd hs' (h s)

theorem InferCall.Plain.not_opensHedged (h : f.Plain) : ¬ f.OpensHedged c := by
  rintro ⟨-, ⟨s, hs⟩ | ⟨r, x, n, hs | ⟨winnerId, hs⟩, -⟩⟩ <;> exact h _ hs

theorem phase_of_plain {es : List GatewayLabel} {p : GatewayPool}
    (hrun : Run (gatewayProgram hash).step ⟨g₀, []⟩ es p) {i : ℕ}
    (hi : p.calls[i]? = some (.infer f)) (hplain : f.Plain) :
    f.Orderly ∧ ∀ id, Phase.after id (dispatchEvents hash g₀ i es) = some (f.phase id) := by
  refine Program.history_invariant (J := fun _ _ => True)
    (Q := fun events t => ∀ f, t = .infer f → f.Plain → f.Orderly ∧
      ∀ id, Phase.after id events = some (f.phase id)) (fun _ _ _ _ _ => trivial) ?_ ?_ hrun
    hi f rfl hplain
  · rintro (request | _) f heq -
    · cases heq
      exact ⟨.calm (fun s hs => by cases hs) (fun s hs => by cases hs) rfl, fun id => rfl⟩
    · cases heq
  · intro g t c g' t' events _ hQ hs f₁ heq hplain'
    rcases gatewayCall_cases hs with ⟨f, f', rfl, rfl, hf⟩ | ⟨b, b', rfl, rfl, -⟩
    · cases heq
      have hplain := plain_of_step hf hplain'
      obtain ⟨horderly, hphase⟩ := hQ f rfl hplain
      obtain ⟨horderly', hstep⟩ := horderly.step hplain.not_opensHedged hf
      refine ⟨horderly', fun id => ?_⟩
      rw [after_append, hphase, Option.bind_some]
      exact hstep id
    · cases heq

/-! ## One circuit in one step -/

/-- What a step of a call does to the circuit of a replica: nothing, and it records nothing there;
or it records an outcome; or it asks, and goes by the answer. -/
inductive CircuitMove (g : GatewayState) (f : InferCall) (c : InferChoice) (g' : GatewayState)
    (id : String) : Prop
  | quiet : g'.breakers.getOrCreate id = g.breakers.getOrCreate id →
      (∀ ok, .recorded ok ∉ about id (f.events g c)) → CircuitMove g f c g' id
  | records (ok : Bool) :
      g'.breakers.getOrCreate id = (g.breakers.getOrCreate id).record g.now ok →
      CircuitMove g f c g' id
  | asks : f.Plain →
      g'.breakers.getOrCreate id = ((g.breakers.getOrCreate id).allowRequest g.now).1 →
      about id (f.events g c) = [.asked ((g.breakers.getOrCreate id).allowRequest g.now).2] →
      CircuitMove g f c g' id

theorem mem_about {events : List (String × DispatchEvent)} {e : DispatchEvent} :
    e ∈ about id events ↔ (id, e) ∈ events := by
  simp [about]

/-- `InferHedged` records what it records by its pending operations. -/
theorem hedge_events_unrecorded {s : HedgeStage} {ok : Bool} :
    (id, .recorded ok) ∉ s.events c := by
  have hrace : ∀ r : Race, (id, .recorded ok) ∉ r.events c := by
    intro r h
    unfold Race.events at h
    split at h
    · split_ifs at h <;> simp at h
    · cases h
  have hcancel : ∀ x : Racer, (id, .recorded ok) ∉ x.cancel := by
    intro x h
    unfold Racer.cancel at h
    split_ifs at h <;> simp at h
  intro h
  unfold HedgeStage.events at h
  split at h
  · simp at h
  · exact hrace _ h
  · split_ifs at h
    · unfold Race.dropped at h
      split_ifs at h
      · exact hcancel _ h
      · exact hcancel _ h
      · rcases List.mem_append.mp h with h | h <;> exact hcancel _ h
    · exact hrace _ h
  · simp at h
  · cases h

theorem operation_move {op : Operation} {ops : List Operation} (hpending : f.pending = op :: ops)
    (id : String) : CircuitMove g f c (op.apply g) id := by
  have hrecord : ∀ id' ok, f.events g c = [(id', .recorded ok)] →
      (op.apply g).breakers = g.breakers.set id' ((g.breakers.getOrCreate id').record g.now ok) →
      CircuitMove g f c (op.apply g) id := by
    intro id' ok hevents hset
    by_cases hid : id = id'
    · subst hid
      exact .records ok (by rw [hset, CircuitBreakerManager.getOrCreate_set])
    · refine .quiet (by rw [hset, CircuitBreakerManager.getOrCreate_set_of_ne hid]) fun ok' h => ?_
      rw [mem_about, hevents, List.mem_singleton] at h
      exact hid (Prod.mk.inj h).1
  have hquiet : f.events g c = [] → (op.apply g).breakers = g.breakers →
      CircuitMove g f c (op.apply g) id := by
    intro hevents hsame
    refine .quiet (by rw [hsame]) fun ok h => ?_
    rw [mem_about, hevents] at h
    cases h
  cases op with
  | incrementActive | decrementActive | notifyCapacityAvailable =>
    exact hquiet (by simp only [InferCall.events, hpending]) rfl
  | recordSuccess id' => exact hrecord id' true (by simp only [InferCall.events, hpending]) rfl
  | recordFailure id' => exact hrecord id' false (by simp only [InferCall.events, hpending]) rfl

theorem InferMove.breakers_eq (h : InferMove hash g c f g' f')
    (hnot : ∀ s, f.stage ≠ .infer (.allowing s)) : g'.breakers = g.breakers := by
  cases h with
  | allow hstage | refuse hstage => exact absurd hstage (hnot _)
  | _ => rfl

/-- Before the operations after its stream a call records nothing. -/
theorem events_unrecorded (hpending : f.pending = []) {ok : Bool} :
    (id, .recorded ok) ∉ f.events g c := by
  intro h
  unfold InferCall.events at h
  rw [hpending] at h
  dsimp only at h
  split at h
  · simp at h
  · simp at h
  · exact hedge_events_unrecorded h
  · cases h

theorem allowing_move {s : Selection} (hstage : f.stage = .infer (.allowing s))
    (hpending : f.pending = [])
    (hbreakers : g'.breakers = g.breakers.set s.replicaId
      ((g.breakers.getOrCreate s.replicaId).allowRequest g.now).1) (id : String) :
    CircuitMove g f c g' id := by
  by_cases hid : id = s.replicaId
  · subst hid
    refine .asks (InferCall.plain_of_infer hstage) ?_ ?_
    · rw [hbreakers, CircuitBreakerManager.getOrCreate_set]
    · unfold InferCall.events
      rw [hpending, hstage]
      simp [about, CircuitBreakerManager.allowRequest]
  · refine .quiet ?_ fun ok h => events_unrecorded hpending (mem_about.mp h)
    rw [hbreakers, CircuitBreakerManager.getOrCreate_set_of_ne hid]

/-- **One step of a call** and one circuit. -/
theorem circuitMove (hs : f.step hash g c = some (g', f')) (id : String) :
    CircuitMove g f c g' id := by
  cases hpending : f.pending with
  | cons op ops =>
    unfold InferCall.step at hs
    rw [hpending] at hs
    cases hs
    exact operation_move hpending id
  | nil =>
    have hquiet : g'.breakers = g.breakers → CircuitMove g f c g' id := by
      intro hsame
      exact .quiet (by rw [hsame]) fun ok h => events_unrecorded hpending (mem_about.mp h)
    cases stepMove hs with
    | pending hne => cases hpending.symm.trans hne
    | enter | enterHedged => exact hquiet rfl
    | infer _ hmove =>
      by_cases hallowing : ∃ s, f.stage = .infer (.allowing s)
      · obtain ⟨s, hstage⟩ := hallowing
        refine allowing_move hstage hpending ?_ id
        rw [step_infer hpending hstage] at hs
        simp only [InferCall.inferStep] at hs
        cases hs
        rfl
      · exact hquiet (hmove.breakers_eq fun s hs => hallowing ⟨s, hs⟩)
    | hedged _ _ hhedge => exact hquiet (InferCall.hedgeStep_effect hhedge).2.2.1

/-! ## Every run -/

/-- Each HALF_OPEN circuit has a call of `Infer` that was let through to its replica and has not
recorded an outcome. -/
def Probed (p : GatewayPool) : Prop :=
  ∀ id, (p.shared.breakers.getOrCreate id).state = .halfOpen →
    ∃ (i : ℕ) (f : InferCall), p.calls[i]? = some (.infer f) ∧ f.Plain ∧ f.phase id ≠ .idle

section

variable {es : List GatewayLabel} {p p' : GatewayPool} {l : GatewayLabel}

theorem plain_step (hplain : f.Plain) (hentered : f.pending = [] → f.stage ≠ .entered)
    (hs : f.step hash g c = some (g', f')) : f'.Plain := by
  unfold InferCall.step at hs
  split at hs
  · cases hs
    exact hplain
  · rename_i hpending
    split at hs
    · rename_i hstage
      exact absurd hstage (hentered hpending)
    · rename_i t hstage
      obtain ⟨t', ht'⟩ := (inferMove hstage hs).stage
      exact InferCall.plain_of_infer ht'
    · rename_i t hstage
      exact absurd hstage (hplain t)

theorem owing_step (horderly : f.Orderly) (hplain : f.Plain) (hphase : f.phase id ≠ .idle)
    (hs : f.step hash g c = some (g', f')) (hnone : ∀ ok, .recorded ok ∉ about id (f.events g c)) :
    f'.Plain ∧ f'.phase id ≠ .idle := by
  refine ⟨plain_step hplain (fun hpending hstage => hphase ?_) hs,
    phase_ne_idle ((horderly.step hplain.not_opensHedged hs).2 id) hphase hnone⟩
  rw [phase_of_no_report (by simp [hpending]), hstage]
  rfl

/-- Who asks owed nothing, and owes an outcome if it is let through. -/
theorem asking_step (horderly : f.Orderly) (hplain : f.Plain) {allowed : Bool}
    (hevents : about id (f.events g c) = [.asked allowed])
    (hs : f.step hash g c = some (g', f')) :
    f.phase id = .idle ∧ f'.phase id = if allowed then .allowed else .idle := by
  have hphase := (horderly.step hplain.not_opensHedged hs).2 id
  rw [hevents] at hphase
  have hnext : (f.phase id).next (.asked allowed) = some (f'.phase id) := by simpa using hphase
  cases hbefore : f.phase id with
  | idle =>
    rw [hbefore] at hnext
    exact ⟨rfl, (Option.some.inj hnext).symm⟩
  | allowed | streaming | ended =>
    rw [hbefore] at hnext
    cases hnext

theorem probed_step (hrun : Run (gatewayProgram hash).step ⟨g₀, []⟩ es p) (h : Probed p)
    (hs : (gatewayProgram hash).step p l = some p') : Probed p' := by
  cases Program.step_cases hs with
  | spawn x =>
    intro id hhalf
    obtain ⟨i, f, hi, hf⟩ := h id hhalf
    have hlt := (List.getElem?_eq_some_iff.mp hi).1
    exact ⟨i, f, (List.getElem?_append_left hlt).trans hi, hf⟩
  | @env e _ henv =>
    intro id hhalf
    cases henv
    cases e <;> exact h id hhalf
  | @call j c t t' g' hj ht =>
    intro id hhalf
    have hlt := (List.getElem?_eq_some_iff.mp hj).1
    have hhalf' : (g'.breakers.getOrCreate id).state = .halfOpen := hhalf
    rcases gatewayCall_cases ht with ⟨u, u', rfl, rfl, hu⟩ | ⟨b, b', rfl, rfl, -, hsame⟩
    · -- a call that owed the outcome still does, or it is the one that takes the step
      have hold : (p.shared.breakers.getOrCreate id).state = .halfOpen →
          (∀ ok, .recorded ok ∉ about id (u.events p.shared c)) →
          ∃ (i : ℕ) (f : InferCall), (p.calls.set j (.infer u'))[i]? = some (.infer f) ∧
            f.Plain ∧ f.phase id ≠ .idle := by
        intro hhalf hnone
        obtain ⟨i, f, hi, hplain, hphase⟩ := h id hhalf
        by_cases hij : j = i
        · subst hij
          rw [hj] at hi
          cases hi
          exact ⟨j, u', List.getElem?_set_self hlt,
            owing_step (phase_of_plain hrun hj hplain).1 hplain hphase hu hnone⟩
        · exact ⟨i, f, (List.getElem?_set_ne hij).trans hi, hplain, hphase⟩
      cases circuitMove hu id with
      | quiet hcircuit hnone =>
        rw [hcircuit] at hhalf'
        exact hold hhalf' hnone
      | records ok hcircuit =>
        rw [hcircuit] at hhalf'
        exact absurd hhalf' (CircuitBreaker.record_halfOpen ok)
      | asks hplain hcircuit hevents =>
        obtain ⟨hidle, hafter⟩ := asking_step (phase_of_plain hrun hj hplain).1 hplain hevents hu
        rw [hcircuit] at hhalf'
        by_cases hallowed : ((p.shared.breakers.getOrCreate id).allowRequest p.shared.now).2 = true
        · -- it was let through just now
          rw [if_pos hallowed] at hafter
          refine ⟨j, u', List.getElem?_set_self hlt, plain_step hplain ?_ hu, by rw [hafter]; simp⟩
          intro hpending hstage
          unfold InferCall.events at hevents
          rw [hpending, hstage] at hevents
          cases hevents
        · -- it was refused, and the circuit was HALF_OPEN before
          refine hold ?_ fun ok hok => ?_
          · have hmove := CircuitBreaker.allowStep (p.shared.breakers.getOrCreate id) p.shared.now
            generalize (p.shared.breakers.getOrCreate id).allowRequest p.shared.now = r at *
            cases hmove with
            | closed hstate | cooling hstate | probing hstate => exact hhalf'
            | probe | noProbe => exact absurd rfl hallowed
          · rw [hevents, List.mem_singleton] at hok
            cases hok
    · rw [hsame] at hhalf'
      obtain ⟨i, f, hi, hplain, hphase⟩ := h id hhalf'
      refine ⟨i, f, ?_, hplain, hphase⟩
      by_cases hij : j = i
      · subst hij
        rw [hj] at hi
        cases hi
      · exact (List.getElem?_set_ne hij).trans hi

theorem probed_of_run (h₀ : ∀ id, (g₀.breakers.getOrCreate id).state ≠ .halfOpen)
    (hrun : Run (gatewayProgram hash).step ⟨g₀, []⟩ es p) : Probed p := by
  induction hrun with
  | nil => exact fun id hid => absurd hid (h₀ id)
  | snoc hrun hs ih => exact probed_step hrun ih hs

/-- **The probe of a half-open circuit.** In every reachable state in which the circuit of a replica
is HALF_OPEN, some call of `Infer` got true from `AllowRequest` for it and has not recorded an
outcome since; that call has not returned. -/
theorem halfOpen_awaited (hash : List UInt8 → ℕ) (virtualNodes : ℤ)
    (config : CircuitBreaker.Config) (maxSize : ℤ) (es : List GatewayLabel) (p : GatewayPool)
    (hrun : Run (gatewayProgram hash).step (newGateway virtualNodes config maxSize) es p)
    (id : String) (hhalf : (p.shared.breakers.getOrCreate id).state = .halfOpen) :
    ∃ (i : ℕ) (f : InferCall), p.calls[i]? = some (.infer f) ∧ f.Plain ∧ ¬ f.Finished ∧
      Awaited (about id
        (dispatchEvents hash (newGateway virtualNodes config maxSize).shared i es)) := by
  have hprobed : Probed p := by
    refine probed_of_run (fun id => ?_) hrun
    show CircuitBreaker.State.closed ≠ .halfOpen
    exact nofun
  obtain ⟨i, f, hi, hplain, hphase⟩ := hprobed id hhalf
  have hafter := (phase_of_plain hrun hi hplain).2 id
  exact ⟨i, f, hi, hplain, fun hfinished => hphase (phase_of_finished hfinished id),
    awaited_of_phase hafter hphase⟩

end

/-- A window of one outcome, and no cooldown. -/
def quickBreaker : CircuitBreaker.Config := { windowSize := 1, cooldownMs := 0 }

/-- The first call fails at a replica and opens its circuit; a second one is let through. -/
def probing : List GatewayLabel :=
  twoReplicas ++ attemptWith [1] ⟨[], false⟩ ++
  [.spawn (.infer ⟨"client", "hello", 2, false⟩), .call 1 {}, .call 1 {}, .call 1 {},
    .call 1 { draws := [2] }, .call 1 {}]

theorem halfOpen_awaited_probing :
    ∃ p, Run (gatewayProgram fun _ => 0).step (newGateway 150 quickBreaker 100) probing p ∧
      (p.shared.breakers.getOrCreate "replica-1").state = .halfOpen ∧
      ∃ (i : ℕ) (f : InferCall), p.calls[i]? = some (.infer f) ∧ ¬ f.Finished := by
  have hrun : Run (gatewayProgram fun _ => 0).step (newGateway 150 quickBreaker 100) probing _ :=
    run_get (by decide +kernel)
  have hhalf : (((exec (gatewayProgram fun _ => 0).step (newGateway 150 quickBreaker 100)
      probing).get (by decide +kernel)).shared.breakers.getOrCreate "replica-1").state =
        .halfOpen := by decide +kernel
  obtain ⟨i, f, hi, -, hunfinished, -⟩ := halfOpen_awaited _ _ _ _ _ _ hrun "replica-1" hhalf
  exact ⟨_, hrun, hhalf, i, f, hi, hunfinished⟩

end LlmGateway.Gateway
