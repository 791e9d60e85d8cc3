import LlmGateway.Gateway.Admission
import LlmGateway.Gateway.Probe
import LlmGateway.Gateway.BreakerCalls

/-!
# The circuits of a gateway

Under any interleaving the circuit of a replica is one `CircuitBreaker` under the calls about this
replica alone, in the order they are made and with clock readings that do not go back. So what holds
of a breaker under any calls holds of each circuit of a gateway. One consequence over the whole
gateway: while a circuit is open and cools down, no call of `Infer` comes by a stream to its
replica.
-/

namespace LlmGateway.Gateway

open Transition

/-- The call on a circuit breaker that the next step of a call makes, and for which replica. -/
def InferCall.breakerCall (g : GatewayState) (f : InferCall) :
    Option (String × CircuitBreaker.Call) :=
  match f.pending with
  | .recordSuccess id :: _ => some (id, .recordSuccess g.now)
  | .recordFailure id :: _ => some (id, .recordFailure g.now)
  | _ :: _ => none
  | [] =>
    match f.stage with
    | .infer (.allowing s) => some (s.replicaId, .allowRequest g.now)
    | _ => none

def GatewayCall.breakerCall (g : GatewayState) : GatewayCall → Option (String × CircuitBreaker.Call)
  | .infer f => f.breakerCall g
  | .rebuildRing _ => none

/-- The calls on the breaker of the replica in a step. -/
def callsOn (id : String) (p : GatewayPool) : GatewayLabel → List CircuitBreaker.Call
  | .call i _ => match p.calls[i]?.bind (GatewayCall.breakerCall p.shared) with
    | some (id', call) => if id' = id then [call] else []
    | none => []
  | _ => []

/-- The calls on the breaker of the replica in a run. -/
def breakerCalls (hash : List UInt8 → ℕ) (p : GatewayPool) (id : String) (es : List GatewayLabel) :
    List CircuitBreaker.Call :=
  trace (gatewayProgram hash).step (callsOn id) p es

variable {hash : List UInt8 → ℕ} {g g' : GatewayState} {c : InferChoice} {f f' : InferCall}

/-! ## One step -/

/-- A manager after a call on one of its breakers. -/
def CircuitBreakerManager.after (m : CircuitBreakerManager) :
    Option (String × CircuitBreaker.Call) → CircuitBreakerManager
  | some (id, call) => m.set id (call.apply (m.getOrCreate id))
  | none => m

theorem breakers_step (hs : f.step hash g c = some (g', f')) :
    g'.breakers = g.breakers.after (f.breakerCall g) := by
  unfold InferCall.breakerCall
  cases stepMove hs with
  | @pending op ops hpending =>
    rw [hpending]
    cases op <;> rfl
  | enter hpending hstage | enterHedged hpending hstage =>
    rw [hpending, hstage]
    rfl
  | hedged hpending hstage hhedge =>
    rw [hpending, hstage]
    exact (InferCall.hedgeStep_effect hhedge).2.2.1
  | infer hpending hmove =>
    rw [hpending]
    cases hmove with
    | allow hstage | refuse hstage =>
      rw [hstage]
      rfl
    | cancel hstage | select hstage | leave hstage | scan hstage | starve hstage | choose hstage
    | reject hstage | pass hstage | block hstage | serve hstage | giveUp hstage | rescan hstage
    | retry hstage | rechoose hstage | stream hstage =>
      rw [hstage]
      rfl

variable {p p' q : GatewayPool} {l : GatewayLabel} {es fs : List GatewayLabel} {id : String}

theorem getOrCreate_after (m : CircuitBreakerManager) (o : Option (String × CircuitBreaker.Call)) :
    (m.after o).getOrCreate id = (m.getOrCreate id).after (match o with
      | some (id', call) => if id' = id then [call] else []
      | none => []) := by
  cases o with
  | none => rfl
  | some x =>
    by_cases hid : x.1 = id
    · dsimp only
      rw [if_pos hid, ← hid]
      exact CircuitBreakerManager.getOrCreate_set
    · dsimp only
      rw [if_neg hid]
      exact CircuitBreakerManager.getOrCreate_set_of_ne (Ne.symm hid)

/-- **One step of a circuit.** -/
theorem circuit_step (hs : (gatewayProgram hash).step p l = some p') (id : String) :
    p'.shared.breakers.getOrCreate id =
      (p.shared.breakers.getOrCreate id).after (callsOn id p l) := by
  cases Program.step_cases hs with
  | spawn x => rfl
  | @env d g' henv =>
    cases henv
    cases d <;> rfl
  | @call i c t t' g' hi ht =>
    simp only [callsOn, hi, Option.bind_some]
    cases t with
    | infer f =>
      obtain ⟨⟨g₁, f'⟩, hf, heq⟩ := Option.map_eq_some_iff.mp ht
      cases heq
      show g₁.breakers.getOrCreate id = _
      rw [breakers_step hf]
      exact getOrCreate_after _ _
    | rebuildRing b =>
      obtain ⟨⟨g₁, b'⟩, hb, heq⟩ := Option.map_eq_some_iff.mp ht
      cases heq
      show g₁.breakers.getOrCreate id = _
      rw [(RebuildCall.step_shared hb).2]
      rfl

theorem now_of_mem_callsOn {call : CircuitBreaker.Call} (hcall : call ∈ callsOn id p l) :
    call.now = p.shared.now := by
  unfold callsOn at hcall
  split at hcall
  · split at hcall
    · rename_i i c _ id' call' hbind
      split_ifs at hcall
      · rw [List.mem_singleton.mp hcall]
        obtain ⟨t, -, ht⟩ := Option.bind_eq_some_iff.mp hbind
        cases t with
        | infer f =>
          simp only [GatewayCall.breakerCall, InferCall.breakerCall] at ht
          split at ht
          · cases ht; rfl
          · cases ht; rfl
          · cases ht
          · split at ht <;> cases ht
            rfl
        | rebuildRing => cases ht
      · cases hcall
    · cases hcall
  · cases hcall

/-! ## Every run -/

/-- **A circuit in a run** goes through the calls about its replica. -/
theorem circuit_run (hrun : Run (gatewayProgram hash).step p es q) (id : String) :
    q.shared.breakers.getOrCreate id =
      (p.shared.breakers.getOrCreate id).after (breakerCalls hash p id es) := by
  induction hrun with
  | nil => rfl
  | @snoc es l q q' hrun hs ih =>
    unfold breakerCalls at ih ⊢
    rw [circuit_step hs, trace_snoc hrun, CircuitBreaker.after_append, ih]

theorem breakerCalls_ordered (hrun : Run (gatewayProgram hash).step p es q) (id : String) :
    (breakerCalls hash p id es).Pairwise (fun c d => c.now ≤ d.now) ∧
      ∀ d ∈ breakerCalls hash p id es, d.now ≤ q.shared.now := by
  induction hrun with
  | nil => exact ⟨.nil, fun d hd => by cases hd⟩
  | @snoc es l q q' hrun hs ih =>
    obtain ⟨hordered, hle⟩ := ih
    have hnow := now_le_step hs
    unfold breakerCalls at hordered hle ⊢
    rw [trace_snoc hrun]
    refine ⟨List.pairwise_append.mpr ⟨hordered, ?_, fun c hc d hd => ?_⟩, fun d hd => ?_⟩
    · refine List.pairwise_of_forall_mem_list fun c hc d hd => ?_
      rw [now_of_mem_callsOn hc, now_of_mem_callsOn hd]
    · rw [now_of_mem_callsOn hd]
      exact hle c hc
    · rcases List.mem_append.mp hd with hd | hd
      · exact (hle d hd).trans hnow
      · exact (now_of_mem_callsOn hd).le.trans hnow

/-- A call at `AllowRequest` goes on to its stream if the circuit lets it, and excludes the replica
otherwise. -/
theorem InferCall.asks {s : Selection} (hpending : f.pending = [])
    (hstage : f.stage = .infer (.allowing s)) (hs : f.step hash g c = some (g', f')) :
    if ((g.breakers.getOrCreate s.replicaId).allowRequest g.now).2 then
      f'.stage = .infer (.streaming s)
    else f'.stage = .infer .looping ∧ s.replicaId ∈ f'.excluded := by
  rw [step_infer hpending hstage] at hs
  simp only [InferCall.inferStep] at hs
  show if (g.breakers.allowRequest g.now s.replicaId).2 then _ else _
  cases hallowed : (g.breakers.allowRequest g.now s.replicaId).2 with
  | true =>
    rw [hallowed, if_pos rfl] at hs
    cases hs
    rfl
  | false =>
    rw [hallowed, if_neg Bool.false_ne_true] at hs
    cases hs
    exact ⟨rfl, List.mem_append_right _ (List.mem_singleton.mpr rfl)⟩

/-- **Independent circuits.** In every run of a gateway, under any interleaving of the calls: the
circuit of a replica is what one breaker becomes under the calls about this replica alone, in their
order and with clock readings that do not go back. A call that asks gets the answer of that breaker:
it goes on to its stream, or excludes the replica. -/
theorem circuits_independent (hash : List UInt8 → ℕ) (virtualNodes : ℤ)
    (config : CircuitBreaker.Config) (maxSize : ℤ) (es : List GatewayLabel) (p : GatewayPool)
    (hrun : Run (gatewayProgram hash).step (newGateway virtualNodes config maxSize) es p)
    (id : String) :
    p.shared.breakers.getOrCreate id = CircuitBreaker.after { config }
      (breakerCalls hash (newGateway virtualNodes config maxSize) id es) ∧
    (breakerCalls hash (newGateway virtualNodes config maxSize) id es).Pairwise
      (fun c d => c.now ≤ d.now) ∧
    ∀ i f s, p.calls[i]? = some (.infer f) → f.pending = [] → f.stage = .infer (.allowing s) →
      s.replicaId = id → ∀ c p', (gatewayProgram hash).step p (.call i c) = some p' →
        ∃ f', p'.calls[i]? = some (.infer f') ∧
          if ((CircuitBreaker.after { config } (breakerCalls hash
            (newGateway virtualNodes config maxSize) id es)).allowRequest p.shared.now).2 then
            f'.stage = .infer (.streaming s)
          else f'.stage = .infer .looping ∧ id ∈ f'.excluded := by
  have hcircuit : p.shared.breakers.getOrCreate id = _ := circuit_run hrun id
  refine ⟨hcircuit, (breakerCalls_ordered hrun id).1, ?_⟩
  rintro i f s hi hpending hstage rfl c p' hs
  cases Program.step_cases hs with
  | @call _ _ t t' g' ht hcall =>
    obtain rfl := Option.some.inj (hi.symm.trans ht)
    obtain ⟨⟨g₁, f'⟩, hf, heq⟩ := Option.map_eq_some_iff.mp hcall
    cases heq
    have hasks := InferCall.asks hpending hstage hf
    rw [hcircuit] at hasks
    exact ⟨f', List.getElem?_set_self (List.getElem?_eq_some_iff.mp hi).1, hasks⟩

/-- The first call fails at `replica-1`, and the second one is let through as the probe. -/
theorem circuits_independent_probing :
    let s₀ := newGateway 150 quickBreaker 100
    let calls : List CircuitBreaker.Call := [.allowRequest 0, .recordFailure 0, .allowRequest 0]
    ∃ p, Run (gatewayProgram fun _ => 0).step s₀ probing p ∧
      breakerCalls (fun _ => 0) s₀ "replica-1" probing = calls ∧
      p.shared.breakers.getOrCreate "replica-1" =
        CircuitBreaker.after { config := quickBreaker } calls := by
  intro s₀ calls
  have hrun : Run (gatewayProgram fun _ => 0).step s₀ probing _ := run_get (by decide +kernel)
  have hcalls : breakerCalls (fun _ => 0) s₀ "replica-1" probing = calls := by decide +kernel
  exact ⟨_, hrun, hcalls, hcalls ▸ (circuits_independent _ _ _ _ _ _ hrun "replica-1").1⟩

/-! ## An open circuit -/

theorem elapsedMs_mono {since now now' : ℕ} (h : now ≤ now') :
    elapsedMs since now ≤ elapsedMs since now' :=
  Int.tdiv_le_tdiv (by decide) (by omega)

/-- A step after which a call has been let through: it had been before, or it has just asked. -/
theorem streaming_from {s : Selection} (hs : f.step hash g c = some (g', f'))
    (hstage : f'.stage = .infer (.streaming s)) :
    f.stage = .infer (.streaming s) ∧ f'.streams = f.streams ∨
      f.pending = [] ∧ f.stage = .infer (.allowing s) := by
  cases stepMove hs with
  | pending => exact Or.inl ⟨hstage, rfl⟩
  | enter | enterHedged => cases hstage
  | hedged _ _ hhedge =>
    obtain ⟨⟨s', hs'⟩, -⟩ := InferCall.hedgeStep_effect hhedge
    cases hs'.symm.trans hstage
  | infer hpending hmove =>
    cases hmove with
    | allow hallowing =>
      cases hstage
      exact Or.inr ⟨hpending, hallowing⟩
    | stream =>
      rcases stage_streamed f _ c.stream _ _ with hstage' | hstage' <;>
        cases hstage'.symm.trans hstage
    | _ => cases hstage

/-- **An open circuit isolates its replica.** In every run of a gateway in which the circuit of a
replica is open and its cooldown is not over: it is open since the same moment, whatever is
recorded; and a call of `Infer` that is at a stream to the replica has been let through to it before. -/
theorem circuit_isolates (hash : List UInt8 → ℕ) (s₀ : GatewayPool) (fs : List GatewayLabel)
    (r : GatewayPool) (hrun : Run (gatewayProgram hash).step s₀ fs r) (id : String)
    (hopen : (s₀.shared.breakers.getOrCreate id).state = .opened)
    (hcooling : elapsedMs (s₀.shared.breakers.getOrCreate id).openedAt r.shared.now <
      (s₀.shared.breakers.getOrCreate id).config.cooldownMs) :
    ((r.shared.breakers.getOrCreate id).state = .opened ∧
      (r.shared.breakers.getOrCreate id).openedAt =
        (s₀.shared.breakers.getOrCreate id).openedAt) ∧
    ∀ (i : ℕ) (f : InferCall) (s : Selection), r.calls[i]? = some (.infer f) →
      f.stage = .infer (.streaming s) → s.replicaId = id → ∃ f₀, s₀.calls[i]? = some (.infer f₀) ∧
        f₀.stage = .infer (.streaming s) ∧ f₀.streams = f.streams := by
  have hopened : ∀ {es : List GatewayLabel} {q : GatewayPool},
      Run (gatewayProgram hash).step s₀ es q →
      elapsedMs (s₀.shared.breakers.getOrCreate id).openedAt q.shared.now <
        (s₀.shared.breakers.getOrCreate id).config.cooldownMs →
      (q.shared.breakers.getOrCreate id).state = .opened ∧
        (q.shared.breakers.getOrCreate id).openedAt =
          (s₀.shared.breakers.getOrCreate id).openedAt ∧
        (q.shared.breakers.getOrCreate id).config =
          (s₀.shared.breakers.getOrCreate id).config := by
    intro es q hrun hcooling
    rw [circuit_run hrun]
    have hasked := (breakerCalls_ordered hrun id).2
    have hstays := CircuitBreaker.after_cooling hopen fun now hnow =>
      (elapsedMs_mono (hasked (.allowRequest now) hnow)).trans_lt hcooling
    exact ⟨hstays.1, hstays.2, CircuitBreaker.after_config _ _⟩
  have hend := hopened hrun hcooling
  refine ⟨⟨hend.1, hend.2.1⟩, ?_⟩
  clear hend
  induction hrun with
  | nil => exact fun i f s hi hstage _ => ⟨f, hi, hstage, rfl⟩
  | @snoc es l q q' hrun hs ih =>
    intro i f' s hi hstage hid
    have hbefore := (elapsedMs_mono (now_le_step hs)).trans_lt hcooling
    rcases call_before hs hi with hsame | ⟨-, hentered, -⟩ | ⟨c, f, -, hf, hstep⟩
    · exact ih hbefore i f' s hsame hstage hid
    · cases hentered.symm.trans hstage
    · rcases streaming_from hstep hstage with ⟨hwas, hstreams⟩ | ⟨hpending, hallowing⟩
      · obtain ⟨f₀, hf₀, hstage₀, hstreams₀⟩ := ih hbefore i f s hf hwas hid
        exact ⟨f₀, hf₀, hstage₀, hstreams₀.trans hstreams.symm⟩
      · -- the circuit refuses whoever asks during the cooldown
        obtain ⟨hstate, hat, hconfig⟩ := hopened hrun hbefore
        have hasks := InferCall.asks hpending hallowing hstep
        rw [hid] at hasks
        have hrefused :
            ((q.shared.breakers.getOrCreate id).allowRequest q.shared.now).2 = false := by
          unfold CircuitBreaker.allowRequest
          rw [hstate]
          dsimp only
          rw [hat, hconfig, if_neg (not_le.mpr hbefore)]
        rw [hrefused, if_neg Bool.false_ne_true] at hasks
        cases hasks.1.symm.trans hstage

/-- The first call opens the circuit of `replica-1`, and the second one selects this replica. -/
theorem circuit_isolates_refused :
    let es := twoReplicas ++ attemptWith [1] ⟨[], false⟩
    let fs : List GatewayLabel := [.env (.tick 1000), .spawn (.infer ⟨"client", "hello", 2, false⟩),
      .call 1 {}, .call 1 {}, .call 1 {}, .call 1 { draws := [2] }, .call 1 {}]
    ∃ q r, Run (gatewayProgram fun _ => 0).step (newGateway 150 { windowSize := 1 } 100) es q ∧
      Run (gatewayProgram fun _ => 0).step q fs r ∧
      (r.shared.breakers.getOrCreate "replica-1").state = .opened := by
  intro es fs
  have hrun : Run (gatewayProgram fun _ => 0).step (newGateway 150 { windowSize := 1 } 100) es _ :=
    run_get (by decide +kernel)
  have hrun' : Run (gatewayProgram fun _ => 0).step
      ((exec (gatewayProgram fun _ => 0).step (newGateway 150 { windowSize := 1 } 100) es).get
        (by decide +kernel)) fs _ := run_get (by decide +kernel)
  exact ⟨_, _, hrun, hrun', (circuit_isolates _ _ fs _ hrun' "replica-1" (by decide +kernel)
    (by decide +kernel)).1.1⟩

end LlmGateway.Gateway
