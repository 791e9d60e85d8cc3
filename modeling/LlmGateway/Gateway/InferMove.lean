import LlmGateway.Gateway.GatewayServer

/-!
# The moves of `Infer` and of `InferHedged`

`InferMove` lists what a step of `Infer` can do, with the test of the source that decides for it and
the gateway it leaves; `inferMove` says that there is nothing else. `HedgeMove` is the same for
`InferHedged`, by where it is, and `StepMove` for a step of a call, the pending operations and the
entry included.
-/

namespace LlmGateway.Gateway

open Replica

/-- The ticket that the next call takes in the queue. -/
def GatewayState.ticket (g : GatewayState) : Ticket := ⟨g.queue.nextTicket, g.now + 30000 * 1000000⟩

/-- The queue after a call has taken a ticket. -/
def RequestQueue.ticketTaken (q : RequestQueue) : RequestQueue :=
  { q with nextTicket := (q.nextTicket + 1) % 2 ^ 64 }

/-- The moves of `Infer`. -/
inductive InferMove (hash : List UInt8 → ℕ) (g : GatewayState) (c : InferChoice) (f : InferCall) :
    GatewayState → InferCall → Prop
  | cancel : f.stage = .infer .looping → c.cancelled = true →
      InferMove hash g c f g (f.goto (.returned .cancelled))
  | select : f.stage = .infer .looping → f.attempt < maxRetries →
      f.tokensSent < f.request.maxTokens → InferMove hash g c f g (f.goto (.selecting .hashing))
  | leave : f.stage = .infer .looping →
      ¬(f.attempt < maxRetries ∧ f.tokensSent < f.request.maxTokens) →
      InferMove hash g c f g (f.goto (.returned f.finalStatus))
  | scan {s s' : SelectStage} {lb : LoadBalancer} : f.stage = .infer (.selecting s) →
      s.step hash g.registry g.lb f.request.prompt f.excluded c.draws = some (lb, .stage s') →
      InferMove hash g c f { g with lb } (f.goto (.selecting s'))
  | starve {s : SelectStage} {lb : LoadBalancer} : f.stage = .infer (.selecting s) →
      s.step hash g.registry g.lb f.request.prompt f.excluded c.draws = some (lb, .selected none) →
      InferMove hash g c f { g with lb } (f.goto .queueing)
  | choose {s : SelectStage} {lb : LoadBalancer} {selection : Selection} :
      f.stage = .infer (.selecting s) →
      s.step hash g.registry g.lb f.request.prompt f.excluded c.draws =
        some (lb, .selected (some selection)) →
      InferMove hash g c f { g with lb } (f.goto (.allowing selection))
  | reject : f.stage = .infer .queueing → g.queue.maxSize ≤ g.queue.waitingCount →
      InferMove hash g c f g (f.goto (.returned InferCall.queueFull))
  | pass : f.stage = .infer .queueing → g.queue.waitingCount < g.queue.maxSize →
      g.queue.nextTicket < g.queue.servingTicket →
      InferMove hash g c f { g with queue := g.queue.ticketTaken } (f.goto (.reselecting .hashing))
  | block : f.stage = .infer .queueing → g.queue.waitingCount < g.queue.maxSize →
      g.queue.servingTicket ≤ g.queue.nextTicket →
      InferMove hash g c f
        { g with queue := { g.queue.ticketTaken with waitingCount := g.queue.waitingCount + 1 } }
        (f.goto (.blocked g.ticket))
  | serve {t : Ticket} : f.stage = .infer (.blocked t) → t.number < g.queue.servingTicket →
      InferMove hash g c f
        { g with queue := { g.queue with waitingCount := g.queue.waitingCount - 1 } }
        (f.goto (.reselecting .hashing))
  | giveUp {t : Ticket} : f.stage = .infer (.blocked t) → g.queue.servingTicket ≤ t.number →
      t.deadline ≤ g.now →
      InferMove hash g c f
        { g with queue := { g.queue with waitingCount := g.queue.waitingCount - 1 } }
        (f.goto (.returned InferCall.queueFull))
  | rescan {s s' : SelectStage} {lb : LoadBalancer} : f.stage = .infer (.reselecting s) →
      s.step hash g.registry g.lb f.request.prompt f.excluded c.draws = some (lb, .stage s') →
      InferMove hash g c f { g with lb } (f.goto (.reselecting s'))
  | retry {s : SelectStage} {lb : LoadBalancer} : f.stage = .infer (.reselecting s) →
      s.step hash g.registry g.lb f.request.prompt f.excluded c.draws = some (lb, .selected none) →
      InferMove hash g c f { g with lb } { f.goto .looping with attempt := f.attempt + 1 }
  | rechoose {s : SelectStage} {lb : LoadBalancer} {selection : Selection} :
      f.stage = .infer (.reselecting s) →
      s.step hash g.registry g.lb f.request.prompt f.excluded c.draws =
        some (lb, .selected (some selection)) →
      InferMove hash g c f { g with lb } (f.goto (.allowing selection))
  | allow {selection : Selection} : f.stage = .infer (.allowing selection) →
      (g.breakers.allowRequest g.now selection.replicaId).2 = true →
      InferMove hash g c f
        { g with breakers := (g.breakers.allowRequest g.now selection.replicaId).1 }
        { f.goto (.streaming selection) with pending := [.incrementActive selection.replicaId] }
  | refuse {selection : Selection} : f.stage = .infer (.allowing selection) →
      (g.breakers.allowRequest g.now selection.replicaId).2 = false →
      InferMove hash g c f
        { g with breakers := (g.breakers.allowRequest g.now selection.replicaId).1 }
        (f.retryWithout selection.replicaId)
  | stream {selection : Selection} : f.stage = .infer (.streaming selection) →
      c.stream.Serves (generateRequest g.now f.request.prompt f.request.maxTokens f.tokensSent) →
      InferMove hash g c f g (f.streamed selection c.stream
        (streamFromReplica selection.replicaId c.stream).1
        (streamFromReplica selection.replicaId c.stream).2)

/-- The moves of `InferHedged`, of its main thread and of its race threads. -/
inductive HedgeMove (hash : List UInt8 → ℕ) (g : GatewayState) (c : InferChoice) (f : InferCall) :
    HedgeStage → GatewayState → InferCall → Prop
  | scan {s s' : SelectStage} {lb : LoadBalancer} :
      s.step hash g.registry g.lb f.request.prompt [] c.draws = some (lb, .stage s') →
      HedgeMove hash g c f (.selecting s) { g with lb } (f.hedge (.selecting s'))
  | starve {s : SelectStage} {lb : LoadBalancer} :
      s.step hash g.registry g.lb f.request.prompt [] c.draws = some (lb, .selected none) →
      HedgeMove hash g c f (.selecting s) { g with lb }
        (f.hedge (.returned ⟨.resourceExhausted, "no replica available for hedging"⟩))
  | choose {s : SelectStage} {lb : LoadBalancer} {first : Selection} :
      s.step hash g.registry g.lb f.request.prompt [] c.draws = some (lb, .selected (some first)) →
      HedgeMove hash g c f (.selecting s) { g with lb } (f.hedge (.selectingSecond first .hashing))
  | rescan {first : Selection} {s s' : SelectStage} {lb : LoadBalancer} :
      s.step hash g.registry g.lb (f.request.prompt ++ "_hedge") [first.replicaId] c.draws =
        some (lb, .stage s') →
      HedgeMove hash g c f (.selectingSecond first s) { g with lb }
        (f.hedge (.selectingSecond first s'))
  | alone {first : Selection} {s : SelectStage} {lb : LoadBalancer} {second : Option Selection} :
      s.step hash g.registry g.lb (f.request.prompt ++ "_hedge") [first.replicaId] c.draws =
        some (lb, .selected second) →
      (∀ x ∈ second, x.replicaId = first.replicaId) →
      HedgeMove hash g c f (.selectingSecond first s) { g with lb }
        { f.hedge (.single first) with pending := [.incrementActive first.replicaId] }
  | pair {first second : Selection} {s : SelectStage} {lb : LoadBalancer} :
      s.step hash g.registry g.lb (f.request.prompt ++ "_hedge") [first.replicaId] c.draws =
        some (lb, .selected (some second)) →
      second.replicaId ≠ first.replicaId →
      HedgeMove hash g c f (.selectingSecond first s) { g with lb }
        { f.hedge (.starting first second) with
          pending := [.incrementActive first.replicaId, .incrementActive second.replicaId] }
  | stream {selection : Selection} :
      c.stream.Serves (generateRequest g.now f.request.prompt f.request.maxTokens 0) →
      HedgeMove hash g c f (.single selection) g { f with
        stage := .hedged (.returned
          (if (streamFromReplica selection.replicaId c.stream).2 < 0 then
            ⟨.unavailable, "replica failed"⟩ else .ok))
        written := f.written ++ (streamFromReplica selection.replicaId c.stream).1
        pending := InferCall.afterStream selection.replicaId
          (streamFromReplica selection.replicaId c.stream).2 }
  | start {first second : Selection} :
      HedgeMove hash g c f (.starting first second) g (f.hedge (.waiting
        { first := { selection := first }, second := { selection := second },
          deadline := InferCall.raceDeadline g }))
  | take {r : Race} {winnerId : ℕ} : c.actor = .main → r.promise = some winnerId →
      HedgeMove hash g c f (.waiting r) g (f.hedge (.joining r winnerId))
  | giveUp {r : Race} : c.actor = .main → r.promise = none → r.deadline ≤ g.now →
      HedgeMove hash g c f (.waiting r) g (f.hedge (.joining r 0))
  | race {r r' : Race} : c.actor ≠ .main →
      r.threadStep c.actor (hedgeRequest f.request.prompt f.request.maxTokens) c.firstRead =
        some r' →
      HedgeMove hash g c f (.waiting r) g (f.hedge (.waiting r'))
  | join {r : Race} {winnerId : ℕ} : c.actor = .main → r.first.thread = .finished →
      r.second.thread = .finished →
      HedgeMove hash g c f (.joining r winnerId) g (f.afterRace r winnerId)
  | late {r r' : Race} {winnerId : ℕ} : c.actor ≠ .main →
      r.threadStep c.actor (hedgeRequest f.request.prompt f.request.maxTokens) c.firstRead =
        some r' →
      HedgeMove hash g c f (.joining r winnerId) g (f.hedge (.joining r' winnerId))
  | forward {winnerId : ℕ} {winner : Selection} {firstToken : GenerateResponse} :
      (⟨{ response := firstToken } :: c.stream.reads, c.stream.ok⟩ : ReplicaStream).Serves
        (hedgeRequest f.request.prompt f.request.maxTokens winnerId) →
      HedgeMove hash g c f (.forwarding winnerId winner firstToken) g { f with
        stage := .hedged (.returned .ok)
        written := f.written ++
          (if c.firstWritten then [inferResponse winner.replicaId firstToken] else []) ++
          (forward winner.replicaId true 1 c.stream.reads).1
        pending := [.decrementActive winner.replicaId, .notifyCapacityAvailable] }

variable {hash : List UInt8 → ℕ} {g g' : GatewayState} {c : InferChoice} {f f' : InferCall}

theorem stage_streamed (f : InferCall) (selection : Selection) (stream : ReplicaStream)
    (responses : List InferResponse) (streamed : ℤ) :
    (f.streamed selection stream responses streamed).stage = .infer (.returned .ok) ∨
      (f.streamed selection stream responses streamed).stage = .infer .looping := by
  unfold InferCall.streamed
  dsimp only
  split_ifs
  · exact Or.inr rfl
  · exact Or.inl rfl
  · exact Or.inr rfl

theorem step_infer {s : InferStage} (hpending : f.pending = []) (hstage : f.stage = .infer s) :
    f.step hash g c = f.inferStep hash g c s := by
  unfold InferCall.step
  rw [hpending, hstage]

/-- **One step of `Infer`.** -/
theorem inferMove {s : InferStage} (hstage : f.stage = .infer s)
    (hs : f.inferStep hash g c s = some (g', f')) : InferMove hash g c f g' f' := by
  cases s with
  | looping =>
    simp only [InferCall.inferStep] at hs
    split_ifs at hs with hloop hcancelled
    · cases hs
      exact .cancel hstage hcancelled
    · cases hs
      exact .select hstage hloop.1 hloop.2
    · cases hs
      exact .leave hstage hloop
  | selecting s =>
    obtain ⟨⟨lb, next⟩, hselect, heq⟩ := Option.map_eq_some_iff.mp hs
    rcases next with s' | _ | selection <;> cases heq
    · exact .scan hstage hselect
    · exact .starve hstage hselect
    · exact .choose hstage hselect
  | queueing =>
    simp only [InferCall.inferStep, RequestQueue.enter] at hs
    split_ifs at hs with hfull hserved
    · cases hs
      exact .reject hstage hfull
    · cases hs
      exact .pass hstage (not_le.mp hfull) hserved
    · cases hs
      exact .block hstage (not_le.mp hfull) (not_lt.mp hserved)
  | blocked t =>
    obtain ⟨⟨queue, woken⟩, hwake, heq⟩ := Option.map_eq_some_iff.mp hs
    unfold RequestQueue.wake at hwake
    split_ifs at hwake with hserved hlate
    · cases hwake
      cases heq
      exact .serve hstage hserved
    · cases hwake
      cases heq
      exact .giveUp hstage (not_lt.mp hserved) hlate
  | reselecting s =>
    obtain ⟨⟨lb, next⟩, hselect, heq⟩ := Option.map_eq_some_iff.mp hs
    rcases next with s' | _ | selection <;> cases heq
    · exact .rescan hstage hselect
    · exact .retry hstage hselect
    · exact .rechoose hstage hselect
  | allowing selection =>
    simp only [InferCall.inferStep] at hs
    cases hallowed : (g.breakers.allowRequest g.now selection.replicaId).2 with
    | true =>
      rw [hallowed, if_pos rfl] at hs
      cases hs
      exact .allow hstage hallowed
    | false =>
      rw [hallowed, if_neg Bool.false_ne_true] at hs
      cases hs
      exact .refuse hstage hallowed
  | streaming selection =>
    simp only [InferCall.inferStep] at hs
    split_ifs at hs with hserves
    cases hs
    exact .stream hstage hserves
  | returned status => cases hs

theorem InferMove.source (h : InferMove hash g c f g' f') : ∃ s, f.stage = .infer s := by
  cases h <;> exact ⟨_, ‹_›⟩

/-- **One step of `InferHedged`.** -/
theorem hedgeMove {s : HedgeStage} (hs : f.hedgeStep hash g c s = some (g', f')) :
    HedgeMove hash g c f s g' f' := by
  cases s with
  | selecting s =>
    obtain ⟨⟨lb, next⟩, hselect, heq⟩ := Option.map_eq_some_iff.mp hs
    rcases next with s' | _ | first <;> cases heq
    · exact .scan hselect
    · exact .starve hselect
    · exact .choose hselect
  | selectingSecond first s =>
    obtain ⟨⟨lb, next⟩, hselect, heq⟩ := Option.map_eq_some_iff.mp hs
    rcases next with s' | _ | second <;> cases heq
    · exact .rescan hselect
    · exact .alone hselect (by simp)
    · dsimp only
      split_ifs with hsame
      · exact .alone hselect (by simpa using hsame)
      · exact .pair hselect hsame
  | single selection =>
    simp only [InferCall.hedgeStep] at hs
    split at hs
    · rename_i hserves
      cases hs
      exact .stream hserves
    · cases hs
  | starting first second =>
    cases hs
    exact .start
  | waiting r =>
    simp only [InferCall.hedgeStep] at hs
    split at hs
    · rename_i hactor
      split at hs
      · rename_i hpromise
        cases hs
        exact .take hactor hpromise
      · rename_i hpromise
        split_ifs at hs with hlate
        cases hs
        exact .giveUp hactor hpromise hlate
    · rename_i hactor
      obtain ⟨r', hthread, heq⟩ := Option.map_eq_some_iff.mp hs
      cases heq
      exact .race hactor hthread
  | joining r winnerId =>
    simp only [InferCall.hedgeStep] at hs
    split at hs
    · rename_i hactor
      split_ifs at hs with hfinished
      cases hs
      exact .join hactor hfinished.1 hfinished.2
    · rename_i hactor
      obtain ⟨r', hthread, heq⟩ := Option.map_eq_some_iff.mp hs
      cases heq
      exact .late hactor hthread
  | forwarding winnerId winner firstToken =>
    simp only [InferCall.hedgeStep] at hs
    split at hs
    · rename_i hserves
      cases hs
      exact .forward hserves
    · cases hs
  | returned status => cases hs

/-- A step of a call: a pending operation, its entry, a move of `Infer`, or a step of
`InferHedged`. -/
inductive StepMove (hash : List UInt8 → ℕ) (g : GatewayState) (c : InferChoice) (f : InferCall) :
    GatewayState → InferCall → Prop
  | pending {op : Operation} {ops : List Operation} : f.pending = op :: ops →
      StepMove hash g c f (op.apply g) { f with pending := ops }
  | enter : f.pending = [] → f.stage = .entered → StepMove hash g c f g (f.goto .looping)
  | enterHedged : f.pending = [] → f.stage = .entered → f.request.hedge = true →
      StepMove hash g c f g (f.hedge (.selecting .hashing))
  | infer {g' : GatewayState} {f' : InferCall} : f.pending = [] → InferMove hash g c f g' f' →
      StepMove hash g c f g' f'
  | hedged {s : HedgeStage} {g' : GatewayState} {f' : InferCall} : f.pending = [] →
      f.stage = .hedged s → f.hedgeStep hash g c s = some (g', f') → StepMove hash g c f g' f'

/-- **One step of a call.** -/
theorem stepMove (hs : f.step hash g c = some (g', f')) : StepMove hash g c f g' f' := by
  unfold InferCall.step at hs
  split at hs
  · rename_i op ops hpending
    cases hs
    exact .pending hpending
  · rename_i hpending
    split at hs
    · rename_i hstage
      split_ifs at hs with hhedge
      · cases hs
        exact .enterHedged hpending hstage hhedge.1
      · cases hs
        exact .enter hpending hstage
    · rename_i s hstage
      exact .infer hpending (inferMove hstage hs)
    · rename_i s hstage
      exact .hedged hpending hstage hs

/-- **Invariants of a call.** What a call starts with and every step of it keeps, whatever the shared
objects are, holds of every call in every run. -/
theorem inferCall_invariant {Q : InferCall → Prop} {g₀ : GatewayState} {es : List GatewayLabel}
    {p : GatewayPool} (hstart : ∀ request, Q { request })
    (hstep : ∀ g c f g' f', Q f → f.step hash g c = some (g', f') → Q f')
    (hrun : Transition.Run (gatewayProgram hash).step ⟨g₀, []⟩ es p) (hf : .infer f ∈ p.calls) :
    Q f := by
  have hkeep : Program.Preserves (gatewayProgram hash) (fun _ => True)
      fun _ t => ∀ f, t = .infer f → Q f := by
    refine ⟨?_, ?_, fun _ _ _ _ _ _ _ _ _ hu => hu, fun _ _ _ _ _ => ⟨trivial, fun _ hu => hu⟩⟩
    · rintro s (request | _) - f hf
      · cases hf
        exact hstart request
      · cases hf
    · intro g t c g' t' _ ht hs
      refine ⟨trivial, fun f' heq => ?_⟩
      rcases gatewayCall_cases hs with ⟨f, f'', rfl, rfl, hf⟩ | ⟨b, b', -, rfl, -⟩
      · cases heq
        exact hstep _ _ _ _ _ (ht f rfl) hf
      · cases heq
  exact (hkeep.invariant trivial hrun).calls _ hf f rfl

end LlmGateway.Gateway
