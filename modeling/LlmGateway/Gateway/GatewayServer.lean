import LlmGateway.Gateway.CircuitBreaker
import LlmGateway.Gateway.LoadBalancer
import LlmGateway.Gateway.RequestQueue
import LlmGateway.Replica.ReplicaServer

/-!
# The gateway server

`Infer` and `InferHedged`, any number of them side by side on one registry, load balancer, circuit
breaker manager and queue, with `RebuildRing` calls, membership updates and the clock.

A call moves from one access of the shared objects to the next. Where the source makes several
accesses in a row they are its `pending` operations, taken one at a time before anything else.
`StreamFromReplica` touches no shared object between its first and its last line, so the whole
stream is one step: the environment supplies the responses that were read, what `IsCancelled` and
`Write` said after each, and the final status. Its responses are those of a `Generate` call for the
request that was sent (`ReplicaStream.Serves`).

The two race threads of `InferHedged` share nothing with other calls; they are actors of their own
inside the call.
-/

namespace LlmGateway.Gateway

open Gossip Replica

/-! ## Streaming from one replica -/

/-- A response read from a replica, and what the client's side then says: whether `IsCancelled`
holds and whether `Write` succeeds. -/
structure StreamRead where
  response : GenerateResponse
  cancelled : Bool := false
  written : Bool := true
  deriving DecidableEq, Repr

/-- A replica's stream: the reads that return a response, and whether `Finish` returns OK. -/
structure ReplicaStream where
  reads : List StreamRead := []
  ok : Bool := true
  deriving DecidableEq, Repr

/-- The client's response for a replica's. -/
def inferResponse (replicaId : String) (r : GenerateResponse) : InferResponse :=
  ⟨r.token, r.isFinal, replicaId⟩

/-- The loop of `StreamFromReplica` with `n` tokens streamed: what it writes and returns. -/
def forward (replicaId : String) (ok : Bool) : ℤ → List StreamRead → List InferResponse × ℤ
  | n, [] => ([], if ok then n else -1)
  | n, e :: es =>
    if e.cancelled then ([], n)
    else if !e.written then ([], n)
    else
      let (responses, returned) := forward replicaId ok (n + 1) es
      (inferResponse replicaId e.response :: responses, returned)

/-- The request `StreamFromReplica` sends. -/
def generateRequest (now : ℕ) (prompt : String) (maxTokens tokensAlreadyGenerated : ℤ) :
    GenerateRequest :=
  ⟨"req-" ++ toString now, prompt, maxTokens, tokensAlreadyGenerated⟩

/-- `StreamFromReplica`. -/
def streamFromReplica (replicaId : String) (s : ReplicaStream) : List InferResponse × ℤ :=
  forward replicaId s.ok 0 s.reads

/-- The responses read are the first ones of a `Generate` call for `r`. -/
def ReplicaStream.Serves (s : ReplicaStream) (r : GenerateRequest) : Prop :=
  s.reads.map (·.response) <+: generateResponses r.tokensAlreadyGenerated r.maxTokens

instance (s : ReplicaStream) (r : GenerateRequest) : Decidable (s.Serves r) :=
  inferInstanceAs (Decidable (_ <+: _))

/-- What the gateway reads of a `Generate` call passes for such a stream. -/
theorem serves_of_generate {es : List ReplicaLabel} {p : ReplicaPool}
    (hrun : Transition.Run replicaProgram.step newReplica es p) {g : GenerateCall}
    (hg : .generate g ∈ p.calls) {s : ReplicaStream}
    (hs : s.reads.map (·.response) <+: g.output.2) : s.Serves g.output.1 := by
  obtain ⟨n, hn, hwritten, -⟩ := generate_written hrun hg
  rw [hwritten] at hs
  exact hs.trans (firstResponses_mono hn)

/-! ## The shared objects -/

structure GatewayState where
  registry : ReplicaRegistry := {}
  lb : LoadBalancer := {}
  breakers : CircuitBreakerManager := {}
  queue : RequestQueue := {}
  now : ℕ := 0

/-- The accesses that need no answer. -/
inductive Operation
  | incrementActive (id : String)
  | decrementActive (id : String)
  | notifyCapacityAvailable
  | recordSuccess (id : String)
  | recordFailure (id : String)
  deriving DecidableEq, Repr

def Operation.apply (g : GatewayState) : Operation → GatewayState
  | .incrementActive id => { g with registry := g.registry.incrementActive id }
  | .decrementActive id => { g with registry := g.registry.decrementActive id }
  | .notifyCapacityAvailable => { g with queue := g.queue.notifyCapacityAvailable }
  | .recordSuccess id => { g with breakers := g.breakers.recordSuccess g.now id }
  | .recordFailure id => { g with breakers := g.breakers.recordFailure g.now id }

/-- A report to a circuit breaker. -/
def Operation.isRecord : Operation → Bool
  | .recordSuccess _ | .recordFailure _ => true
  | _ => false

/-! ## A call -/

/-- Where `Infer` is. `reselecting` is the second `SelectReplica` of an iteration. -/
inductive InferStage
  | looping
  | selecting (s : SelectStage)
  | queueing
  | blocked (t : Ticket)
  | reselecting (s : SelectStage)
  | allowing (selection : Selection)
  | streaming (selection : Selection)
  | returned (status : Status)
  deriving DecidableEq, Repr

/-- A race thread: at its first `Read`, at the exchange of the flag, at the promise, or done. -/
inductive RaceThread
  | reading
  | swapping
  | setting
  | finished
  deriving DecidableEq, Repr

/-- `RaceResult` with its thread. It has a first token if `success` is set. -/
structure Racer where
  selection : Selection
  thread : RaceThread := .reading
  firstToken : Option GenerateResponse := none
  deriving DecidableEq, Repr

/-- The race: `winner_set`, the value of the promise, and the deadline of `wait_for`. -/
structure Race where
  first : Racer
  second : Racer
  winnerSet : Bool := false
  promise : Option ℕ := none
  deadline : ℕ
  deriving DecidableEq, Repr

/-- Where `InferHedged` is. -/
inductive HedgeStage
  | selecting (s : SelectStage)
  | selectingSecond (first : Selection) (s : SelectStage)
  | single (selection : Selection)
  | starting (first second : Selection)
  | waiting (r : Race)
  | joining (r : Race) (winnerId : ℕ)
  | forwarding (winnerId : ℕ) (winner : Selection) (firstToken : GenerateResponse)
  | returned (status : Status)
  deriving DecidableEq, Repr

inductive Stage
  | entered
  | infer (s : InferStage)
  | hedged (s : HedgeStage)
  deriving DecidableEq, Repr

/-- A stream of an `Infer` call: the replica, the index it was started at, and how it went. -/
structure Attempt where
  replicaId : String
  start : ℤ
  stream : ReplicaStream
  deriving DecidableEq, Repr

/-- A call, with what it has written to its client and the streams it has had. -/
structure InferCall where
  request : InferRequest
  stage : Stage := .entered
  pending : List Operation := []
  attempt : ℕ := 0
  tokensSent : ℤ := 0
  excluded : List String := []
  written : List InferResponse := []
  streams : List Attempt := []
  deriving DecidableEq, Repr

/-- The call has returned. -/
def InferCall.Finished (f : InferCall) : Prop :=
  f.pending = [] ∧ ∃ status, f.stage = .infer (.returned status) ∨ f.stage = .hedged (.returned status)

/-- Which thread of an `InferHedged` call takes the step. -/
inductive Actor
  | main
  | first
  | second
  deriving DecidableEq, Repr

/-- What the environment decides at a step of a call. -/
structure InferChoice where
  actor : Actor := .main
  cancelled : Bool := false
  draws : List ℕ := []
  stream : ReplicaStream := {}
  firstRead : Option GenerateResponse := none
  firstWritten : Bool := true
  deriving DecidableEq, Repr

/-- `max_retries`. -/
abbrev maxRetries : ℕ := 3

namespace InferCall

variable (hash : List UInt8 → ℕ) (g : GatewayState) (c : InferChoice) (f : InferCall)

/-- The same call at another stage. -/
def goto (s : InferStage) : InferCall := { f with stage := .infer s }

def hedge (s : HedgeStage) : InferCall := { f with stage := .hedged s }

/-- `continue`, with the replica excluded from now on. -/
def retryWithout (id : String) : InferCall :=
  { f with stage := .infer .looping, attempt := f.attempt + 1, excluded := f.excluded ++ [id] }

/-- What `Infer` returns after its loop. -/
def finalStatus : Status :=
  if f.request.maxTokens ≤ f.tokensSent then .ok
  else if 0 < f.tokensSent then .ok
  else ⟨.unavailable, "all replicas failed after retries"⟩

def queueFull : Status := ⟨.resourceExhausted, "all replicas at capacity and queue full"⟩

/-- The accesses of `Infer` after a stream. -/
def afterStream (id : String) (streamed : ℤ) : List Operation :=
  [.decrementActive id, .notifyCapacityAvailable,
    if streamed < 0 then .recordFailure id else .recordSuccess id]

/-- `Infer` after `StreamFromReplica` has written `responses` and returned `streamed`. -/
def streamed (selection : Selection) (stream : ReplicaStream) (responses : List InferResponse)
    (streamed : ℤ) : InferCall :=
  let f : InferCall := { f with
    written := f.written ++ responses
    streams := f.streams ++ [⟨selection.replicaId, f.tokensSent, stream⟩]
    pending := afterStream selection.replicaId streamed }
  if streamed < 0 then f.retryWithout selection.replicaId
  else
    let f : InferCall := { f with tokensSent := f.tokensSent + streamed }
    if f.request.maxTokens ≤ f.tokensSent then f.goto (.returned .ok)
    else f.retryWithout selection.replicaId

/-- One step of `Infer`. -/
def inferStep : InferStage → Option (GatewayState × InferCall)
  | .looping =>
    if f.attempt < maxRetries ∧ f.tokensSent < f.request.maxTokens then
      if c.cancelled then some (g, f.goto (.returned .cancelled))
      else some (g, f.goto (.selecting .hashing))
    else some (g, f.goto (.returned f.finalStatus))
  | .selecting s =>
    (s.step hash g.registry g.lb f.request.prompt f.excluded c.draws).map fun (lb, next) =>
      ({ g with lb },
        match next with
        | .stage s => f.goto (.selecting s)
        | .selected none => f.goto .queueing
        | .selected (some selection) => f.goto (.allowing selection))
  | .queueing =>
    let (queue, admission) := g.queue.enter g.now 30000
    some ({ g with queue },
      match admission with
      | .rejected => f.goto (.returned queueFull)
      | .served _ => f.goto (.reselecting .hashing)
      | .blocked t => f.goto (.blocked t))
  | .blocked t =>
    (g.queue.wake g.now t).map fun (queue, woken) =>
      ({ g with queue },
        if woken then f.goto (.reselecting .hashing) else f.goto (.returned queueFull))
  | .reselecting s =>
    (s.step hash g.registry g.lb f.request.prompt f.excluded c.draws).map fun (lb, next) =>
      ({ g with lb },
        match next with
        | .stage s => f.goto (.reselecting s)
        | .selected none => { f.goto .looping with attempt := f.attempt + 1 }
        | .selected (some selection) => f.goto (.allowing selection))
  | .allowing selection =>
    let (breakers, allowed) := g.breakers.allowRequest g.now selection.replicaId
    some ({ g with breakers },
      if allowed then
        { f.goto (.streaming selection) with pending := [.incrementActive selection.replicaId] }
      else f.retryWithout selection.replicaId)
  | .streaming selection =>
    let r := generateRequest g.now f.request.prompt f.request.maxTokens f.tokensSent
    if c.stream.Serves r then
      let (responses, streamed) := streamFromReplica selection.replicaId c.stream
      some (g, f.streamed selection c.stream responses streamed)
    else none
  | .returned _ => none

end InferCall

/-! ## The race -/

/-- The request a race thread sends. -/
def hedgeRequest (prompt : String) (maxTokens : ℤ) (id : ℕ) : GenerateRequest :=
  ⟨"hedge-" ++ toString id, prompt, maxTokens, 0⟩

namespace Race

variable (r : Race)

/-- The racer of an actor, with the number it sets the promise to. -/
def racer : Actor → Option (Racer × ℕ)
  | .main => none
  | .first => some (r.first, 1)
  | .second => some (r.second, 2)

def setRacer (a : Actor) (x : Racer) : Race :=
  match a with
  | .main => r
  | .first => { r with first := x }
  | .second => { r with second := x }

/-- One step of a race thread (`race_fn`); `firstRead` is what its first `Read` brings. -/
def threadStep (a : Actor) (request : ℕ → GenerateRequest) (firstRead : Option GenerateResponse) :
    Option Race :=
  (r.racer a).bind fun (x, id) =>
    match x.thread with
    | .reading =>
      match firstRead with
      | none => some (r.setRacer a { x with thread := .finished })
      | some response =>
        if (⟨[{ response }], true⟩ : ReplicaStream).Serves (request id) then
          some (r.setRacer a { x with thread := .swapping, firstToken := response })
        else none
    | .swapping =>
      if r.winnerSet then some (r.setRacer a { x with thread := .finished })
      else some { r.setRacer a { x with thread := .setting } with winnerSet := true }
    | .setting => some { r.setRacer a { x with thread := .finished } with promise := some id }
    | .finished => none

end Race

namespace InferCall

variable (hash : List UInt8 → ℕ) (g : GatewayState) (c : InferChoice) (f : InferCall)

/-- `InferHedged` after the threads are joined. -/
def afterRace (r : Race) (winnerId : ℕ) : InferCall :=
  let winner := if winnerId = 1 then r.first else r.second
  let loser := if winnerId = 1 then r.second else r.first
  match winnerId, winner.firstToken with
  | 0, _ | _, none =>
    { f with
      stage := .hedged (.returned ⟨.unavailable, "both hedged replicas failed"⟩)
      pending := [.decrementActive r.first.selection.replicaId,
        .decrementActive r.second.selection.replicaId,
        .notifyCapacityAvailable, .notifyCapacityAvailable] }
  | _, some firstToken =>
    { f with
      stage := .hedged (.forwarding winnerId winner.selection firstToken)
      pending := [.decrementActive loser.selection.replicaId, .notifyCapacityAvailable,
          .recordSuccess winner.selection.replicaId] ++
        if loser.firstToken.isSome then [.recordSuccess loser.selection.replicaId] else [] }

/-- The deadline of `wait_for(std::chrono::seconds(10))`. -/
def raceDeadline : ℕ := g.now + 10000000000

/-- One step of `InferHedged`, of its main thread or of a race thread. -/
def hedgeStep : HedgeStage → Option (GatewayState × InferCall)
  | .selecting s =>
    (s.step hash g.registry g.lb f.request.prompt [] c.draws).map fun (lb, next) =>
      ({ g with lb },
        match next with
        | .stage s => f.hedge (.selecting s)
        | .selected none =>
          f.hedge (.returned ⟨.resourceExhausted, "no replica available for hedging"⟩)
        | .selected (some first) => f.hedge (.selectingSecond first .hashing))
  | .selectingSecond first s =>
    (s.step hash g.registry g.lb (f.request.prompt ++ "_hedge") [first.replicaId] c.draws).map
      fun (lb, next) =>
        ({ g with lb },
          match next with
          | .stage s => f.hedge (.selectingSecond first s)
          | .selected none =>
            { f.hedge (.single first) with pending := [.incrementActive first.replicaId] }
          | .selected (some second) =>
            if second.replicaId = first.replicaId then
              { f.hedge (.single first) with pending := [.incrementActive first.replicaId] }
            else
              { f.hedge (.starting first second) with
                pending := [.incrementActive first.replicaId, .incrementActive second.replicaId] })
  | .single selection =>
    let r := generateRequest g.now f.request.prompt f.request.maxTokens 0
    if c.stream.Serves r then
      let (responses, streamed) := streamFromReplica selection.replicaId c.stream
      some (g, { f with
        stage := .hedged (.returned
          (if streamed < 0 then ⟨.unavailable, "replica failed"⟩ else .ok))
        written := f.written ++ responses
        pending := afterStream selection.replicaId streamed })
    else none
  | .starting first second =>
    some (g, f.hedge (.waiting
      { first := { selection := first }, second := { selection := second },
        deadline := raceDeadline g }))
  | .waiting r =>
    match c.actor with
    | .main =>
      match r.promise with
      | some winnerId => some (g, f.hedge (.joining r winnerId))
      | none => if r.deadline ≤ g.now then some (g, f.hedge (.joining r 0)) else none
    | actor =>
      (r.threadStep actor (hedgeRequest f.request.prompt f.request.maxTokens)
        c.firstRead).map fun r => (g, f.hedge (.waiting r))
  | .joining r winnerId =>
    match c.actor with
    | .main =>
      if r.first.thread = .finished ∧ r.second.thread = .finished then
        some (g, f.afterRace r winnerId)
      else none
    | actor =>
      (r.threadStep actor (hedgeRequest f.request.prompt f.request.maxTokens)
        c.firstRead).map fun r => (g, f.hedge (.joining r winnerId))
  | .forwarding winnerId winner firstToken =>
    let r := hedgeRequest f.request.prompt f.request.maxTokens winnerId
    let stream : ReplicaStream := ⟨{ response := firstToken } :: c.stream.reads, c.stream.ok⟩
    if stream.Serves r then
      let first := if c.firstWritten then [inferResponse winner.replicaId firstToken] else []
      let (responses, _) := forward winner.replicaId true 1 c.stream.reads
      some (g, { f with
        stage := .hedged (.returned .ok)
        written := f.written ++ first ++ responses
        pending := [.decrementActive winner.replicaId, .notifyCapacityAvailable] })
    else none
  | .returned _ => none

/-- One step of a call: its pending operations first, then where it is. -/
def step : Option (GatewayState × InferCall) :=
  match f.pending with
  | op :: ops => some (op.apply g, { f with pending := ops })
  | [] =>
    match f.stage with
    | .entered =>
      if f.request.hedge ∧ 2 ≤ g.registry.getAliveReplicas.length then
        some (g, f.hedge (.selecting .hashing))
      else some (g, f.goto .looping)
    | .infer s => f.inferStep hash g c s
    | .hedged s => f.hedgeStep hash g c s

/-! ## What a step of a call can do -/

/-- A run of `Infer` that is not hedged. -/
def Plain : Prop := ∀ s, f.stage ≠ .hedged s

/-- Nothing that concerns the client is different. -/
def SameOutput (f' : InferCall) : Prop :=
  f'.request = f.request ∧ f'.written = f.written ∧ f'.tokensSent = f.tokensSent ∧
    f'.streams = f.streams

/-- The effects of a step of a call, as far as its client is concerned: none, a stream of `Infer`,
or it is a step of `InferHedged`. -/
inductive OutputStep (f : InferCall) : InferCall → Prop
  | same {f' : InferCall} (hplain : f'.Plain → f.Plain) : f.SameOutput f' → OutputStep f f'
  | stream {selection : Selection} {stream : ReplicaStream} {now : ℕ} (hplain : f.Plain) :
      stream.Serves (generateRequest now f.request.prompt f.request.maxTokens f.tokensSent) →
      OutputStep f (f.streamed selection stream (streamFromReplica selection.replicaId stream).1
        (streamFromReplica selection.replicaId stream).2)
  | hedged {f' : InferCall} (s : HedgeStage) : f'.stage = .hedged s → OutputStep f f'

variable {hash g c f} {g' : GatewayState} {f' : InferCall}

theorem plain_of_infer {s : InferStage} (h : f.stage = .infer s) : f.Plain := by
  intro s' hs'
  rw [h] at hs'
  cases hs'

theorem inferStep_effect {s : InferStage} (hstage : f.stage = .infer s)
    (hs : f.inferStep hash g c s = some (g', f')) :
    OutputStep f f' ∧ g'.registry = g.registry := by
  have hplain : f.Plain := plain_of_infer hstage
  have hsame : ∀ {f₁ : InferCall}, f.SameOutput f₁ → OutputStep f f₁ := .same fun _ => hplain
  cases s with
  | looping =>
    simp only [inferStep] at hs
    split_ifs at hs <;> cases hs <;> exact ⟨hsame ⟨rfl, rfl, rfl, rfl⟩, rfl⟩
  | selecting s | reselecting s =>
    obtain ⟨⟨lb, next⟩, -, heq⟩ := Option.map_eq_some_iff.mp hs
    rcases next with s | _ | selection <;> cases heq <;>
      exact ⟨hsame ⟨rfl, rfl, rfl, rfl⟩, rfl⟩
  | queueing =>
    simp only [inferStep] at hs
    cases hs
    refine ⟨?_, rfl⟩
    split <;> exact hsame ⟨rfl, rfl, rfl, rfl⟩
  | blocked t =>
    obtain ⟨⟨queue, woken⟩, -, heq⟩ := Option.map_eq_some_iff.mp hs
    cases woken <;> cases heq <;> exact ⟨hsame ⟨rfl, rfl, rfl, rfl⟩, rfl⟩
  | allowing selection =>
    simp only [inferStep] at hs
    cases hs
    refine ⟨?_, rfl⟩
    split_ifs <;> exact hsame ⟨rfl, rfl, rfl, rfl⟩
  | streaming selection =>
    simp only [inferStep] at hs
    split_ifs at hs with hserves
    cases hs
    exact ⟨.stream hplain hserves, rfl⟩
  | returned status => cases hs

theorem afterRace_hedged (f : InferCall) (r : Race) (winnerId : ℕ) :
    ∃ s, (f.afterRace r winnerId).stage = .hedged s := by
  unfold afterRace
  dsimp only
  split <;> exact ⟨_, rfl⟩

theorem hedgeStep_effect {s : HedgeStage} (hs : f.hedgeStep hash g c s = some (g', f')) :
    (∃ s', f'.stage = .hedged s') ∧ g'.registry = g.registry ∧ g'.breakers = g.breakers ∧
      g'.queue = g.queue := by
  cases s with
  | selecting s =>
    obtain ⟨⟨lb, next⟩, -, heq⟩ := Option.map_eq_some_iff.mp hs
    rcases next with s | _ | first <;> cases heq <;> exact ⟨⟨_, rfl⟩, rfl, rfl, rfl⟩
  | selectingSecond first s =>
    obtain ⟨⟨lb, next⟩, -, heq⟩ := Option.map_eq_some_iff.mp hs
    rcases next with s | _ | second <;> cases heq
    · exact ⟨⟨_, rfl⟩, rfl, rfl, rfl⟩
    · exact ⟨⟨_, rfl⟩, rfl, rfl, rfl⟩
    · refine ⟨?_, rfl, rfl, rfl⟩
      dsimp only
      split_ifs <;> exact ⟨_, rfl⟩
  | single selection =>
    simp only [hedgeStep] at hs
    split_ifs at hs <;> cases hs <;> exact ⟨⟨_, rfl⟩, rfl, rfl, rfl⟩
  | starting first second =>
    cases hs
    exact ⟨⟨_, rfl⟩, rfl, rfl, rfl⟩
  | waiting r =>
    simp only [hedgeStep] at hs
    split at hs
    · split at hs
      · cases hs
        exact ⟨⟨_, rfl⟩, rfl, rfl, rfl⟩
      · split_ifs at hs
        cases hs
        exact ⟨⟨_, rfl⟩, rfl, rfl, rfl⟩
    · obtain ⟨r', -, heq⟩ := Option.map_eq_some_iff.mp hs
      cases heq
      exact ⟨⟨_, rfl⟩, rfl, rfl, rfl⟩
  | joining r winnerId =>
    simp only [hedgeStep] at hs
    split at hs
    · split_ifs at hs
      cases hs
      exact ⟨f.afterRace_hedged r winnerId, rfl, rfl, rfl⟩
    · obtain ⟨r', -, heq⟩ := Option.map_eq_some_iff.mp hs
      cases heq
      exact ⟨⟨_, rfl⟩, rfl, rfl, rfl⟩
  | forwarding winnerId winner firstToken =>
    simp only [hedgeStep] at hs
    split_ifs at hs <;> cases hs <;> exact ⟨⟨_, rfl⟩, rfl, rfl, rfl⟩
  | returned status => cases hs

/-- **One step of a call**: a pending operation, or a step that leaves the registry alone. -/
theorem step_effect (hs : f.step hash g c = some (g', f')) :
    (∃ op ops, f.pending = op :: ops ∧ g' = op.apply g ∧ f' = { f with pending := ops }) ∨
      f.pending = [] ∧ OutputStep f f' ∧ g'.registry = g.registry := by
  unfold step at hs
  split at hs
  · rename_i op ops hpending
    cases hs
    exact Or.inl ⟨op, ops, hpending, rfl, rfl⟩
  · rename_i hpending
    refine Or.inr ⟨hpending, ?_⟩
    split at hs
    · rename_i hstage
      have hplain : f.Plain := by
        intro s hs'
        rw [hstage] at hs'
        cases hs'
      split_ifs at hs
      · cases hs
        exact ⟨.hedged _ rfl, rfl⟩
      · cases hs
        exact ⟨.same (fun _ => hplain) ⟨rfl, rfl, rfl, rfl⟩, rfl⟩
    · rename_i s hstage
      exact inferStep_effect hstage hs
    · obtain ⟨⟨s', hs'⟩, hregistry, -⟩ := hedgeStep_effect hs
      exact ⟨.hedged s' hs', hregistry⟩

theorem step_output (hs : f.step hash g c = some (g', f')) : OutputStep f f' := by
  rcases step_effect hs with ⟨op, ops, -, -, rfl⟩ | ⟨-, houtput, -⟩
  · exact .same (fun h => h) ⟨rfl, rfl, rfl, rfl⟩
  · exact houtput

end InferCall

/-! ## The gateway -/

/-- A `RebuildRing` call: before its snapshot, before the mutex, or done. -/
inductive RebuildCall
  | entered
  | replacing (alive : List (String × ReplicaInfo))
  | done
  deriving DecidableEq, Repr

def RebuildCall.step (hash : List UInt8 → ℕ) (g : GatewayState) :
    RebuildCall → Option (GatewayState × RebuildCall)
  | .entered => some (g, .replacing g.registry.getAliveReplicas)
  | .replacing alive => (g.lb.replaceRing hash alive).map fun lb => ({ g with lb }, .done)
  | .done => none

inductive GatewayCall
  | infer (f : InferCall)
  | rebuildRing (r : RebuildCall)
  deriving DecidableEq, Repr

inductive GatewayRequest
  | infer (r : InferRequest)
  | rebuildRing
  deriving DecidableEq, Repr

/-- What the gossip layer, the rolling updater, the operator and the clock do. -/
inductive GatewayEvent
  | tick (ns : ℕ)
  | updateFromGossip (id : String) (u : MembershipUpdate)
  | setDraining (id : String) (draining : Bool)
  | setGrpcAddress (id : String) (grpcAddress : String)
  deriving DecidableEq, Repr

def GatewayEvent.apply (g : GatewayState) : GatewayEvent → GatewayState
  | .tick ns => { g with now := g.now + ns }
  | .updateFromGossip id u => { g with registry := (g.registry.updateFromGossip id u).1 }
  | .setDraining id draining => { g with registry := g.registry.setDraining id draining }
  | .setGrpcAddress id address => { g with registry := g.registry.setGrpcAddress id address }

/-- Any number of calls on one gateway. -/
def gatewayProgram (hash : List UInt8 → ℕ) :
    Program GatewayState GatewayCall GatewayRequest InferChoice GatewayEvent where
  start
    | .infer request => .infer { request }
    | .rebuildRing => .rebuildRing .entered
  call g t c :=
    match t with
    | .infer f => (f.step hash g c).map fun r => (r.1, .infer r.2)
    | .rebuildRing b => (b.step hash g).map fun r => (r.1, .rebuildRing r.2)
  env g e := some (e.apply g)

abbrev GatewayPool := Pool GatewayState GatewayCall

abbrev GatewayLabel := Program.Label GatewayRequest InferChoice GatewayEvent

/-- A gateway that knows no replica yet. -/
def newGateway (virtualNodes : ℤ) (config : CircuitBreaker.Config) (maxSize : ℤ) : GatewayPool where
  shared := { lb := { virtualNodes }, breakers := { config }, queue := { maxSize } }

/-- A hedged call on two replicas, up to its race. -/
def hedgedStart : List GatewayLabel :=
  [.env (.updateFromGossip "replica-1" ⟨"replica-1", "a:17001", .alive, 0, "v1", 0, 4⟩),
    .env (.updateFromGossip "replica-2" ⟨"replica-2", "b:17002", .alive, 0, "v1", 0, 4⟩),
    .spawn (.infer ⟨"client", "hello", 1, true⟩)] ++ List.replicate 8 (.call 0 {})

/-! ## What a step of any call can do -/

variable {hash : List UInt8 → ℕ} {g g' : GatewayState} {c : InferChoice}

theorem RebuildCall.step_shared {b b' : RebuildCall} (hs : b.step hash g = some (g', b')) :
    g'.registry = g.registry ∧ g'.breakers = g.breakers := by
  cases b with
  | entered =>
    cases hs
    exact ⟨rfl, rfl⟩
  | replacing alive =>
    obtain ⟨lb, -, heq⟩ := Option.map_eq_some_iff.mp hs
    cases heq
    exact ⟨rfl, rfl⟩
  | done => cases hs

theorem gatewayCall_cases {t t' : GatewayCall}
    (hs : (gatewayProgram hash).call g t c = some (g', t')) :
    (∃ f f', t = .infer f ∧ t' = .infer f' ∧ f.step hash g c = some (g', f')) ∨
      ∃ b b', t = .rebuildRing b ∧ t' = .rebuildRing b' ∧ g'.registry = g.registry ∧
        g'.breakers = g.breakers := by
  cases t with
  | infer f =>
    obtain ⟨⟨g₁, f'⟩, hf, heq⟩ := Option.map_eq_some_iff.mp hs
    cases heq
    exact Or.inl ⟨f, f', rfl, rfl, hf⟩
  | rebuildRing b =>
    obtain ⟨⟨g₁, b'⟩, hb, heq⟩ := Option.map_eq_some_iff.mp hs
    cases heq
    exact Or.inr ⟨b, b', rfl, rfl, RebuildCall.step_shared hb⟩

end LlmGateway.Gateway
