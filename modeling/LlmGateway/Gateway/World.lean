import LlmGateway.Gateway.PartialDelivery
import LlmGateway.Gateway.Selection
import LlmGateway.Lib.Outcome
import Mathlib.Order.WithBot

/-!
# The world of a call

One call alone on the gateway. A `World` says what the replicas send and when their first token
arrives, how ties are drawn, and what becomes of the gateway while the call waits in the queue; with
it the steps of a call are determined.

1. `World.step`: the call as a deterministic machine, and `World.Delivers`: it ends, with OK and all
   the tokens.
2. `ends_pending`, `ends_selecting`: the machine is followed through the parts of a call.
3. `delivered_iff_whole`: a call that has returned the stream of one replica.
-/

namespace LlmGateway.Gateway

open Outcome Replica

/-! ## The world of a call -/

/-- What a call depends on besides the state of the gateway. A replica sends a number of tokens,
from the one asked for on, and ends its stream with OK or not, or keeps silent from then on; in a
race its first `Read` takes some time, if it returns. The client stays. -/
structure World where
  sent : String → ℤ → ℕ
  ending : String → ℤ → Option Bool
  latency : String → ℕ
  draws : ReplicaRegistry → String → List String → List ℕ
  meanwhile : GatewayState → GatewayState

/-- The time `InferHedged` waits for a first token. -/
def raceTimeout : ℕ := 10000000000

/-- The number of a race thread, which it sets the promise to. -/
def Actor.number : Actor → ℕ
  | .main => 0
  | .first => 1
  | .second => 2

/-- The racer of an actor. -/
def Race.get (r : Race) : Actor → Racer
  | .second => r.second
  | _ => r.first

namespace World

variable (W : World) (hash : List UInt8 → ℕ)

/-- The stream of a replica for the tokens from `start` on. -/
def stream (maxTokens : ℤ) (id : String) (start : ℤ) : ReplicaStream where
  reads :=
    ((generateResponses start maxTokens).take (W.sent id start)).map fun r => { response := r }
  ok := (W.ending id start).getD false

/-- How long the first `Read` of a stream from the beginning takes: it returns with a token or at
the end of the stream, and never if the replica keeps silent. -/
def firstRead (maxTokens : ℤ) (id : String) : WithTop ℕ :=
  if (W.stream maxTokens id 0).reads = [] ∧ W.ending id 0 = none then ⊤ else W.latency id

/-- The two race threads, the one whose first `Read` returns first before the other. -/
def faster (n : ℤ) (r : Race) : Actor :=
  if W.firstRead n r.first.selection.replicaId ≤ W.firstRead n r.second.selection.replicaId then
    .first
  else .second

def slower (n : ℤ) (r : Race) : Actor :=
  if W.firstRead n r.first.selection.replicaId ≤ W.firstRead n r.second.selection.replicaId then
    .second
  else .first

/-- The race thread that goes on next, or else the main thread. -/
def nextThread (n : ℤ) (r : Race) : Actor :=
  if (r.get (W.faster n r)).thread ≠ .finished then W.faster n r
  else if (r.get (W.slower n r)).thread ≠ .finished then W.slower n r
  else .main

/-- When the first `Read` of a race thread returns. -/
def arrival (n : ℤ) (r : Race) (a : Actor) : WithTop ℕ :=
  (r.deadline - raceTimeout : ℕ) + W.firstRead n (r.get a).selection.replicaId

/-- The thread of a call that takes the next step, and when: a race thread when its `Read` returns,
the main thread when there is a winner or at its deadline. Nobody does if the call waits for a
replica that keeps silent. -/
def turn (now : ℕ) (f : InferCall) : Option (Actor × ℕ) :=
  if f.pending ≠ [] then some (.main, now)
  else
    match f.stage with
    | .infer (.streaming selection) =>
      if (W.ending selection.replicaId f.tokensSent).isSome then some (.main, now) else none
    | .hedged (.single selection) | .hedged (.forwarding _ selection _) =>
      if (W.ending selection.replicaId 0).isSome then some (.main, now) else none
    | .hedged (.waiting r) =>
      let a := W.nextThread f.request.maxTokens r
      if r.promise.isSome then some (.main, now)
      else if a ≠ .main ∧ W.arrival f.request.maxTokens r a ≤ r.deadline then
        some (a, max now ((W.arrival f.request.maxTokens r a).untopD now))
      else some (.main, max now r.deadline)
    | .hedged (.joining r _) =>
      let a := W.nextThread f.request.maxTokens r
      if a = .main then some (.main, now)
      else if W.arrival f.request.maxTokens r a = ⊤ then none
      else some (a, max now ((W.arrival f.request.maxTokens r a).untopD now))
    | _ => some (.main, now)

/-- What a call is offered when one of its threads takes its next step. -/
def choice (g : GatewayState) (actor : Actor) (f : InferCall) : InferChoice :=
  match f.stage with
  | .infer (.selecting _) | .infer (.reselecting _) =>
    { draws := W.draws g.registry f.request.prompt f.excluded }
  | .infer (.streaming selection) =>
    { stream := W.stream f.request.maxTokens selection.replicaId f.tokensSent }
  | .hedged (.selecting _) => { draws := W.draws g.registry f.request.prompt [] }
  | .hedged (.selectingSecond first _) =>
    { draws := W.draws g.registry (f.request.prompt ++ "_hedge") [first.replicaId] }
  | .hedged (.single selection) =>
    { stream := W.stream f.request.maxTokens selection.replicaId 0 }
  | .hedged (.waiting r) | .hedged (.joining r _) =>
    { actor
      firstRead := (W.stream f.request.maxTokens (r.get actor).selection.replicaId 0).reads.head?.map
        (·.response) }
  | .hedged (.forwarding _ winner _) =>
    let s := W.stream f.request.maxTokens winner.replicaId 0
    { stream := { s with reads := s.reads.tail } }
  | _ => {}

/-- What `SelectReplica` selects in the state of the gateway. -/
def selection (g : GatewayState) (prompt : String) (excluded : List String) : Option Selection :=
  (g.lb.selectReplica hash g.registry prompt excluded (W.draws g.registry prompt excluded)
    g.lb.ring.entries.length).join

/-- One step of a call that is alone. A call that is blocked in the queue waits for the others. -/
def step (x : GatewayState × InferCall) : Option (GatewayState × InferCall) :=
  (W.turn x.1.now x.2).bind fun (actor, now) =>
    match x.2.step hash { x.1 with now } (W.choice x.1 actor x.2) with
    | some x' => some x'
    | none =>
      match x.2.stage with
      | .infer (.blocked _) => some (W.meanwhile x.1, x.2)
      | _ => none

end World

/-- The call has returned OK and has written all the tokens, in order. -/
def InferCall.Delivered (f : InferCall) : Prop :=
  f.stage.status = some .ok ∧
    f.written.map (·.token) = (List.range f.request.maxTokens.toNat).map fun k : ℕ => tokenName k

instance (f : InferCall) : Decidable f.Delivered := inferInstanceAs (Decidable (_ ∧ _))

namespace World

variable (W : World) (hash : List UInt8 → ℕ)

/-- The call ends, and has delivered. -/
def Delivers (g : GatewayState) (request : InferRequest) : Prop :=
  Ends (W.step hash) (fun x => x.2.Delivered) (g, { request })

/-- The replica that wins the race: the first one, by the return of its first `Read`, that sends a
token and is in time. -/
def winner (maxTokens : ℤ) (s₁ s₂ : Selection) : Option Selection :=
  (if W.firstRead maxTokens s₁.replicaId ≤ W.firstRead maxTokens s₂.replicaId then [s₁, s₂]
    else [s₂, s₁]).find? fun s => W.firstRead maxTokens s.replicaId ≤ raceTimeout ∧
      (W.stream maxTokens s.replicaId 0).reads ≠ []

/-- The stream of the replica from the beginning has all the tokens. -/
def Whole (maxTokens : ℤ) (s : Selection) : Prop := maxTokens.toNat ≤ W.sent s.replicaId 0

end World

theorem not_delivered {f : InferCall} {status : Status} (h : f.stage.status = some status)
    (hne : status ≠ .ok) : ¬ f.Delivered := by
  rintro ⟨hok, -⟩
  rw [h] at hok
  exact hne (Option.some.inj hok)

namespace World

variable {W : World} {hash : List UInt8 → ℕ} {P : GatewayState × InferCall → Prop}
  {g : GatewayState} {f : InferCall}

/-! ## Following a call -/

theorem turn_pending {op : Operation} {ops : List Operation} {now : ℕ}
    (hpending : f.pending = op :: ops) : W.turn now f = some (.main, now) :=
  if_pos (by simp [hpending])

/-- The pending operations, one after the other. -/
theorem ends_pending :
    Ends (W.step hash) P (g, f) ↔
      Ends (W.step hash) P (f.pending.foldl Operation.apply g, { f with pending := [] }) := by
  obtain ⟨ops, hops⟩ : ∃ ops, f.pending = ops := ⟨_, rfl⟩
  rw [hops]
  induction ops generalizing g f with
  | nil =>
    have hsame : f = { f with pending := [] } := by rw [← hops]
    rw [← hsame]
    rfl
  | cons op ops ih =>
    have hstep : W.step hash (g, f) = some (op.apply g, { f with pending := ops }) := by
      unfold World.step InferCall.step
      rw [turn_pending hops, Option.bind_some]
      dsimp only
      rw [hops]
    rw [ends_iff_of_step hstep, ih (f := { f with pending := ops }) rfl]
    rfl

theorem step_hedged {s : HedgeStage} (hstage : f.stage = .hedged s) (hpending : f.pending = [])
    {actor : Actor} {now : ℕ} (hturn : W.turn g.now f = some (actor, now)) :
    W.step hash (g, f) = f.hedgeStep hash { g with now } (W.choice g actor f) s := by
  unfold World.step InferCall.step
  rw [hturn, Option.bind_some]
  dsimp only
  rw [hpending, hstage]
  dsimp only
  cases f.hedgeStep hash { g with now } (W.choice g actor f) s <;> rfl

theorem step_silent (hturn : W.turn g.now f = none) : W.step hash (g, f) = none := by
  unfold World.step
  rw [hturn, Option.bind_none]

theorem ends_selecting {prompt : String} {excluded : List String} {w : SelectStage → HedgeStage}
    {done : Option Selection → InferCall} {fuel : ℕ} {lb lb' : LoadBalancer} {s : SelectStage}
    {selection : Option Selection}
    (hstage : ∀ lb s lb' s',
      s.step hash g.registry lb prompt excluded (W.draws g.registry prompt excluded) =
        some (lb', .stage s') →
      W.step hash ({ g with lb }, f.hedge (w s)) = some ({ g with lb := lb' }, f.hedge (w s')))
    (hdone : ∀ lb s lb' selection,
      s.step hash g.registry lb prompt excluded (W.draws g.registry prompt excluded) =
        some (lb', .selected selection) →
      W.step hash ({ g with lb }, f.hedge (w s)) = some ({ g with lb := lb' }, done selection))
    (hfinish : SelectStage.finish hash g.registry prompt excluded
      (W.draws g.registry prompt excluded) fuel lb s = some (lb', selection)) :
    Ends (W.step hash) P ({ g with lb }, f.hedge (w s)) ↔
      Ends (W.step hash) P ({ g with lb := lb' }, done selection) := by
  induction fuel generalizing lb s with
  | zero => cases hfinish
  | succ fuel ih =>
    obtain ⟨⟨lb₁, next⟩, hs, hrest⟩ := Option.bind_eq_some_iff.mp hfinish
    cases next with
    | stage s' => exact (ends_iff_of_step (hstage _ _ _ _ hs)).trans (ih hrest)
    | selected selection' =>
      obtain ⟨rfl, rfl⟩ := Prod.mk.inj (Option.some.inj hrest)
      exact ends_iff_of_step (hdone _ _ _ _ hs)

theorem finish_selection (W : World) (hash : List UInt8 → ℕ) (hlb : g.lb.ringLocked = false)
    (prompt : String) (excluded : List String) :
    ∃ fuel, SelectStage.finish hash g.registry prompt excluded
      (W.draws g.registry prompt excluded) fuel g.lb .hashing =
        some (g.lb, W.selection hash g prompt excluded) := by
  refine ⟨g.lb.ring.entries.length + 3, ?_⟩
  rw [SelectStage.finish_eq hlb (le_refl _)]
  unfold selection LoadBalancer.selectReplica
  rw [selectByConsistentHash_eq hash g.lb g.registry prompt excluded (le_refl _)]
  rfl

/-! ## Streams -/

variable {n : ℤ} {id : String} {start : ℤ}

theorem stream_serves {r : GenerateRequest} (hn : r.maxTokens = n)
    (hstart : r.tokensAlreadyGenerated = start) : (W.stream n id start).Serves r := by
  unfold ReplicaStream.Serves stream
  rw [hn, hstart, List.map_map]
  have hid : ((generateResponses start n).take (W.sent id start)).map
      ((fun e : StreamRead => e.response) ∘ fun r => { response := r }) =
      (generateResponses start n).take (W.sent id start) := List.map_id _
  rw [hid]
  exact List.take_prefix _ _

theorem stream_attended (W : World) (n : ℤ) (id : String) (start : ℤ) :
    ∀ e ∈ (W.stream n id start).reads, e.forwarded = true := by
  intro e he
  obtain ⟨r, -, rfl⟩ := List.mem_map.mp he
  rfl

/-- All of a stream is forwarded to a client that stays. -/
theorem forward_attended {ok : Bool} {k : ℤ} {es : List StreamRead}
    (hes : ∀ e ∈ es, e.forwarded = true) :
    (forward id ok k es).1 = es.map fun e => inferResponse id e.response := by
  rw [forward_eq, List.takeWhile_eq_self_iff.mpr hes]

theorem tokens_eq_iff (W : World) (n : ℤ) (id : String) :
    (W.stream n id 0).reads.map (fun e => (inferResponse id e.response).token) =
      ((List.range n.toNat).map fun k : ℕ => tokenName k) ↔ n.toNat ≤ W.sent id 0 := by
  have hreads : (W.stream n id 0).reads.map (fun e => (inferResponse id e.response).token) =
      (List.range (min (W.sent id 0) n.toNat)).map fun k : ℕ => tokenName k := by
    unfold stream generateResponses firstResponses
    rw [List.map_map, ← List.map_take, List.map_map, List.take_range, sub_zero]
    refine List.map_congr_left fun k _ => ?_
    show "token_" ++ toString (0 + (k : ℤ)) = tokenName k
    rw [zero_add]
    rfl
  rw [hreads]
  constructor
  · intro h
    have hlength := congrArg List.length h
    rw [List.length_map, List.length_map, List.length_range, List.length_range] at hlength
    omega
  · intro h
    rw [min_eq_right h]

/-! ## Calls that have returned -/

theorem ends_returned {status : Status} (hstage : f.stage = .hedged (.returned status)) :
    Ends (W.step hash) (fun x => x.2.Delivered) (g, f) ↔ f.Delivered := by
  rw [ends_pending, ends_iff_of_stop]
  · rfl
  · have hturn : ∀ g : GatewayState, W.turn g.now { f with pending := [] } = some (.main, g.now) := by
      intro g
      unfold turn
      dsimp only
      rw [hstage]
      rfl
    rw [step_hedged (f := { f with pending := [] }) hstage rfl (hturn _)]
    rfl

/-- A call that has returned OK with the stream of one replica from the beginning. -/
theorem delivered_iff_whole {s : Selection} (hstatus : f.stage.status = some .ok)
    (hwritten : f.written = (W.stream f.request.maxTokens s.replicaId 0).reads.map fun e =>
      inferResponse s.replicaId e.response) : f.Delivered ↔ W.Whole f.request.maxTokens s := by
  unfold InferCall.Delivered Whole
  rw [hwritten, List.map_map, ← W.tokens_eq_iff f.request.maxTokens s.replicaId]
  exact and_iff_right hstatus

end World

end LlmGateway.Gateway
