import LlmGateway.Gateway.InferMove
import LlmGateway.Gateway.PartialDelivery
import LlmGateway.Gateway.Selection
import Mathlib.Data.Nat.Count
import Mathlib.Data.Prod.Lex

/-!
# The budget of the retry loop

`Infer` goes round its loop `max_retries` times. A replica whose circuit refuses the request costs
a round, as a stream that fails or ends early does, although nothing is sent to it.

A call is followed here by its own steps. A `Schedule` says in which state it finds the gateway at
each of them and what it is offered; what the other calls, the gossip layer and the clock do in
between is left open (`frame_of_run`). `Favourable` says that one replica could serve the call all
the time.

1. `Goes`, `favourable_step`: what a step of such a call can do.
2. `OnCourse`: where the call is, by the rounds it has lost.
3. `Brought`: what the streams of the lost rounds have brought.
4. `delivers_iff`: the call returns, and it has delivered everything exactly when it has lost fewer
   than `max_retries` rounds, or one stream failed only after the last token and another one ended
   early without failing.
-/

namespace LlmGateway.Gateway

open Transition Replica

/-! ## A call by its own steps -/

/-- The state in which a call finds the gateway at each of its steps, and what it is offered. -/
abbrev Schedule := ℕ → GatewayState × InferChoice

/-- The call after a step. A call that cannot take it stays where it is. -/
def InferCall.next (hash : List UInt8 → ℕ) (f : InferCall) (m : GatewayState × InferChoice) :
    InferCall :=
  (f.step hash m.1 m.2).elim f (·.2)

/-- The call after a number of steps. -/
def Schedule.frame (hash : List UInt8 → ℕ) (S : Schedule) (request : InferRequest) : ℕ → InferCall
  | 0 => { request }
  | k + 1 => (S.frame hash request k).next hash (S k)

/-- What a call finds and is offered at a step. -/
def metBy (g : GatewayState) (_ : GatewayCall) (c : InferChoice) :
    List (GatewayState × InferChoice) :=
  [(g, c)]

/-- The circuit of the selected replica refuses the request. -/
def InferCall.turnedAway (g : GatewayState) (f : InferCall) : Bool :=
  f.pending = [] && match f.stage with
    | .infer (.allowing selection) => !(g.breakers.allowRequest g.now selection.replicaId).2
    | _ => false

/-- The stream that is dispatched fails or ends before the last token. -/
def InferCall.cutShort (c : InferChoice) (f : InferCall) : Bool :=
  f.pending = [] && match f.stage with
    | .infer (.streaming _) =>
      c.stream.fails || decide (f.tokensSent + c.stream.forwarded < f.request.maxTokens)
    | _ => false

/-- The stream that is dispatched fails, but only after the last of the tokens. -/
def InferCall.breaksAtEnd (c : InferChoice) (f : InferCall) : Bool :=
  f.pending = [] && match f.stage with
    | .infer (.streaming _) =>
      c.stream.fails && decide (f.request.maxTokens ≤ f.tokensSent + c.stream.forwarded)
    | _ => false

/-- The stream that is dispatched ends after some of the tokens, without failing. -/
def InferCall.endsEarly (c : InferChoice) (f : InferCall) : Bool :=
  f.pending = [] && match f.stage with
    | .infer (.streaming _) =>
      !c.stream.fails && decide (0 < c.stream.forwarded ∧
        f.tokensSent + c.stream.forwarded < f.request.maxTokens)
    | _ => false

/-- The step loses a round of the loop. -/
def InferCall.losesRound (m : GatewayState × InferChoice) (f : InferCall) : Bool :=
  f.cutShort m.2 || f.turnedAway m.1

/-- The tokens of the request have all been written, and the call has returned OK. -/
def InferCall.DeliversAll (f : InferCall) : Prop :=
  f.stage.status = some .ok ∧
    ∀ k : ℕ, (k : ℤ) < f.request.maxTokens → tokenName k ∈ f.written.map (·.token)

namespace Schedule

variable (hash : List UInt8 → ℕ) (S : Schedule) (request : InferRequest)

/-- How many of the streams that were dispatched in the first steps failed or ended early. -/
def streamsLost (k : ℕ) : ℕ :=
  Nat.count (fun k => (S.frame hash request k).cutShort (S k).2) k

/-- How many rounds of the loop were lost in the first steps. -/
def roundsLost (k : ℕ) : ℕ :=
  Nat.count (fun k => (S.frame hash request k).losesRound (S k)) k

/-- The client stays with a call that is not hedged, and the replica `id` could serve it all the
time: it is alive and not draining, below capacity and its circuit is CLOSED, and a stream from it
brings all the tokens asked for. The ring is free when the call wants it, and a stream is always
one of a `Generate` call. -/
structure Favourable (id : String) : Prop where
  unhedged : request.hedge = false
  attended : ∀ k, (S k).2.cancelled = false ∧ ∀ e ∈ (S k).2.stream.reads, e.forwarded = true
  available : ∀ k, ∃ info, (S k).1.registry.Eligible [] id info ∧ info.score.isSome
  closed : ∀ k, ((S k).1.breakers.getOrCreate id).state = .closed
  named : ∀ k, ∀ e ∈ (S k).1.registry.getAliveReplicas, e.1 ≠ ""
  unlocked : ∀ k, (S.frame hash request k).pending = [] →
    (S.frame hash request k).stage = .infer (.selecting .hashing) → (S k).1.lb.ringLocked = false
  served : ∀ k selection, (S.frame hash request k).pending = [] →
    (S.frame hash request k).stage = .infer (.streaming selection) →
    (S k).2.stream.Serves (generateRequest (S k).1.now request.prompt request.maxTokens
      (S.frame hash request k).tokensSent)
  complete : ∀ k selection, (S.frame hash request k).pending = [] →
    (S.frame hash request k).stage = .infer (.streaming selection) → selection.replicaId = id →
    (S k).2.stream.ok = true ∧ (S k).2.stream.reads.length =
      (request.maxTokens - (S.frame hash request k).tokensSent).toNat

end Schedule

variable {hash : List UInt8 → ℕ} {S : Schedule} {request : InferRequest} {id : String}
  {g g' : GatewayState} {c : InferChoice} {f f' : InferCall}

theorem plain_before (hs : f.step hash g c = some (g', f')) (hplain : f'.Plain) :
    f.Plain ∧ f'.request = f.request := by
  cases InferCall.step_output hs with
  | same hback hsame => exact ⟨hback hplain, hsame.1⟩
  | stream hbefore _ => exact ⟨hbefore, (InferCall.streamed_fields f _ _ _ _).1⟩
  | hedged s hstage => exact absurd hstage (hplain s)

/-- **Schedules and runs.** In every run a call that is not hedged is where its own steps have led
it. -/
theorem frame_of_run {es : List GatewayLabel} {p : GatewayPool}
    (hrun : Run (gatewayProgram hash).step ⟨g, []⟩ es p) {i : ℕ}
    (hi : p.calls[i]? = some (.infer f)) (hplain : f.Plain)
    (hS : ∀ k m, (Program.history metBy (gatewayProgram hash) g i es)[k]? = some m → S k = m) :
    f = S.frame hash f.request
      (Program.history metBy (gatewayProgram hash) g i es).length := by
  let Q : List (GatewayState × InferChoice) → GatewayCall → Prop := fun ms t =>
    ∀ f, t = .infer f → f.Plain → (∀ k m, ms[k]? = some m → S k = m) →
      f = S.frame hash f.request ms.length
  have hall : Q (Program.history metBy (gatewayProgram hash) g i es) (.infer f) := by
    refine Program.history_invariant (J := fun _ _ => True) (fun _ _ _ _ _ => trivial) ?_ ?_ hrun hi
    · rintro (request | _) f hf - -
      · cases hf
        rfl
      · cases hf
    · rintro g t c g' t' ms - hQ hs f' rfl hplain hS
      cases t with
      | rebuildRing b =>
        obtain ⟨r, -, heq⟩ := Option.map_eq_some_iff.mp hs
        cases heq
      | infer f =>
        obtain ⟨⟨g₁, f₁⟩, hstep, heq⟩ := Option.map_eq_some_iff.mp hs
        cases heq
        obtain ⟨hplain, hrequest⟩ := plain_before hstep hplain
        have hbefore : f = S.frame hash f.request ms.length := by
          refine hQ f rfl hplain fun k m hk => hS k m ?_
          rw [List.getElem?_append_left (List.getElem?_eq_some_iff.mp hk).1, hk]
        have hlast : S ms.length = (g, c) := hS ms.length (g, c) (by simp [metBy])
        rw [List.length_append, metBy, List.length_singleton, Schedule.frame, hrequest, ← hbefore,
          hlast, InferCall.next, hstep]
        rfl
  exact hall f rfl hplain hS

/-! ## The steps of a call that one replica could serve -/

def SelectStage.points : SelectStage → ℕ
  | .walking points => points.length
  | _ => 0

/-- How far the stages of a round are from its end. -/
def Stage.rank : Stage → ℕ
  | .entered => 7
  | .infer .looping => 6
  | .infer (.selecting .hashing) => 5
  | .infer (.selecting (.walking _)) => 4
  | .infer (.selecting .leastConnections) => 3
  | .infer (.allowing _) => 2
  | .infer (.streaming _) => 1
  | _ => 0

/-- How far a call is from its return: the rounds, the stages of the round, the points of the ring
and the pending operations. -/
def InferCall.distance (f : InferCall) : ℕ ×ₗ ℕ ×ₗ ℕ ×ₗ ℕ :=
  toLex (maxRetries - f.attempt, toLex (f.stage.rank, toLex
    ((match f.stage with
      | .infer (.selecting s) => s.points
      | _ => 0), f.pending.length)))

/-- The steps of a call that the replica `id` could serve. There is always a selection, so the call
does not come to the queue. -/
inductive Goes (id : String) (m : GatewayState × InferChoice) (f : InferCall) : InferCall → Prop
  | pending {op : Operation} {ops : List Operation} :
      f.pending = op :: ops → Goes id m f { f with pending := ops }
  | enter : f.pending = [] → f.stage = .entered → Goes id m f (f.goto .looping)
  | select : f.pending = [] → f.stage = .infer .looping → f.attempt < maxRetries →
      f.tokensSent < f.request.maxTokens → Goes id m f (f.goto (.selecting .hashing))
  | leave : f.pending = [] → f.stage = .infer .looping →
      ¬(f.attempt < maxRetries ∧ f.tokensSent < f.request.maxTokens) →
      Goes id m f (f.goto (.returned f.finalStatus))
  | scan {s s' : SelectStage} : f.pending = [] → f.stage = .infer (.selecting s) →
      (f.goto (.selecting s')).distance < f.distance → Goes id m f (f.goto (.selecting s'))
  | choose {s : SelectStage} {selection : Selection} : f.pending = [] →
      f.stage = .infer (.selecting s) → Goes id m f (f.goto (.allowing selection))
  | allow {selection : Selection} : f.pending = [] → f.stage = .infer (.allowing selection) →
      f.turnedAway m.1 = false → Goes id m f
        { f.goto (.streaming selection) with pending := [.incrementActive selection.replicaId] }
  | refuse {selection : Selection} : f.pending = [] → f.stage = .infer (.allowing selection) →
      f.turnedAway m.1 = true → selection.replicaId ≠ id →
      Goes id m f (f.retryWithout selection.replicaId)
  | stream {selection : Selection} : f.pending = [] → f.stage = .infer (.streaming selection) →
      m.2.stream.Serves (generateRequest m.1.now f.request.prompt f.request.maxTokens
        f.tokensSent) → (selection.replicaId = id → f.cutShort m.2 = false) →
      Goes id m f (f.streamed selection m.2.stream
        (streamFromReplica selection.replicaId m.2.stream).1
        (streamFromReplica selection.replicaId m.2.stream).2)

/-- Where a call is that the replica `id` could serve, by the rounds it has lost. -/
def InferCall.OnCourse (f : InferCall) : Prop :=
  match f.stage with
  | .entered | .infer .looping => f.request.maxTokens ≤ f.tokensSent → f.attempt < maxRetries
  | .infer (.selecting _) | .infer (.allowing _) | .infer (.streaming _) =>
    f.attempt < maxRetries ∧ f.tokensSent < f.request.maxTokens
  | .infer (.returned status) =>
    status = f.finalStatus ∧ (f.request.maxTokens ≤ f.tokensSent ↔ f.attempt < maxRetries)
  | _ => False

theorem select_step {r : ReplicaRegistry} {lb : LoadBalancer} {prompt : String}
    {excluded : List String} {draws : List ℕ} {info : ReplicaInfo} {s : SelectStage}
    (havailable : r.Eligible [] id info) (hscore : info.score.isSome) (hid : id ∉ excluded)
    (hnamed : ∀ e ∈ r.getAliveReplicas, e.1 ≠ "") (hlock : s = .hashing → lb.ringLocked = false) :
    ∃ lb' next, s.step hash r lb prompt excluded draws = some (lb', next) ∧
      next ≠ .selected none := by
  cases s with
  | hashing =>
    rw [SelectStage.step, if_neg (by simp [hlock rfl])]
    split_ifs
    · exact ⟨_, _, rfl, by simp⟩
    · exact ⟨_, _, rfl, by simp⟩
  | walking points =>
    cases points with
    | nil => exact ⟨_, _, rfl, by simp⟩
    | cons point points =>
      rw [SelectStage.step]
      cases r.candidate excluded point with
      | some selection => exact ⟨_, _, rfl, by simp⟩
      | none => exact ⟨_, _, rfl, by simp⟩
  | leastConnections =>
    refine ⟨_, _, rfl, ?_⟩
    have heligible : r.Eligible excluded id info := { havailable with notExcluded := hid }
    obtain ⟨hmem, hpickable⟩ := heligible.pickable
    have hsome : (r.selectByLeastConnections excluded draws).isSome :=
      selectByLeastConnections_isSome hnamed hmem hpickable hscore
    intro hnone
    rw [SelectNext.selected.injEq] at hnone
    rw [hnone] at hsome
    cases hsome

theorem distance_of_rank (hattempt : f'.attempt = f.attempt) (h : f'.stage.rank < f.stage.rank) :
    f'.distance < f.distance := by
  unfold InferCall.distance
  rw [hattempt]
  exact Prod.Lex.toLex_lt_toLex.mpr (Or.inr ⟨rfl, Prod.Lex.toLex_lt_toLex.mpr (Or.inl h)⟩)

theorem distance_of_attempt (hlt : f.attempt < maxRetries) (h : f'.attempt = f.attempt + 1) :
    f'.distance < f.distance := by
  refine Prod.Lex.toLex_lt_toLex.mpr (Or.inl ?_)
  show maxRetries - f'.attempt < maxRetries - f.attempt
  omega

theorem distance_scan {r : ReplicaRegistry} {lb lb' : LoadBalancer} {prompt : String}
    {excluded : List String} {draws : List ℕ} {s s' : SelectStage}
    (hstage : f.stage = .infer (.selecting s))
    (hs : s.step hash r lb prompt excluded draws = some (lb', .stage s')) :
    (f.goto (.selecting s')).distance < f.distance := by
  have hrank : (f.goto (.selecting s')).stage.rank < f.stage.rank →
      (f.goto (.selecting s')).distance < f.distance := distance_of_rank rfl
  rw [hstage] at hrank
  cases s with
  | hashing =>
    rw [SelectStage.step] at hs
    split_ifs at hs <;> cases hs <;> exact hrank (by simp [InferCall.goto, Stage.rank])
  | walking points =>
    cases points with
    | nil =>
      cases hs
      exact hrank (by simp [InferCall.goto, Stage.rank])
    | cons point points =>
      rw [SelectStage.step] at hs
      cases hcandidate : r.candidate excluded point with
      | some selection =>
        rw [hcandidate] at hs
        cases hs
      | none =>
        -- the same stage, with one point less
        rw [hcandidate] at hs
        cases hs
        unfold InferCall.distance
        rw [hstage]
        refine Prod.Lex.toLex_lt_toLex.mpr (Or.inr ⟨rfl, ?_⟩)
        refine Prod.Lex.toLex_lt_toLex.mpr (Or.inr ⟨rfl, ?_⟩)
        refine Prod.Lex.toLex_lt_toLex.mpr (Or.inl ?_)
        show points.length < (point :: points).length
        simp
  | leastConnections => cases hs

theorem frame_succ {k : ℕ} {x : GatewayState × InferCall}
    (hs : (S.frame hash request k).step hash (S k).1 (S k).2 = some x) :
    S.frame hash request (k + 1) = x.2 := by
  rw [Schedule.frame, InferCall.next, hs]
  rfl

/-- **One step** of a call that the replica `id` could serve. -/
theorem favourable_step (h : S.Favourable hash request id) {k : ℕ}
    (hf : S.frame hash request k = f) (hrequest : f.request = request) (hcourse : f.OnCourse)
    (hid : id ∉ f.excluded) (hunfinished : ¬ f.Finished) :
    Goes id (S k) f (S.frame hash request (k + 1)) := by
  have hsucc : ∀ {x}, f.step hash (S k).1 (S k).2 = some x →
      S.frame hash request (k + 1) = x.2 := by
    intro x hs
    rw [← hf] at hs
    exact frame_succ hs
  cases hpending : f.pending with
  | cons op ops =>
    have hs : f.step hash (S k).1 (S k).2 = some (op.apply (S k).1, { f with pending := ops }) := by
      unfold InferCall.step
      rw [hpending]
    rw [hsucc hs]
    exact .pending hpending
  | nil =>
    unfold InferCall.OnCourse at hcourse
    split at hcourse
    · rename_i hstage
      have hs : f.step hash (S k).1 (S k).2 = some ((S k).1, f.goto .looping) := by
        unfold InferCall.step
        rw [hpending, hstage]
        simp [hrequest, h.unhedged]
      rw [hsucc hs]
      exact .enter hpending hstage
    · rename_i hstage
      have hstep : f.step hash (S k).1 (S k).2 = _ := step_infer hpending hstage
      by_cases hloop : f.attempt < maxRetries ∧ f.tokensSent < f.request.maxTokens
      · rw [InferCall.inferStep, if_pos hloop, (h.attended k).1, if_neg Bool.false_ne_true] at hstep
        rw [hsucc hstep]
        exact .select hpending hstage hloop.1 hloop.2
      · rw [InferCall.inferStep, if_neg hloop] at hstep
        rw [hsucc hstep]
        exact .leave hpending hstage hloop
    · rename_i s hstage
      have hstep : f.step hash (S k).1 (S k).2 = _ := step_infer hpending hstage
      obtain ⟨info, havailable, hscore⟩ := h.available k
      have hlock : s = .hashing → (S k).1.lb.ringLocked = false := by
        rintro rfl
        exact h.unlocked k (hf ▸ hpending) (hf ▸ hstage)
      obtain ⟨lb, next, hselect, hsome⟩ : ∃ lb next, s.step hash (S k).1.registry (S k).1.lb
          f.request.prompt f.excluded (S k).2.draws = some (lb, next) ∧ next ≠ .selected none :=
        select_step havailable hscore hid (h.named k) hlock
      rw [InferCall.inferStep, hselect] at hstep
      rw [hsucc hstep]
      rcases next with s' | _ | selection
      · exact .scan hpending hstage (distance_scan hstage hselect)
      · exact absurd rfl hsome
      · exact .choose hpending hstage
    · rename_i selection hstage
      have hstep : f.step hash (S k).1 (S k).2 = _ := step_infer hpending hstage
      have hturned : f.turnedAway (S k).1 =
          !((S k).1.breakers.allowRequest (S k).1.now selection.replicaId).2 := by
        simp [InferCall.turnedAway, hpending, hstage]
      rw [InferCall.inferStep] at hstep
      generalize hanswer : (S k).1.breakers.allowRequest (S k).1.now selection.replicaId = answer
        at hstep hturned
      obtain ⟨breakers, allowed⟩ := answer
      rw [hsucc hstep]
      cases allowed with
      | true => exact .allow hpending hstage hturned
      | false =>
        refine .refuse hpending hstage hturned ?_
        -- a closed circuit lets every request through
        rintro rfl
        have hallowed := congrArg Prod.snd hanswer
        simp [CircuitBreakerManager.allowRequest, CircuitBreaker.allowRequest, h.closed k]
          at hallowed
    · rename_i selection hstage
      have hstep : f.step hash (S k).1 (S k).2 = _ := step_infer hpending hstage
      have hserves := h.served k selection (hf ▸ hpending) (hf ▸ hstage)
      rw [hf, ← hrequest] at hserves
      rw [InferCall.inferStep, if_pos hserves] at hstep
      rw [hsucc hstep]
      refine .stream hpending hstage hserves fun hserver => ?_
      obtain ⟨hok, hlength⟩ := h.complete k selection (hf ▸ hpending) (hf ▸ hstage) hserver
      have hforwarded : (S k).2.stream.forwarded = (S k).2.stream.reads.length := by
        unfold ReplicaStream.forwarded
        rw [List.takeWhile_eq_self_iff.mpr (h.attended k).2]
      rw [hf, ← hrequest] at hlength
      have hall : f.request.maxTokens ≤ f.tokensSent + (S k).2.stream.forwarded := by
        omega
      simp [InferCall.cutShort, hstage, ReplicaStream.fails, hok, hall]
    · rename_i status hstage
      exact absurd ⟨hpending, status, Or.inl hstage⟩ hunfinished
    · exact hcourse.elim

/-! ## What the steps keep -/

section

variable {selection : Selection}

theorem streamed_cutShort (hpending : f.pending = [])
    (hstage : f.stage = .infer (.streaming selection)) (hlost : f.cutShort c = true)
    (hunsent : f.tokensSent < f.request.maxTokens) :
    let f' := f.streamed selection c.stream (streamFromReplica selection.replicaId c.stream).1
      (streamFromReplica selection.replicaId c.stream).2
    f'.stage = .infer .looping ∧ f'.attempt = f.attempt + 1 ∧
      f'.excluded = f.excluded ++ [selection.replicaId] ∧ f'.tokensSent < f'.request.maxTokens := by
  simp only [InferCall.cutShort, hpending, hstage, decide_true, Bool.true_and, Bool.or_eq_true,
    decide_eq_true_eq] at hlost
  rw [streamFromReplica_returned]
  by_cases hfails : c.stream.fails = true
  · simp only [hfails, if_true, InferCall.streamed]
    rw [if_pos (by omega)]
    exact ⟨rfl, rfl, rfl, hunsent⟩
  · have hshort := hlost.resolve_left hfails
    simp only [hfails, InferCall.streamed]
    rw [if_neg (by simp), if_neg (by simpa using hshort)]
    exact ⟨rfl, rfl, rfl, by simpa [InferCall.retryWithout] using hshort⟩

theorem streamed_whole (hpending : f.pending = [])
    (hstage : f.stage = .infer (.streaming selection)) (hwhole : f.cutShort c = false) :
    let f' := f.streamed selection c.stream (streamFromReplica selection.replicaId c.stream).1
      (streamFromReplica selection.replicaId c.stream).2
    f'.stage = .infer (.returned .ok) ∧ f'.attempt = f.attempt ∧ f'.excluded = f.excluded ∧
      f'.request.maxTokens ≤ f'.tokensSent := by
  simp only [InferCall.cutShort, hpending, hstage, decide_true, Bool.true_and, Bool.or_eq_false_iff,
    decide_eq_false_iff_not, not_lt] at hwhole
  rw [streamFromReplica_returned]
  simp only [hwhole.1, InferCall.streamed]
  rw [if_neg (by simp), if_pos (by simpa using hwhole.2)]
  exact ⟨rfl, rfl, rfl, by simpa [InferCall.goto] using hwhole.2⟩

end

/-- Where a call is that has lost `lost` rounds. -/
structure InferCall.Followed (request : InferRequest) (id : String) (lost : ℕ) (f : InferCall) :
    Prop where
  request : f.request = request
  course : f.OnCourse
  spared : id ∉ f.excluded
  counted : f.attempt = lost
  resumed : f.Resumed

theorem losesRound_eq_false {m : GatewayState × InferChoice}
    (h : ∀ selection, f.stage ≠ .infer (.allowing selection) ∧
      f.stage ≠ .infer (.streaming selection)) : f.losesRound m = false := by
  have hcut : f.cutShort m.2 = false := by
    unfold InferCall.cutShort
    split
    · rename_i selection hstage
      exact absurd hstage (h selection).2
    · exact Bool.and_false _
  have hturned : f.turnedAway m.1 = false := by
    unfold InferCall.turnedAway
    split
    · rename_i selection hstage
      exact absurd hstage (h selection).1
    · exact Bool.and_false _
  unfold InferCall.losesRound
  rw [hcut, hturned]
  rfl

theorem InferCall.Followed.move {lost : ℕ} {m : GatewayState × InferChoice}
    (h : f.Followed request id lost) (hsame : f.SameOutput f') (hcourse : f'.OnCourse)
    (hexcluded : f'.excluded = f.excluded) (hattempt : f'.attempt = f.attempt)
    (hround : f.losesRound m = false) :
    f'.Followed request id (lost + if f.losesRound m = true then 1 else 0) := by
  rw [if_neg (by simp [hround]), Nat.add_zero]
  exact ⟨hsame.1.trans h.request, hcourse, hexcluded ▸ h.spared, hattempt.trans h.counted,
    h.resumed.same hsame⟩

theorem InferCall.Followed.streamed {lost : ℕ} {m : GatewayState × InferChoice}
    {selection : Selection} (h : f.Followed request id lost) (hpending : f.pending = [])
    (hstage : f.stage = .infer (.streaming selection))
    (hserves : m.2.stream.Serves (generateRequest m.1.now f.request.prompt f.request.maxTokens
      f.tokensSent)) (hserver : selection.replicaId = id → f.cutShort m.2 = false) :
    let f' := f.streamed selection m.2.stream (streamFromReplica selection.replicaId m.2.stream).1
      (streamFromReplica selection.replicaId m.2.stream).2
    f'.Followed request id (lost + if f.losesRound m = true then 1 else 0) ∧
      f'.distance < f.distance := by
  intro f'
  have hcourse := h.course
  simp only [InferCall.OnCourse, hstage] at hcourse
  have hturned : f.turnedAway m.1 = false := by simp [InferCall.turnedAway, hstage]
  have hresumed : f'.Resumed := h.resumed.streamed hserves
  have hrequest : f'.request = f.request := (InferCall.streamed_fields f selection m.2.stream
    (streamFromReplica selection.replicaId m.2.stream).1
    (streamFromReplica selection.replicaId m.2.stream).2).1
  cases hlost : f.cutShort m.2 with
  | true =>
    have hround : f.losesRound m = true := by simp [InferCall.losesRound, hlost]
    obtain ⟨hstage', hattempt, hexcluded, hunsent⟩ :=
      streamed_cutShort hpending hstage hlost hcourse.2
    rw [hround, if_pos rfl]
    refine ⟨⟨hrequest.trans h.request, ?_, ?_, hattempt.trans (congrArg (· + 1) h.counted),
      hresumed⟩, distance_of_attempt hcourse.1 hattempt⟩
    · simp only [f', InferCall.OnCourse, hstage']
      intro hsent
      exact absurd hsent (not_le.mpr hunsent)
    · have hother : id ≠ selection.replicaId := by
        rintro rfl
        rw [hserver rfl] at hlost
        cases hlost
      simp [f', hexcluded, h.spared, hother]
  | false =>
    have hround : f.losesRound m = false := by simp [InferCall.losesRound, hlost, hturned]
    obtain ⟨hstage', hattempt, hexcluded, hsent⟩ := streamed_whole hpending hstage hlost
    rw [hround, if_neg Bool.false_ne_true, Nat.add_zero]
    refine ⟨⟨hrequest.trans h.request, ?_, hexcluded ▸ h.spared, hattempt.trans h.counted,
      hresumed⟩, distance_of_rank hattempt ?_⟩
    · simp only [f', InferCall.OnCourse, hstage']
      refine ⟨by rw [InferCall.finalStatus, if_pos hsent], ?_⟩
      exact iff_of_true hsent (hattempt ▸ hcourse.1)
    · rw [hstage', hstage]
      simp [Stage.rank]

/-- **One step of a call on its course.** It loses a round or moves on in it. -/
theorem Goes.followed {lost : ℕ} {m : GatewayState × InferChoice} (hgoes : Goes id m f f')
    (h : f.Followed request id lost) :
    f'.Followed request id (lost + if f.losesRound m = true then 1 else 0) ∧
      f'.distance < f.distance := by
  have hcourse := h.course
  cases hgoes with
  | @pending op ops hpending =>
    have hround : f.losesRound m = false := by
      simp [InferCall.losesRound, InferCall.cutShort, InferCall.turnedAway, hpending]
    refine ⟨h.move ⟨rfl, rfl, rfl, rfl⟩ hcourse rfl rfl hround, ?_⟩
    unfold InferCall.distance
    rw [hpending]
    refine Prod.Lex.toLex_lt_toLex.mpr (Or.inr ⟨rfl, ?_⟩)
    refine Prod.Lex.toLex_lt_toLex.mpr (Or.inr ⟨rfl, ?_⟩)
    refine Prod.Lex.toLex_lt_toLex.mpr (Or.inr ⟨rfl, ?_⟩)
    show ops.length < (op :: ops).length
    simp
  | enter hpending hstage =>
    simp only [InferCall.OnCourse, hstage] at hcourse
    have hround : f.losesRound m = false := losesRound_eq_false (by simp [hstage])
    exact ⟨h.move ⟨rfl, rfl, rfl, rfl⟩ hcourse rfl rfl hround,
      distance_of_rank rfl (by simp [hstage, InferCall.goto, Stage.rank])⟩
  | select hpending hstage hattempt hunsent =>
    have hround : f.losesRound m = false := losesRound_eq_false (by simp [hstage])
    exact ⟨h.move ⟨rfl, rfl, rfl, rfl⟩ ⟨hattempt, hunsent⟩ rfl rfl hround,
      distance_of_rank rfl (by simp [hstage, InferCall.goto, Stage.rank])⟩
  | leave hpending hstage hloop =>
    simp only [InferCall.OnCourse, hstage] at hcourse
    have hround : f.losesRound m = false := losesRound_eq_false (by simp [hstage])
    have hleft : f.request.maxTokens ≤ f.tokensSent ↔ f.attempt < maxRetries := by
      refine ⟨hcourse, fun hattempt => ?_⟩
      by_contra hunsent
      exact hloop ⟨hattempt, not_le.mp hunsent⟩
    exact ⟨h.move ⟨rfl, rfl, rfl, rfl⟩ ⟨rfl, hleft⟩ rfl rfl hround,
      distance_of_rank rfl (by simp [hstage, InferCall.goto, Stage.rank])⟩
  | scan hpending hstage hdistance =>
    simp only [InferCall.OnCourse, hstage] at hcourse
    have hround : f.losesRound m = false := losesRound_eq_false (by simp [hstage])
    exact ⟨h.move ⟨rfl, rfl, rfl, rfl⟩ hcourse rfl rfl hround, hdistance⟩
  | @choose s selection hpending hstage =>
    simp only [InferCall.OnCourse, hstage] at hcourse
    have hround : f.losesRound m = false := losesRound_eq_false (by simp [hstage])
    refine ⟨h.move ⟨rfl, rfl, rfl, rfl⟩ hcourse rfl rfl hround, distance_of_rank rfl ?_⟩
    rw [hstage]
    cases s <;> simp [InferCall.goto, Stage.rank]
  | allow hpending hstage hturned =>
    simp only [InferCall.OnCourse, hstage] at hcourse
    have hround : f.losesRound m = false := by
      simp [InferCall.losesRound, InferCall.cutShort, hstage, hturned]
    exact ⟨h.move ⟨rfl, rfl, rfl, rfl⟩ hcourse rfl rfl hround,
      distance_of_rank rfl (by simp [hstage, InferCall.goto, Stage.rank])⟩
  | refuse hpending hstage hturned hother =>
    simp only [InferCall.OnCourse, hstage] at hcourse
    have hround : f.losesRound m = true := by simp [InferCall.losesRound, hturned]
    rw [hround, if_pos rfl]
    refine ⟨⟨h.request, ?_, ?_, ?_, h.resumed.same ⟨rfl, rfl, rfl, rfl⟩⟩,
      distance_of_attempt hcourse.1 rfl⟩
    · intro hsent
      exact absurd hsent (not_le.mpr hcourse.2)
    · simp [InferCall.retryWithout, h.spared, Ne.symm hother]
    · simp [InferCall.retryWithout, h.counted]
  | stream hpending hstage hserves hserver => exact h.streamed hpending hstage hserves hserver

/-! ## What the streams of the lost rounds have brought -/

/-- The tokens a call has had while some are left to send: all of them if a stream `broke` only
after the last, and `tokens_sent` is not 0 if one was `short`. -/
structure InferCall.Brought (broke short : Prop) (f : InferCall) : Prop where
  all : (∀ k : ℕ, (k : ℤ) < f.request.maxTokens →
    k ∈ Resume.deliveries 0 (f.streams.map Attempt.delivery)) ↔ broke
  sent : 0 < f.tokensSent ↔ short

theorem InferCall.Brought.same {broke short broke' short' : Prop} (h : f.Brought broke short)
    (hsame : f.SameOutput f') (hbroke : broke' ↔ broke) (hshort : short' ↔ short) :
    f'.Brought broke' short' := by
  obtain ⟨hrequest, -, hsent, hstreams⟩ := hsame
  refine ⟨?_, ?_⟩
  · rw [hrequest, hstreams, hbroke]
    exact h.all
  · rw [hsent, hshort]
    exact h.sent

theorem Goes.output {m : GatewayState × InferChoice} (hgoes : Goes id m f f') :
    (f.SameOutput f' ∧ f.breaksAtEnd m.2 = false ∧ f.endsEarly m.2 = false) ∨
      ∃ selection, f.pending = [] ∧ f.stage = .infer (.streaming selection) ∧
        f' = f.streamed selection m.2.stream
          (streamFromReplica selection.replicaId m.2.stream).1
          (streamFromReplica selection.replicaId m.2.stream).2 := by
  cases hgoes with
  | pending hpending =>
    exact Or.inl ⟨⟨rfl, rfl, rfl, rfl⟩, by simp [InferCall.breaksAtEnd, hpending],
      by simp [InferCall.endsEarly, hpending]⟩
  | @stream selection hpending hstage => exact Or.inr ⟨selection, hpending, hstage, rfl⟩
  | enter _ hstage | select _ hstage | leave _ hstage | scan _ hstage | choose _ hstage
  | allow _ hstage | refuse _ hstage =>
    exact Or.inl ⟨⟨rfl, rfl, rfl, rfl⟩, by simp [InferCall.breaksAtEnd, hstage],
      by simp [InferCall.endsEarly, hstage]⟩

/-- **The streams of the lost rounds.** One that fails adds nothing to `tokens_sent`, and comes to
the last token only if it breaks there; any other one leaves a token to send. -/
theorem Goes.brought {lost : ℕ} {broke short : Prop} {m : GatewayState × InferChoice}
    (hgoes : Goes id m f f') (h : f.Followed request id lost)
    (hbrought : f.tokensSent < f.request.maxTokens → f.Brought broke short)
    (hunsent : f'.tokensSent < f'.request.maxTokens) :
    f'.Brought (broke ∨ f.breaksAtEnd m.2 = true) (short ∨ f.endsEarly m.2 = true) := by
  rcases hgoes.output with ⟨hsame, hbreaks, hends⟩ | ⟨selection, hpending, hstage, rfl⟩
  · have hleft : f.tokensSent < f.request.maxTokens := by
      rw [← hsame.1, ← hsame.2.2.1]
      exact hunsent
    exact (hbrought hleft).same hsame (by simp [hbreaks]) (by simp [hends])
  · obtain ⟨hrequest, -, hstreams, hsent⟩ := InferCall.streamed_fields f selection m.2.stream
      (streamFromReplica selection.replicaId m.2.stream).1
      (streamFromReplica selection.replicaId m.2.stream).2
    generalize f.streamed selection m.2.stream _ _ = f' at hrequest hstreams hsent hunsent ⊢
    rw [streamFromReplica_returned] at hsent
    rw [hrequest] at hunsent
    have hcounter := h.resumed.sent
    have hleft : f.tokensSent < f.request.maxTokens := by
      split_ifs at hsent <;> omega
    obtain ⟨hall, hsome⟩ := hbrought hleft
    have hbreaks : f.breaksAtEnd m.2 = true ↔ m.2.stream.fails = true ∧
        f.request.maxTokens ≤ f.tokensSent + m.2.stream.forwarded := by
      simp [InferCall.breaksAtEnd, hpending, hstage]
    have hends : f.endsEarly m.2 = true ↔ m.2.stream.fails = false ∧ 0 < m.2.stream.forwarded ∧
        f.tokensSent + m.2.stream.forwarded < f.request.maxTokens := by
      simp [InferCall.endsEarly, hpending, hstage]
    refine ⟨?_, ?_⟩
    · -- the last token comes from an earlier stream, or this one came to the end
      have hopen : (f.streams.map Attempt.delivery).foldl Resume.advance 0 <
          f.request.maxTokens.toNat := by omega
      have hconcat := Resume.forall_mem_deliveries_concat
        (a := Attempt.delivery ⟨selection.replicaId, f.tokensSent, m.2.stream⟩) hopen
      have hlast : f.request.maxTokens.toNat ≤
          (f.streams.map Attempt.delivery).foldl Resume.advance 0 +
            (Attempt.delivery ⟨selection.replicaId, f.tokensSent, m.2.stream⟩).count ↔
          f.breaksAtEnd m.2 = true := by
        rw [hbreaks]
        show _ ≤ _ + m.2.stream.forwarded ↔ _
        by_cases hfails : m.2.stream.fails = true
        · simp only [hfails, true_and]
          omega
        · rw [if_neg hfails] at hsent
          exact iff_of_false (by omega) fun hbroke => hfails hbroke.1
      rw [hlast] at hconcat
      rw [hrequest, hstreams, List.map_append, List.map_singleton, ← hall]
      simpa [Int.lt_toNat] using hconcat
    · rw [hsent, ← hsome, hends]
      by_cases hfails : m.2.stream.fails = true
      · simp [hfails]
      · rw [if_neg hfails] at hsent ⊢
        simp only [hfails, true_and]
        omega

/-! ## The whole call -/

theorem InferCall.Finished.next (h : f.Finished) (m : GatewayState × InferChoice) :
    f.next hash m = f ∧ f.losesRound m = false := by
  obtain ⟨hpending, status, hstage | hstage⟩ := h
  · have hnone : f.step hash m.1 m.2 = none := step_infer hpending hstage
    exact ⟨by rw [InferCall.next, hnone, Option.elim_none], losesRound_eq_false (by simp [hstage])⟩
  · have hnone : f.step hash m.1 m.2 = none := by
      unfold InferCall.step
      rw [hpending, hstage]
      rfl
    exact ⟨by rw [InferCall.next, hnone, Option.elim_none], losesRound_eq_false (by simp [hstage])⟩

theorem frame_of_finished {K : ℕ} (h : (S.frame hash request K).Finished) {k : ℕ} (hk : K ≤ k) :
    S.frame hash request k = S.frame hash request K := by
  induction k, hk using Nat.le_induction with
  | base => rfl
  | succ k hk ih =>
    rw [← ih] at h ⊢
    exact (h.next (S k)).1

theorem followed (h : S.Favourable hash request id) (k : ℕ) :
    (S.frame hash request k).Followed request id (S.roundsLost hash request k) := by
  induction k with
  | zero =>
    have hattempt : 0 < maxRetries := by decide
    refine ⟨rfl, fun _ => hattempt, List.not_mem_nil, rfl, rfl, rfl, fun k hk => ?_⟩
    cases hk
  | succ k ih =>
    have hcount : S.roundsLost hash request (k + 1) = S.roundsLost hash request k +
        if (S.frame hash request k).losesRound (S k) = true then 1 else 0 := Nat.count_succ _ _
    rw [hcount]
    by_cases hfinished : (S.frame hash request k).Finished
    · obtain ⟨hsame, hround⟩ : (S.frame hash request k).next hash (S k) = _ ∧ _ :=
        hfinished.next (S k)
      rw [hround, if_neg Bool.false_ne_true, Schedule.frame, hsame]
      exact ih
    · have hgoes := favourable_step h rfl ih.request ih.course ih.spared hfinished
      exact (hgoes.followed ih).1

theorem brought (h : S.Favourable hash request id) (K : ℕ)
    (hunsent : (S.frame hash request K).tokensSent < (S.frame hash request K).request.maxTokens) :
    (S.frame hash request K).Brought
      (∃ k < K, (S.frame hash request k).breaksAtEnd (S k).2 = true)
      (∃ k < K, (S.frame hash request k).endsEarly (S k).2 = true) := by
  induction K with
  | zero =>
    refine ⟨?_, by simp [Schedule.frame]⟩
    simp only [Nat.not_lt_zero, false_and, exists_false, iff_false]
    intro hall
    exact List.not_mem_nil (hall 0 hunsent)
  | succ K ih =>
    simp only [Nat.lt_succ_iff_lt_or_eq, or_and_right, exists_or, exists_eq_left]
    by_cases hfinished : (S.frame hash request K).Finished
    · -- the call stays where it is
      have hsame : S.frame hash request (K + 1) = S.frame hash request K :=
        (hfinished.next (S K)).1
      rw [hsame] at hunsent ⊢
      obtain ⟨-, status, hstage | hstage⟩ := hfinished
      · exact (ih hunsent).same ⟨rfl, rfl, rfl, rfl⟩ (by simp [InferCall.breaksAtEnd, hstage])
          (by simp [InferCall.endsEarly, hstage])
      · exact (ih hunsent).same ⟨rfl, rfl, rfl, rfl⟩ (by simp [InferCall.breaksAtEnd, hstage])
          (by simp [InferCall.endsEarly, hstage])
    · have hK := followed h K
      have hgoes := favourable_step h rfl hK.request hK.course hK.spared hfinished
      exact hgoes.brought hK ih hunsent

theorem exists_finished (h : S.Favourable hash request id) :
    ∃ K, (S.frame hash request K).Finished := by
  have hfrom : ∀ d k, (S.frame hash request k).distance = d →
      ∃ K, (S.frame hash request K).Finished := by
    intro d
    induction d using WellFoundedLT.induction with
    | ind d ih =>
      rintro k rfl
      by_cases hfinished : (S.frame hash request k).Finished
      · exact ⟨k, hfinished⟩
      · have hk := followed h k
        have hgoes := favourable_step h rfl hk.request hk.course hk.spared hfinished
        exact ih _ (hgoes.followed hk).2 (k + 1) rfl
  exact hfrom _ 0 rfl

/-- **The end of the call.** What has been delivered, by the rounds that were lost and by what their
streams have brought. -/
theorem InferCall.Followed.deliversAll_iff {lost : ℕ} {broke short : Prop}
    (h : f.Followed request id lost)
    (hbrought : f.tokensSent < f.request.maxTokens → f.Brought broke short)
    (hfinished : f.Finished) : f.DeliversAll ↔ lost < maxRetries ∨ broke ∧ short := by
  have hresumed := h.resumed
  have htokens : ∀ k : ℕ, tokenName k ∈ f.written.map (·.token) ↔
      k ∈ Resume.deliveries 0 (f.streams.map Attempt.delivery) := by
    intro k
    rw [hresumed.tokens]
    exact List.mem_map_of_injective fun _ _ => tokenName_injective
  have hcourse := h.course
  obtain ⟨-, status, hstage | hstage⟩ := hfinished
  · simp only [InferCall.OnCourse, hstage] at hcourse
    obtain ⟨rfl, hleft⟩ := hcourse
    rw [h.counted] at hleft
    have hstatus : f.stage.status = some .ok ↔
        f.request.maxTokens ≤ f.tokensSent ∨ 0 < f.tokensSent := by
      rw [hstage]
      unfold Stage.status InferCall.finalStatus
      split_ifs with hall hsome <;> simp_all [Status.ok]
    unfold InferCall.DeliversAll
    simp only [htokens, hstatus]
    by_cases hlost : lost < maxRetries
    · -- the counter has come to the last token, so every token has been delivered
      have hall := hleft.mpr hlost
      refine iff_of_true ⟨Or.inl hall, fun k hk => ?_⟩ (Or.inl hlost)
      have hsent := hresumed.sent
      exact Resume.mem_deliveries_of_lt (Nat.zero_le k) (by omega)
    · have hunsent : ¬ f.request.maxTokens ≤ f.tokensSent := fun hall => hlost (hleft.mp hall)
      obtain ⟨hbroke, hshort⟩ := hbrought (not_le.mp hunsent)
      rw [hbroke, hshort]
      simp [hlost, hunsent, and_comm]
  · simp only [InferCall.OnCourse, hstage] at hcourse

/-- **The retry budget.** A call that one replica could serve all the time returns, and it has
delivered all the tokens and returned OK exactly when it has lost fewer than `max_retries` rounds,
by refusing circuits or by streams that failed or ended early; or else if one of these streams
failed only after the last token and another one had some of the tokens and did not fail. -/
theorem delivers_iff (hash : List UInt8 → ℕ) (S : Schedule) (request : InferRequest) (id : String)
    (h : S.Favourable hash request id) :
    ∃ K, (S.frame hash request K).Finished ∧
      (∀ k, K ≤ k → S.frame hash request k = S.frame hash request K) ∧
      ((S.frame hash request K).DeliversAll ↔ S.roundsLost hash request K < maxRetries ∨
        (∃ k < K, (S.frame hash request k).breaksAtEnd (S k).2 = true) ∧
          ∃ k < K, (S.frame hash request k).endsEarly (S k).2 = true) := by
  obtain ⟨K, hfinished⟩ := exists_finished h
  exact ⟨K, hfinished, fun k hk => frame_of_finished hfinished hk,
    (followed h K).deliversAll_iff (brought h K) hfinished⟩

/-! ## Four replicas -/

/-- The gateway stands still, and offers the same at every step. -/
def still (m : GatewayState × InferChoice) : Schedule := fun _ => m

/-- If the call dispatches a stream here, then it is one of a `Generate` call, and complete if it is
from the replica `id`. -/
def InferCall.servedBy (id : String) (m : GatewayState × InferChoice) (f : InferCall) : Bool :=
  match f.stage with
  | .infer (.streaming selection) =>
    decide (m.2.stream.Serves (generateRequest m.1.now f.request.prompt f.request.maxTokens
      f.tokensSent)) &&
    (selection.replicaId ≠ id || (m.2.stream.ok &&
      m.2.stream.reads.length = (f.request.maxTokens - f.tokensSent).toNat))
  | _ => true

theorem favourable_still {info : ReplicaInfo} {N : ℕ} (hhedge : request.hedge = false)
    (hcancelled : c.cancelled = false) (hreads : ∀ e ∈ c.stream.reads, e.forwarded = true)
    (havailable : g.registry.Eligible [] id info) (hscore : info.score.isSome)
    (hclosed : (g.breakers.getOrCreate id).state = .closed)
    (hnamed : ∀ e ∈ g.registry.getAliveReplicas, e.1 ≠ "") (hlock : g.lb.ringLocked = false)
    (hfinished : ((still (g, c)).frame hash request N).Finished)
    (hserved : ∀ k ≤ N, ((still (g, c)).frame hash request k).servedBy id (g, c) = true ∧
      ((still (g, c)).frame hash request k).request = request) :
    (still (g, c)).Favourable hash request id := by
  have hall : ∀ k, ((still (g, c)).frame hash request k).servedBy id (g, c) = true ∧
      ((still (g, c)).frame hash request k).request = request := by
    intro k
    rcases le_total k N with hk | hk
    · exact hserved k hk
    · rw [frame_of_finished hfinished hk]
      exact hserved N le_rfl
  refine ⟨hhedge, fun _ => ⟨hcancelled, hreads⟩, fun _ => ⟨info, havailable, hscore⟩,
    fun _ => hclosed, fun _ => hnamed, fun _ _ _ => hlock, ?_, ?_⟩
  · rintro k selection - hstage
    obtain ⟨hk, hrequest⟩ := hall k
    simp only [InferCall.servedBy, hstage, hrequest, Bool.and_eq_true, decide_eq_true_eq] at hk
    exact hk.1
  · rintro k selection - hstage hserver
    obtain ⟨hk, hrequest⟩ := hall k
    simp only [InferCall.servedBy, hstage, hrequest, hserver, Bool.and_eq_true] at hk
    have hwhole := hk.2
    simp only [ne_eq, not_true_eq_false, decide_false, Bool.false_or, Bool.and_eq_true,
      decide_eq_true_eq] at hwhole
    exact hwhole

/-- Four replicas are announced. -/
def fourReplicas : List GatewayLabel :=
  [.env (.updateFromGossip "replica-1" ⟨"replica-1", "a:17001", .alive, 0, "v1", 0, 4⟩),
    .env (.updateFromGossip "replica-2" ⟨"replica-2", "b:17002", .alive, 0, "v1", 0, 4⟩),
    .env (.updateFromGossip "replica-3" ⟨"replica-3", "c:17003", .alive, 0, "v1", 0, 4⟩),
    .env (.updateFromGossip "replica-4" ⟨"replica-4", "d:17004", .alive, 0, "v1", 0, 4⟩)]

/-- A call whose streams from the first three replicas fail. -/
def threeFailures : List GatewayLabel :=
  .spawn (.infer ⟨"client", "hello", 1, false⟩) ::
    List.replicate 29 (.call 0 { stream := ⟨[], false⟩ })

/-- A circuit opens after one failure. -/
def oneFailure : CircuitBreaker.Config := { windowSize := 1 }

/-- The one token of the request, and OK. -/
def oneToken : ReplicaStream := ⟨[{ response := ⟨"token_0", true⟩ }], true⟩

/-- The gateway after the failures. -/
def afterFailures : GatewayPool :=
  (exec (gatewayProgram fun _ => 0).step (newGateway 150 oneFailure 100)
    (fourReplicas ++ threeFailures)).get (by decide +kernel)

theorem run_afterFailures : Run (gatewayProgram fun _ => 0).step (newGateway 150 oneFailure 100)
    (fourReplicas ++ threeFailures) afterFailures :=
  run_get (by decide +kernel)

theorem favourable_afterFailures {draws : List ℕ} {N : ℕ}
    (hfinished : ((still (afterFailures.shared, { draws, stream := oneToken })).frame (fun _ => 0)
      ⟨"client", "again", 1, false⟩ N).Finished)
    (hserved : ∀ k ≤ N,
      ((still (afterFailures.shared, { draws, stream := oneToken })).frame (fun _ => 0)
        ⟨"client", "again", 1, false⟩ k).servedBy "replica-4"
          (afterFailures.shared, { draws, stream := oneToken }) = true ∧
      ((still (afterFailures.shared, { draws, stream := oneToken })).frame (fun _ => 0)
        ⟨"client", "again", 1, false⟩ k).request = ⟨"client", "again", 1, false⟩) :
    (still (afterFailures.shared, { draws, stream := oneToken })).Favourable (fun _ => 0)
      ⟨"client", "again", 1, false⟩ "replica-4" := by
  have havailable : afterFailures.shared.registry.Eligible [] "replica-4"
      ((afterFailures.shared.registry.getReplica "replica-4").get (by decide +kernel)) :=
    ⟨(Option.some_get _).symm, List.not_mem_nil, by decide +kernel, by decide +kernel,
      by decide +kernel, by decide, by decide +kernel⟩
  have hreads : ∀ e ∈ oneToken.reads, e.forwarded = true := by decide
  have hclosed : (afterFailures.shared.breakers.getOrCreate "replica-4").state = .closed := by
    decide +kernel
  have hnamed : ∀ e ∈ afterFailures.shared.registry.getAliveReplicas, e.1 ≠ "" := by decide +kernel
  have hlock : afterFailures.shared.lb.ringLocked = false := by decide +kernel
  exact favourable_still rfl rfl hreads havailable (by decide +kernel) hclosed hnamed hlock
    hfinished hserved

/-- The fourth replica is selected first, and serves the request. -/
theorem delivers_iff_four :
    ∃ K, ((still (afterFailures.shared, { stream := oneToken })).frame (fun _ => 0)
      ⟨"client", "again", 1, false⟩ K).DeliversAll := by
  have hstage : ((still (afterFailures.shared, { stream := oneToken })).frame (fun _ => 0)
      ⟨"client", "again", 1, false⟩ 10).stage = .infer (.returned .ok) := by decide +kernel
  have hfinished : ((still (afterFailures.shared, { stream := oneToken })).frame (fun _ => 0)
      ⟨"client", "again", 1, false⟩ 10).Finished :=
    ⟨by decide +kernel, .ok, Or.inl hstage⟩
  have hfavourable := favourable_afterFailures hfinished (by decide +kernel)
  obtain ⟨K, hreturned, hlast, hiff⟩ := delivers_iff _ _ _ _ hfavourable
  refine ⟨K, hiff.mpr (Or.inl ?_)⟩
  rw [← (followed hfavourable K).counted, ← frame_of_finished hreturned (le_max_left K 10),
    frame_of_finished hfinished (le_max_right K 10)]
  decide +kernel

/-- The circuits of the first three replicas are OPEN, and the call comes to each of them before the
fourth. No stream is dispatched, and the call returns an error. -/
theorem unavailable_of_open_circuits :
    let S := still (afterFailures.shared, { draws := [0, 0, 0], stream := oneToken })
    let request : InferRequest := ⟨"client", "again", 1, false⟩
    Run (gatewayProgram fun _ => 0).step (newGateway 150 oneFailure 100)
      (fourReplicas ++ threeFailures) afterFailures ∧
    S.Favourable (fun _ => 0) request "replica-4" ∧
    ∃ K, (S.frame (fun _ => 0) request K).Finished ∧ S.streamsLost (fun _ => 0) request K = 0 ∧
      ¬ (S.frame (fun _ => 0) request K).DeliversAll := by
  intro S request
  have hstage : (S.frame (fun _ => 0) request 14).stage =
      .infer (.returned ⟨.unavailable, "all replicas failed after retries"⟩) := by decide +kernel
  have hfinished : (S.frame (fun _ => 0) request 14).Finished :=
    ⟨by decide +kernel, _, Or.inl hstage⟩
  refine ⟨run_afterFailures, favourable_afterFailures hfinished (by decide +kernel), 14, hfinished,
    by decide +kernel, ?_⟩
  rintro ⟨hok, -⟩
  rw [hstage] at hok
  cases hok

end LlmGateway.Gateway
