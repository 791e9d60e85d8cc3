import LlmGateway.Gateway.Race

/-!
# Hedged and not hedged

A call with `hedge` and the same call without.

1. `World.HedgeServes`: a replica is selected, and the only one that is, or else the one whose first
   token arrives first, sends all the tokens; neither of the two keeps silent.
2. `delivers_hedged_iff`: when a hedged call delivers. With fewer than two alive replicas it is a
   call that is not hedged; otherwise it has one chance.
3. `hedging_harmless_iff`: when asking for hedging loses nothing.
-/

namespace LlmGateway.Gateway

open Outcome Replica

namespace World

variable (W : World) (hash : List UInt8 → ℕ)

/-- What a hedged call rests on: a replica is selected. If there is no second one, the first sends
all the tokens and ends with OK; otherwise the first `Read`s from both return, and the winner of the
race sends all the tokens and ends. -/
def HedgeServes (g : GatewayState) (prompt : String) (maxTokens : ℤ) : Prop :=
  g.lb.ringLocked = false ∧ ∃ s₁, W.selection hash g prompt [] = some s₁ ∧
    ((W.selection hash g (prompt ++ "_hedge") [s₁.replicaId]).elim
      (W.Whole maxTokens s₁ ∧ W.ending s₁.replicaId 0 = some true) fun s₂ =>
        if s₂.replicaId = s₁.replicaId then
          W.Whole maxTokens s₁ ∧ W.ending s₁.replicaId 0 = some true
        else
          (W.firstRead maxTokens s₁.replicaId ≠ ⊤ ∧ W.firstRead maxTokens s₂.replicaId ≠ ⊤) ∧
            ∃ s, W.winner maxTokens s₁ s₂ = some s ∧ W.Whole maxTokens s ∧
              (W.ending s.replicaId 0).isSome)

end World

namespace World

variable {W : World} {hash : List UInt8 → ℕ} {P : GatewayState × InferCall → Prop}
  {g : GatewayState} {f : InferCall}

/-! ## A hedged call -/

theorem ends_single {s : Selection} (hwritten : f.written = []) (ops : List Operation) :
    Ends (W.step hash) (fun x => x.2.Delivered) (g, { f.hedge (.single s) with pending := ops }) ↔
      W.Whole f.request.maxTokens s ∧ W.ending s.replicaId 0 = some true := by
  rw [ends_pending]
  dsimp only
  generalize ops.foldl Operation.apply g = g₁
  have hturn : W.turn g₁.now { f.hedge (.single s) with pending := [] } =
      if (W.ending s.replicaId 0).isSome then some (.main, g₁.now) else none := rfl
  cases hended : W.ending s.replicaId 0 with
  | none =>
    rw [hended] at hturn
    rw [ends_iff_of_stop (step_silent hturn)]
    exact iff_of_false nofun fun h => absurd h.2 nofun
  | some ok =>
    rw [hended] at hturn
    have hserves : (W.stream f.request.maxTokens s.replicaId 0).Serves
        (generateRequest g₁.now f.request.prompt f.request.maxTokens 0) := stream_serves rfl rfl
    have hstep : W.step hash (g₁, { f.hedge (.single s) with pending := [] }) = some (g₁,
        { f.hedge (.returned (if (streamFromReplica s.replicaId
            (W.stream f.request.maxTokens s.replicaId 0)).2 < 0 then
              ⟨.unavailable, "replica failed"⟩ else .ok)) with
          written := f.written ++ (streamFromReplica s.replicaId
            (W.stream f.request.maxTokens s.replicaId 0)).1
          pending := InferCall.afterStream s.replicaId (streamFromReplica s.replicaId
            (W.stream f.request.maxTokens s.replicaId 0)).2 }) := by
      rw [step_hedged (s := .single s) rfl rfl hturn]
      exact if_pos hserves
    rw [ends_iff_of_step hstep, ends_returned rfl]
    have hattended := W.stream_attended f.request.maxTokens s.replicaId 0
    have hfails : (W.stream f.request.maxTokens s.replicaId 0).fails = !ok := by
      unfold ReplicaStream.fails
      rw [List.all_eq_true.mpr hattended, stream, hended]
      rfl
    have hwritten' :
        (streamFromReplica s.replicaId (W.stream f.request.maxTokens s.replicaId 0)).1 =
          (W.stream f.request.maxTokens s.replicaId 0).reads.map fun e =>
            inferResponse s.replicaId e.response := forward_attended hattended
    have hstatus : (if (streamFromReplica s.replicaId
        (W.stream f.request.maxTokens s.replicaId 0)).2 < 0 then
          (⟨.unavailable, "replica failed"⟩ : Status) else .ok) =
        if ok then .ok else ⟨.unavailable, "replica failed"⟩ := by
      rw [streamFromReplica_returned, hfails]
      cases ok with
      | true => exact if_neg (by simp)
      | false => rfl
    rw [hstatus, hwritten', hwritten]
    cases ok with
    | true =>
      rw [and_iff_left rfl]
      exact delivered_iff_whole rfl (List.nil_append _)
    | false =>
      refine iff_of_false ?_ fun h => absurd h.2 (by simp)
      exact not_delivered (show _ = some (⟨.unavailable, "replica failed"⟩ : Status) from rfl)
        (by decide)

/-- What follows the first selection of `InferHedged`. -/
def afterFirst (f : InferCall) : Option Selection → InferCall
  | none => f.hedge (.returned ⟨.resourceExhausted, "no replica available for hedging"⟩)
  | some first => f.hedge (.selectingSecond first .hashing)

/-- What follows the second one. -/
def afterSecond (f : InferCall) (first : Selection) : Option Selection → InferCall
  | none => { f.hedge (.single first) with pending := [.incrementActive first.replicaId] }
  | some second =>
    if second.replicaId = first.replicaId then
      { f.hedge (.single first) with pending := [.incrementActive first.replicaId] }
    else
      { f.hedge (.starting first second) with
        pending := [.incrementActive first.replicaId, .incrementActive second.replicaId] }

theorem ends_hedgeSelecting {prompt : String} {excluded : List String}
    {w : SelectStage → HedgeStage} {done : Option Selection → InferCall}
    (hpending : f.pending = []) (hlb : g.lb.ringLocked = false)
    (hturn : ∀ s now, W.turn now (f.hedge (w s)) = some (.main, now))
    (hstep : ∀ g s, f.hedgeStep hash g (W.choice g .main (f.hedge (w s))) (w s) =
      (s.step hash g.registry g.lb prompt excluded (W.draws g.registry prompt excluded)).map
        fun (lb, next) => ({ g with lb },
          match next with
          | .stage s => f.hedge (w s)
          | .selected selection => done selection)) :
    Ends (W.step hash) P (g, f.hedge (w .hashing)) ↔
      Ends (W.step hash) P (g, done (W.selection hash g prompt excluded)) := by
  obtain ⟨fuel, hfinish⟩ := W.finish_selection hash hlb prompt excluded
  have hcall : ∀ g s, W.step hash (g, f.hedge (w s)) = _ := fun g s =>
    (step_hedged (f := f.hedge (w s)) rfl hpending (hturn s g.now)).trans (hstep g s)
  refine ends_selecting (w := w) (fun lb s lb' s' hs => ?_) (fun lb s lb' selection hs => ?_)
    hfinish
  · exact (hcall _ s).trans (congrArg (Option.map _) hs)
  · exact (hcall _ s).trans (congrArg (Option.map _) hs)

theorem ends_first (hpending : f.pending = []) (hlb : g.lb.ringLocked = false) :
    Ends (W.step hash) P (g, f.hedge (.selecting .hashing)) ↔
      Ends (W.step hash) P (g, afterFirst f (W.selection hash g f.request.prompt [])) := by
  refine ends_hedgeSelecting (w := .selecting) hpending hlb
    (fun _ _ => if_neg (not_not.mpr hpending)) fun g s => ?_
  refine congrArg (fun next => Option.map next _) (funext fun x => ?_)
  rcases x with ⟨lb, s | _ | selection⟩ <;> rfl

theorem ends_second (hpending : f.pending = []) (hlb : g.lb.ringLocked = false)
    (first : Selection) :
    Ends (W.step hash) P (g, f.hedge (.selectingSecond first .hashing)) ↔
      Ends (W.step hash) P (g, afterSecond f first
        (W.selection hash g (f.request.prompt ++ "_hedge") [first.replicaId])) := by
  refine ends_hedgeSelecting (w := .selectingSecond first) hpending hlb
    (fun _ _ => if_neg (not_not.mpr hpending)) fun g s => ?_
  refine congrArg (fun next => Option.map next _) (funext fun x => ?_)
  rcases x with ⟨lb, s | _ | selection⟩ <;> rfl

theorem ends_hedged (hpending : f.pending = []) (hwritten : f.written = []) :
    Ends (W.step hash) (fun x => x.2.Delivered) (g, f.hedge (.selecting .hashing)) ↔
      W.HedgeServes hash g f.request.prompt f.request.maxTokens := by
  unfold HedgeServes
  cases hlb : g.lb.ringLocked with
  | true =>
    -- nobody gives the mutex back
    have hstop : W.step hash (g, f.hedge (.selecting .hashing)) = none := by
      rw [step_hedged (f := f.hedge (.selecting .hashing)) rfl hpending
        (if_neg (not_not.mpr hpending))]
      exact congrArg (Option.map _) (if_pos hlb)
    rw [ends_iff_of_stop hstop]
    refine iff_of_false ?_ fun h => absurd h.1 (by decide)
    rintro ⟨hstatus, -⟩
    cases hstatus
  | false =>
    rw [ends_first hpending hlb]
    cases hfirst : W.selection hash g f.request.prompt [] with
    | none =>
      have hreturned : (afterFirst f none).stage =
          .hedged (.returned ⟨.resourceExhausted, "no replica available for hedging"⟩) := rfl
      rw [ends_returned hreturned]
      refine iff_of_false (not_delivered (congrArg Stage.status hreturned) (by decide)) ?_
      rintro ⟨-, s₁, hs₁, -⟩
      cases hs₁
    | some first =>
      simp only [Option.some.injEq, exists_eq_left', true_and]
      rw [show afterFirst f (some first) = f.hedge (.selectingSecond first .hashing) from rfl,
        ends_second hpending hlb]
      cases W.selection hash g (f.request.prompt ++ "_hedge") [first.replicaId] with
      | none =>
        exact ends_single hwritten _
      | some second =>
        unfold afterSecond
        dsimp only [Option.elim]
        split_ifs with hsame
        · exact ends_single hwritten _
        · rw [ends_pending]
          have hstart : ∀ g₁,
              W.step hash (g₁, { f.hedge (.starting first second) with pending := [] }) =
                some (g₁, { f with pending := [] }.hedge
                  (.waiting (newRace g₁.now first second))) :=
            fun g₁ => step_hedged (s := .starting first second) rfl rfl rfl
          rw [ends_iff_of_step (hstart _)]
          refine (ends_race (f := { f with pending := [] }) rfl hwritten _ first second).trans ?_
          have hboth : ∀ g₁ : GatewayState, (∀ a, a ≠ Actor.main → W.firstRead f.request.maxTokens
              ((newRace g₁.now first second).get a).selection.replicaId ≠ ⊤) ↔
                W.firstRead f.request.maxTokens first.replicaId ≠ ⊤ ∧
                  W.firstRead f.request.maxTokens second.replicaId ≠ ⊤ := by
            intro g₁
            refine ⟨fun h => ⟨h .first nofun, h .second nofun⟩, ?_⟩
            rintro ⟨hfirst, hsecond⟩ a ha
            cases a with
            | main => exact absurd rfl ha
            | first => exact hfirst
            | second => exact hsecond
          exact ⟨fun ⟨s, hwins, hanswered, hwhole⟩ => ⟨(hboth _).mp hanswered, s, hwins, hwhole⟩,
            fun ⟨hanswered, s, hwins, hwhole⟩ => ⟨s, hwins, (hboth _).mpr hanswered, hwhole⟩⟩

end World

/-! ## A call that is not hedged -/

/-- The same call, hedged or not. -/
def InferCall.withHedge (f : InferCall) (hedge : Bool) : InferCall :=
  { f with request := { f.request with hedge } }

theorem streamed_withHedge (f : InferCall) (b : Bool) (selection : Selection)
    (stream : ReplicaStream) (responses : List InferResponse) (returned : ℤ) :
    (f.withHedge b).streamed selection stream responses returned =
      (f.streamed selection stream responses returned).withHedge b := by
  by_cases hfailed : returned < 0
  · have hstreamed : ∀ f : InferCall, f.streamed selection stream responses returned = _ :=
      fun f => if_pos hfailed
    rw [hstreamed, hstreamed]
    rfl
  · by_cases hall : f.request.maxTokens ≤ f.tokensSent + returned
    · have hstreamed : f.streamed selection stream responses returned = _ :=
        (if_neg hfailed).trans (if_pos hall)
      have hstreamed' : (f.withHedge b).streamed selection stream responses returned = _ :=
        (if_neg hfailed).trans (if_pos hall)
      rw [hstreamed, hstreamed']
      rfl
    · have hstreamed : f.streamed selection stream responses returned = _ :=
        (if_neg hfailed).trans (if_neg hall)
      have hstreamed' : (f.withHedge b).streamed selection stream responses returned = _ :=
        (if_neg hfailed).trans (if_neg hall)
      rw [hstreamed, hstreamed']
      rfl

/-- `Infer` does not look at `hedge` once it is in its loop. -/
theorem inferStep_withHedge {hash : List UInt8 → ℕ} {g : GatewayState} {c : InferChoice}
    {f : InferCall} {b : Bool} (t : InferStage) : (f.withHedge b).inferStep hash g c t =
      (f.inferStep hash g c t).map fun x => (x.1, x.2.withHedge b) := by
  cases t with
  | looping =>
    by_cases hmore : f.attempt < maxRetries ∧ f.tokensSent < f.request.maxTokens
    · have hstep : ∀ f : InferCall, f.attempt < maxRetries ∧ f.tokensSent < f.request.maxTokens →
          f.inferStep hash g c .looping = some (g,
            f.goto (if c.cancelled then .returned .cancelled else .selecting .hashing)) := by
        intro f hmore
        simp only [InferCall.inferStep, if_pos hmore]
        split_ifs <;> rfl
      rw [hstep f hmore, hstep (f.withHedge b) hmore]
      rfl
    · have hstep : ∀ f : InferCall,
          ¬ (f.attempt < maxRetries ∧ f.tokensSent < f.request.maxTokens) →
          f.inferStep hash g c .looping = some (g, f.goto (.returned f.finalStatus)) :=
        fun f hmore => if_neg hmore
      rw [hstep f hmore, hstep (f.withHedge b) hmore]
      rfl
  | selecting t | reselecting t =>
    simp only [InferCall.inferStep, Option.map_map]
    refine congrArg (fun h => Option.map h _) (funext fun x => ?_)
    rcases x with ⟨lb, t | _ | selection⟩ <;> rfl
  | queueing =>
    unfold InferCall.inferStep
    rcases g.queue.enter g.now 30000 with ⟨queue, _ | _ | t⟩ <;> rfl
  | blocked t =>
    simp only [InferCall.inferStep, Option.map_map]
    refine congrArg (fun h => Option.map h _) (funext fun x => ?_)
    rcases x with ⟨queue, woken⟩
    cases woken <;> rfl
  | allowing selection =>
    simp only [InferCall.inferStep, Option.map_some]
    split_ifs <;> rfl
  | streaming selection =>
    by_cases hserves : c.stream.Serves
        (generateRequest g.now f.request.prompt f.request.maxTokens f.tokensSent)
    · have hstep : (f.inferStep hash g c (.streaming selection)) = _ := if_pos hserves
      have hstep' : (f.withHedge b).inferStep hash g c (.streaming selection) = _ := if_pos hserves
      rw [hstep, hstep']
      exact congrArg some (Prod.ext rfl (streamed_withHedge f b selection c.stream _ _))
    · have hstep : (f.inferStep hash g c (.streaming selection)) = none := if_neg hserves
      have hstep' : (f.withHedge b).inferStep hash g c (.streaming selection) = none :=
        if_neg hserves
      rw [hstep, hstep']
      rfl
  | returned status => rfl

namespace World

variable {W : World} {hash : List UInt8 → ℕ} {g : GatewayState} {f : InferCall}

/-- What happens when `Infer` cannot go on: in the queue, the others go on. -/
def waits (W : World) (g : GatewayState) (f : InferCall) :
    InferStage → Option (GatewayState × InferCall)
  | .blocked _ => some (W.meanwhile g, f)
  | _ => none

/-- The turns of `Infer`: the call waits for a replica that keeps silent, or goes on at once. -/
theorem turn_infer {t : InferStage} (now : ℕ) (hstage : f.stage = .infer t) :
    W.turn now f = none ∨ W.turn now f = some (.main, now) := by
  unfold turn
  rw [hstage]
  split_ifs
  · exact Or.inr rfl
  · cases t with
    | streaming selection =>
      dsimp only
      split_ifs <;> simp
    | _ => exact Or.inr rfl

theorem step_infer {t : InferStage} (hstage : f.stage = .infer t) (hpending : f.pending = []) :
    W.step hash (g, f) = (W.turn g.now f).bind fun (actor, _) =>
      (f.inferStep hash g (W.choice g actor f) t).or (W.waits g f t) := by
  have hcall : ∀ c, f.step hash g c = f.inferStep hash g c t := by
    intro c
    unfold InferCall.step
    rw [hpending, hstage]
  unfold World.step
  dsimp only
  rcases W.turn_infer g.now hstage with hturn | hturn
  · rw [hturn, Option.bind_none, Option.bind_none]
  · rw [hturn, Option.bind_some, Option.bind_some]
    dsimp only
    rw [hcall, hstage]
    cases f.inferStep hash g (W.choice g .main f) t with
    | some x => rfl
    | none => cases t <;> rfl

theorem step_pending {op : Operation} {ops : List Operation} (hpending : f.pending = op :: ops) :
    W.step hash (g, f) = some (op.apply g, { f with pending := ops }) := by
  unfold World.step InferCall.step
  rw [turn_pending hpending, Option.bind_some]
  dsimp only
  rw [hpending]

theorem step_withHedge {t : InferStage} (hstage : f.stage = .infer t) (b : Bool) :
    W.step hash (g, f.withHedge b) = (W.step hash (g, f)).map fun x => (x.1, x.2.withHedge b) := by
  cases hpending : f.pending with
  | cons op ops =>
    rw [step_pending hpending, step_pending (f := f.withHedge b) hpending]
    rfl
  | nil =>
    have hturn : W.turn g.now (f.withHedge b) = W.turn g.now f := rfl
    have hchoice : ∀ a, W.choice g a (f.withHedge b) = W.choice g a f := fun _ => rfl
    rw [step_infer hstage hpending, step_infer (f := f.withHedge b) hstage hpending, hturn]
    cases W.turn g.now f with
    | none => rfl
    | some actor =>
      simp only [Option.bind_some, hchoice, inferStep_withHedge]
      cases f.inferStep hash g (W.choice g actor.1 f) t with
      | some x => rfl
      | none => cases t <;> rfl

theorem stage_of_step {t : InferStage} {x : GatewayState × InferCall} (hstage : f.stage = .infer t)
    (hs : W.step hash (g, f) = some x) : ∃ t', x.2.stage = .infer t' := by
  cases hpending : f.pending with
  | cons op ops =>
    rw [step_pending hpending] at hs
    cases hs
    exact ⟨t, hstage⟩
  | nil =>
    rw [step_infer hstage hpending] at hs
    obtain ⟨⟨actor, now⟩, -, hs⟩ := Option.bind_eq_some_iff.mp hs
    dsimp only at hs
    cases hstep : f.inferStep hash g (W.choice g actor f) t with
    | some y =>
      rw [hstep] at hs
      cases hs
      exact (inferMove hstage hstep).stage
    | none =>
      rw [hstep] at hs
      cases t with
      | blocked ticket =>
        cases hs
        exact ⟨_, hstage⟩
      | _ => cases hs

/-- In its loop, a call delivers the same whether it was hedged or not. -/
theorem ends_withHedge {t : InferStage} (hstage : f.stage = .infer t) (b : Bool) :
    Ends (W.step hash) (fun x => x.2.Delivered) (g, f) ↔
      Ends (W.step hash) (fun x => x.2.Delivered) (g, f.withHedge b) := by
  refine ends_iff_of_bisim
    (R := fun x y => y = (x.1, x.2.withHedge b) ∧ ∃ t, x.2.stage = .infer t) ?_ ?_ ⟨rfl, t, hstage⟩
  · rintro ⟨g, f⟩ _ ⟨rfl, t, hstage⟩
    rw [step_withHedge hstage]
    refine ⟨Option.isSome_map.symm, fun x y hx hy => ?_⟩
    rw [hx] at hy
    exact ⟨(Option.some.inj hy).symm, stage_of_step hstage hx⟩
  · rintro ⟨g, f⟩ _ ⟨rfl, -⟩
    rfl

theorem step_entered (request : InferRequest) : W.step hash (g, { request }) = some (g,
    if request.hedge ∧ 2 ≤ g.registry.getAliveReplicas.length then
      InferCall.hedge { request } (.selecting .hashing)
    else InferCall.goto { request } .looping) := by
  have hturn : W.turn g.now { request } = some (.main, g.now) := rfl
  have hstep : InferCall.step hash g (W.choice g .main { request }) { request } = some (g,
        if request.hedge ∧ 2 ≤ g.registry.getAliveReplicas.length then
          InferCall.hedge { request } (.selecting .hashing)
        else InferCall.goto { request } .looping) := by
    unfold InferCall.step
    dsimp only
    split_ifs <;> rfl
  unfold World.step
  dsimp only
  rw [hturn, Option.bind_some]
  dsimp only
  rw [hstep]

theorem delivers_hedged_iff (W : World) (hash : List UInt8 → ℕ) (g : GatewayState)
    (clientId prompt : String) (maxTokens : ℤ) :
    W.Delivers hash g ⟨clientId, prompt, maxTokens, true⟩ ↔
      if 2 ≤ g.registry.getAliveReplicas.length then W.HedgeServes hash g prompt maxTokens
      else W.Delivers hash g ⟨clientId, prompt, maxTokens, false⟩ := by
  unfold Delivers
  split_ifs with halive
  · have henter : W.step hash (g, { request := ⟨clientId, prompt, maxTokens, true⟩ }) =
        some (g, InferCall.hedge { request := ⟨clientId, prompt, maxTokens, true⟩ }
          (.selecting .hashing)) := by
      rw [step_entered, if_pos ⟨rfl, halive⟩]
    rw [ends_iff_of_step henter]
    exact ends_hedged rfl rfl
  · have henter : ∀ b, W.step hash (g, { request := ⟨clientId, prompt, maxTokens, b⟩ }) =
        some (g, InferCall.goto { request := ⟨clientId, prompt, maxTokens, b⟩ } .looping) := by
      intro b
      rw [step_entered, if_neg fun h => halive h.2]
    rw [ends_iff_of_step (henter true), ends_iff_of_step (henter false)]
    exact ends_withHedge rfl false

/-- **Hedging.** Where a call that is not hedged delivers, the hedged one does if there are fewer
than two alive replicas, or if its one chance serves it. -/
theorem hedging_harmless_iff (W : World) (hash : List UInt8 → ℕ) (g : GatewayState)
    (clientId prompt : String) (maxTokens : ℤ)
    (hunhedged : W.Delivers hash g ⟨clientId, prompt, maxTokens, false⟩) :
    W.Delivers hash g ⟨clientId, prompt, maxTokens, true⟩ ↔
      g.registry.getAliveReplicas.length < 2 ∨ W.HedgeServes hash g prompt maxTokens := by
  rw [delivers_hedged_iff]
  split_ifs with halive
  · rw [or_iff_right (Nat.not_lt.mpr halive)]
  · exact iff_of_true hunhedged (Or.inl (Nat.not_le.mp halive))

end World

/-- Two alive replicas, and an empty ring. -/
def twoAlive : GatewayState where
  registry := ((({} : ReplicaRegistry).updateFromGossip "replica-1"
    ⟨"replica-1", "a:17001", .alive, 0, "v1", 0, 4⟩).1.updateFromGossip "replica-2"
    ⟨"replica-2", "b:17002", .alive, 0, "v1", 0, 4⟩).1

/-- The first replica is faster than the second, and sends a number of tokens from the beginning;
the second one sends all the tokens it is asked for. -/
def fastFirst (sent : ℕ) (ok : Bool) : World where
  sent id _ := if id = "replica-1" then sent else 2
  ending id _ := if id = "replica-1" then some ok else some true
  latency id := if id = "replica-1" then 1000000 else 2000000
  draws _ _ _ := [2]
  meanwhile g := g

/-- Both replicas serve the request. -/
theorem hedging_harmless_iff_served :
    (fastFirst 2 true).Delivers (fun _ => 0) twoAlive ⟨"client", "hello", 2, true⟩ := by
  have hunhedged :
      (fastFirst 2 true).Delivers (fun _ => 0) twoAlive ⟨"client", "hello", 2, false⟩ := by
    refine (ends_iff_of_follow 20 (Option.isNone_iff_eq_none.mp ?_)).mpr ?_
    · decide +kernel
    · decide +kernel
  have hfirst : (fastFirst 2 true).selection (fun _ => 0) twoAlive "hello" [] =
      some ⟨"replica-2", "b:7002"⟩ := by decide +kernel
  have hsecond : (fastFirst 2 true).selection (fun _ => 0) twoAlive "hello_hedge" ["replica-2"] =
      some ⟨"replica-1", "a:7001"⟩ := by decide +kernel
  have hwinner : (fastFirst 2 true).winner 2 ⟨"replica-2", "b:7002"⟩ ⟨"replica-1", "a:7001"⟩ =
      some ⟨"replica-1", "a:7001"⟩ := by decide +kernel
  refine (World.hedging_harmless_iff (fastFirst 2 true) (fun _ => 0) twoAlive "client" "hello" 2
    hunhedged).mpr (Or.inr ⟨rfl, _, hfirst, ?_⟩)
  rw [show "hello" ++ "_hedge" = "hello_hedge" from rfl, hsecond]
  dsimp only [Option.elim]
  rw [if_neg (by decide)]
  exact ⟨by decide +kernel, _, hwinner, le_refl 2, rfl⟩

/-- The faster replica sends one token and crashes: the other one alone delivers, and the hedged
call returns OK with one token of two. -/
theorem not_hedging_harmless_crashed :
    (fastFirst 1 false).Delivers (fun _ => 0) twoAlive ⟨"client", "hello", 2, false⟩ ∧
      ¬ (fastFirst 1 false).Delivers (fun _ => 0) twoAlive ⟨"client", "hello", 2, true⟩ := by
  constructor
  · refine (ends_iff_of_follow 20 (Option.isNone_iff_eq_none.mp ?_)).mpr ?_
    · decide +kernel
    · decide +kernel
  · refine (ends_iff_of_follow 40 (Option.isNone_iff_eq_none.mp ?_)).not.mpr ?_
    · decide +kernel
    · decide +kernel

end LlmGateway.Gateway
