import LlmGateway.Gateway.Failover
import LlmGateway.Gateway.InferMove

/-!
# Errors after partial delivery

An error status would be misleading once the client has received tokens, so `Infer` decides by
`tokens_sent` whether to return one. That counter misses the tokens of streams that failed, and the
queue and the one-replica branch of `InferHedged` do not look at it.

1. `ErrorStep`: the steps at which a call comes to return an error.
2. `Unsent`: a call of `InferHedged` that has not returned has written nothing.
3. `errors_unwritten_iff`: when errors are only returned by calls that have written nothing.
-/

namespace LlmGateway.Gateway

open Transition Replica

/-- The status that a call returns, once it is known. -/
def Stage.status : Stage → Option Status
  | .infer (.returned status) | .hedged (.returned status) => some status
  | _ => none

/-- If the call returns an error, then it has written nothing to its client. -/
def InferCall.ErrorUnwritten (f : InferCall) : Prop :=
  ∀ s, f.stage.status = some s → s.IsError → f.written = []

def ErrorsUnwritten (p : GatewayPool) : Prop := ∀ f, .infer f ∈ p.calls → f.ErrorUnwritten

/-! ## The steps that end in an error -/

/-- The queue is full for the call, or its wait is over. -/
def InferCall.Refused (g : GatewayState) (f : InferCall) : Prop :=
  f.stage = .infer .queueing ∧ g.queue.maxSize ≤ g.queue.waitingCount ∨
    ∃ t : Ticket, f.stage = .infer (.blocked t) ∧ g.queue.servingTicket ≤ t.number ∧
      t.deadline ≤ g.now

/-- The call has no attempt left. -/
def InferCall.Exhausted (f : InferCall) : Prop :=
  f.stage = .infer .looping ∧ maxRetries ≤ f.attempt

/-- The call is in the one-replica branch of `InferHedged`. -/
def InferCall.Single (f : InferCall) : Prop := ∃ selection, f.stage = .hedged (.single selection)

variable {hash : List UInt8 → ℕ} {g g' : GatewayState} {c : InferChoice} {f f' : InferCall}
  {s : Status}

theorem streamFromReplica_length (replicaId : String) (s : ReplicaStream) :
    (streamFromReplica replicaId s).1.length = s.forwarded := by
  rw [streamFromReplica, forward_eq, List.length_map]
  rfl

/-- A step of `Infer` that returns an error: the queue refuses the call, or it has no attempt and no
token counted. Nothing is written. -/
theorem InferMove.error (hmove : InferMove hash g c f g' f') (h : f'.stage.status = some s)
    (herror : s.IsError) :
    f'.written = f.written ∧ (f.Refused g ∨ f.Exhausted ∧ f.tokensSent ≤ 0) := by
  cases hmove with
  | cancel =>
    cases h
    exact absurd rfl herror.2
  | leave hstage hloop =>
    cases h
    unfold InferCall.finalStatus at herror
    split_ifs at herror with hall hsome
    · exact absurd rfl herror.1
    · exact absurd rfl herror.1
    · refine ⟨rfl, Or.inr ⟨⟨hstage, ?_⟩, not_lt.mp hsome⟩⟩
      by_contra hlt
      exact hloop ⟨not_le.mp hlt, not_le.mp hall⟩
  | reject hstage hfull => exact ⟨rfl, Or.inl (Or.inl ⟨hstage, hfull⟩)⟩
  | @giveUp t hstage hserved hlate => exact ⟨rfl, Or.inl (Or.inr ⟨t, hstage, hserved, hlate⟩)⟩
  | stream =>
    rcases stage_streamed f _ _ _ _ with hstage | hstage <;> rw [hstage] at h <;> cases h
    exact absurd rfl herror.1
  | _ => cases h

theorem Refused.step (h : f.Refused g) (hpending : f.pending = [])
    (hs : f.step hash g c = some (g', f')) :
    f'.stage.status = some InferCall.queueFull ∧ f'.written = f.written := by
  unfold InferCall.step at hs
  rw [hpending] at hs
  rcases h with ⟨hstage, hfull⟩ | ⟨t, hstage, hunserved, hlate⟩
  · simp only [hstage, InferCall.inferStep, RequestQueue.enter, if_pos hfull] at hs
    cases hs
    exact ⟨rfl, rfl⟩
  · simp only [hstage, InferCall.inferStep, RequestQueue.wake, if_neg (not_lt.mpr hunserved),
      if_pos hlate] at hs
    cases hs
    exact ⟨rfl, rfl⟩

theorem Exhausted.step (h : f.Exhausted) (hpending : f.pending = []) (hsent : f.tokensSent ≤ 0)
    (hmax : 0 < f.request.maxTokens) (hs : f.step hash g c = some (g', f')) :
    f'.stage.status = some ⟨.unavailable, "all replicas failed after retries"⟩ ∧
      f'.written = f.written := by
  obtain ⟨hstage, hattempt⟩ := h
  unfold InferCall.step at hs
  rw [hpending] at hs
  have hfinal : f.finalStatus = ⟨.unavailable, "all replicas failed after retries"⟩ := by
    rw [InferCall.finalStatus, if_neg (by omega), if_neg (not_lt.mpr hsent)]
  have hloop : ¬(f.attempt < maxRetries ∧ f.tokensSent < f.request.maxTokens) :=
    fun hloop => not_lt.mpr hattempt hloop.1
  simp only [hstage, InferCall.inferStep, if_neg hloop, hfinal] at hs
  cases hs
  exact ⟨rfl, rfl⟩

/-- What a step of `InferHedged` writes: nothing; or the responses of the only replica; or, on its
way to return OK, those of the winner. -/
inductive HedgeOutput (c : InferChoice) (f f' : InferCall) : Prop
  | unsent : f'.written = f.written → HedgeOutput c f f'
  | single : f.Single → f'.written.length = f.written.length + c.stream.forwarded →
      f'.stage.status =
        some (if c.stream.fails then ⟨.unavailable, "replica failed"⟩ else .ok) →
      HedgeOutput c f f'
  | winner : f'.stage.status = some .ok → HedgeOutput c f f'

theorem hedgeStep_output {t : HedgeStage} (hstage : f.stage = .hedged t)
    (hs : f.hedgeStep hash g c t = some (g', f')) :
    HedgeOutput c f f' ∧ f.stage.status = none := by
  rw [hstage]
  cases hedgeMove hs with
  | @stream selection =>
    refine ⟨.single ⟨selection, hstage⟩ ?_ ?_, rfl⟩
    · rw [List.length_append, streamFromReplica_length]
    · rw [streamFromReplica_returned]
      cases c.stream.fails
      · simp [Stage.status]
      · rfl
  | join =>
    refine ⟨.unsent ?_, rfl⟩
    unfold InferCall.afterRace
    dsimp only
    split <;> rfl
  | forward => exact ⟨.winner rfl, rfl⟩
  | _ => exact ⟨.unsent rfl, rfl⟩

/-! ## What has been written -/

/-- A call that is in `InferHedged`, or not yet in `Infer`, has written nothing before it returns. -/
def InferCall.Unsent (f : InferCall) : Prop :=
  (∀ s, f.stage ≠ .infer s) → f.stage.status = none → f.written = []

theorem InferMove.stage (h : InferMove hash g c f g' f') : ∃ t, f'.stage = .infer t := by
  cases h with
  | stream =>
    rcases stage_streamed f _ _ _ _ with hstage | hstage <;> exact ⟨_, hstage⟩
  | _ => exact ⟨_, rfl⟩

theorem InferCall.Unsent.step (h : f.Unsent) (hs : f.step hash g c = some (g', f')) : f'.Unsent := by
  unfold InferCall.step at hs
  split at hs
  · cases hs
    exact h
  · split at hs
    · rename_i hstage
      have hnone : f.written = [] := h (by simp [hstage]) (by rw [hstage]; rfl)
      split_ifs at hs <;> cases hs <;> exact fun _ _ => hnone
    · rename_i t hstage
      intro hnot
      obtain ⟨t', ht'⟩ := (inferMove hstage hs).stage
      exact absurd ht' (hnot t')
    · rename_i t hstage
      intro _ hunreturned
      obtain ⟨houtput, hnone⟩ := hedgeStep_output hstage hs
      cases houtput with
      | unsent hwritten =>
        rw [hwritten]
        exact h (by simp [hstage]) hnone
      | single _ _ hstatus | winner hstatus =>
        rw [hunreturned] at hstatus
        cases hstatus

theorem InferCall.Resumed.written_eq_nil_iff (h : f.Resumed) :
    f.written = [] ↔ ∀ a ∈ f.streams, a.stream.forwarded = 0 := by
  have hdeliveries : f.written = [] ↔ Resume.deliveries 0 (f.streams.map Attempt.delivery) = [] := by
    rw [← List.map_eq_nil_iff (f := untagged), h.written, List.map_eq_nil_iff]
  rw [hdeliveries, Resume.deliveries_eq_nil_iff, List.forall_mem_map]
  rfl

theorem InferCall.Resumed.sent_le_zero_iff (h : f.Resumed) :
    f.tokensSent ≤ 0 ↔ ∀ a ∈ f.streams, a.stream.fails = true ∨ a.stream.forwarded = 0 := by
  have hzero : f.tokensSent ≤ 0 ↔
      (f.streams.map Attempt.delivery).foldl Resume.advance 0 = 0 := by
    rw [h.sent]
    omega
  rw [hzero, Resume.foldl_advance_eq_iff, List.forall_mem_map]
  rfl

/-! ## Deliverable steps -/

/-- A step of a call at which its environment and its streams do not make it drop its word: the
queue does not refuse it after a stream has forwarded a response; if it has no attempt left, not all
the streams that forwarded responses have failed; and the stream of the only replica does not fail
after it has forwarded a response. -/
structure InferCall.Deliverable (g : GatewayState) (c : InferChoice) (f : InferCall) : Prop where
  refused : f.Refused g → ∀ a ∈ f.streams, a.stream.forwarded = 0
  exhausted : f.Exhausted → (∃ a ∈ f.streams, 0 < a.stream.forwarded) →
    ∃ a ∈ f.streams, 0 < a.stream.forwarded ∧ a.stream.fails = false
  single : f.Single → c.stream.fails = true → c.stream.forwarded = 0

def Deliverable (p : GatewayPool) (l : GatewayLabel) : Prop :=
  ∀ i c f, l = .call i c → p.calls[i]? = some (.infer f) → f.pending = [] → f.Deliverable p.shared c

/-- `tokens_sent` is not 0 if a stream that did not fail has forwarded a response. -/
theorem InferCall.Resumed.exhausted_iff (h : f.Resumed) :
    (f.tokensSent ≤ 0 → f.written = []) ↔
      ((∃ a ∈ f.streams, 0 < a.stream.forwarded) →
        ∃ a ∈ f.streams, 0 < a.stream.forwarded ∧ a.stream.fails = false) := by
  rw [h.sent_le_zero_iff, h.written_eq_nil_iff]
  constructor
  · rintro himp ⟨a, ha, hpos⟩
    by_contra hnone
    have hlost : ∀ b ∈ f.streams, b.stream.fails = true ∨ b.stream.forwarded = 0 := by
      intro b hb
      by_contra hboth
      obtain ⟨hfails, hforwarded⟩ := not_or.mp hboth
      exact hnone ⟨b, hb, Nat.pos_of_ne_zero hforwarded, Bool.eq_false_iff.mpr hfails⟩
    exact hpos.ne' (himp hlost a ha)
  · intro himp hlost a ha
    by_contra hforwarded
    obtain ⟨b, hb, hpos, hfails⟩ := himp ⟨a, ha, Nat.pos_of_ne_zero hforwarded⟩
    rcases hlost b hb with hfails' | hzero
    · rw [hfails] at hfails'
      cases hfails'
    · exact hpos.ne' hzero

theorem InferCall.Resumed.maxTokens_pos (h : f.Resumed)
    (hsome : ∃ a ∈ f.streams, 0 < a.stream.forwarded) : 0 < f.request.maxTokens := by
  obtain ⟨a, ha, hpos⟩ := hsome
  obtain ⟨k, hk⟩ := List.exists_mem_of_ne_nil _ fun hnil => hpos.ne'
    (Resume.deliveries_eq_nil_iff.mp hnil a.delivery (List.mem_map_of_mem ha))
  have hbound := h.bounded k hk
  omega

theorem InferCall.Refused.plain (h : f.Refused g) : f.Plain := by
  rcases h with ⟨hstage, -⟩ | ⟨t, hstage, -⟩ <;> exact InferCall.plain_of_infer hstage

/-- **One step.** After a step of a call that could deliver, an error is returned only if nothing
has been written. -/
theorem errorUnwritten_step (herror : f.ErrorUnwritten) (hunsent : f.Unsent)
    (hresumed : f.Plain → f.Resumed) (hdeliverable : f.pending = [] → f.Deliverable g c)
    (hs : f.step hash g c = some (g', f')) : f'.ErrorUnwritten := by
  unfold InferCall.step at hs
  split at hs
  · cases hs
    exact herror
  · rename_i hpending
    have hdeliverable := hdeliverable hpending
    split at hs
    · rename_i hstage
      split_ifs at hs <;> cases hs <;> exact fun _ hstatus => by cases hstatus
    · rename_i t hstage
      intro s hstatus herror
      obtain ⟨hwritten, hcause⟩ := (inferMove hstage hs).error hstatus herror
      have hresumed := hresumed (InferCall.plain_of_infer hstage)
      rw [hwritten]
      rcases hcause with hrefused | ⟨hexhausted, hsent⟩
      · exact hresumed.written_eq_nil_iff.mpr (hdeliverable.refused hrefused)
      · exact hresumed.exhausted_iff.mpr (hdeliverable.exhausted hexhausted) hsent
    · rename_i t hstage
      intro s hstatus herror
      obtain ⟨houtput, hnone⟩ := hedgeStep_output hstage hs
      have hempty : f.written = [] := hunsent (by simp [hstage]) hnone
      cases houtput with
      | unsent hwritten => rw [hwritten, hempty]
      | single hsingle hlength hreturned =>
        rw [hreturned] at hstatus
        cases hfails : c.stream.fails with
        | true =>
          rw [hempty, hdeliverable.single hsingle hfails] at hlength
          exact List.eq_nil_of_length_eq_zero hlength
        | false =>
          rw [hfails] at hstatus
          cases hstatus
          exact absurd rfl herror.1
      | winner hreturned =>
        rw [hreturned] at hstatus
        cases hstatus
        exact absurd rfl herror.1

/-- Conversely, a call that could not deliver returns an error after it has written something. -/
theorem deliverable_of_step (hresumed : f.Plain → f.Resumed) (hpending : f.pending = [])
    (hs : f.step hash g c = some (g', f')) (herror : f'.ErrorUnwritten) : f.Deliverable g c := by
  constructor
  · intro hrefused
    obtain ⟨hstatus, hwritten⟩ := Refused.step hrefused hpending hs
    have hnone := herror _ hstatus ⟨by decide, by decide⟩
    rw [hwritten] at hnone
    exact (hresumed hrefused.plain).written_eq_nil_iff.mp hnone
  · intro hexhausted hsome
    have hresumed := hresumed (InferCall.plain_of_infer hexhausted.1)
    refine hresumed.exhausted_iff.mp (fun hsent => ?_) hsome
    obtain ⟨hstatus, hwritten⟩ :=
      Exhausted.step hexhausted hpending hsent (hresumed.maxTokens_pos hsome) hs
    have hnone := herror _ hstatus ⟨by decide, by decide⟩
    rwa [hwritten] at hnone
  · rintro ⟨selection, hstage⟩ hfails
    unfold InferCall.step at hs
    rw [hpending] at hs
    simp only [hstage, InferCall.hedgeStep] at hs
    have hnegative : (streamFromReplica selection.replicaId c.stream).2 < 0 := by
      rw [streamFromReplica_returned, if_pos hfails]
      decide
    split at hs
    · cases hs
      have hnone := herror ⟨.unavailable, "replica failed"⟩ (by simp [Stage.status])
        ⟨by decide, by decide⟩
      rw [← streamFromReplica_length selection.replicaId c.stream,
        (List.append_eq_nil_iff.mp hnone).2]
      rfl
    · cases hs

/-! ## Every run -/

section

variable {es : List GatewayLabel} {p p' : GatewayPool} {l : GatewayLabel}

theorem unsent_of_run (hrun : Run (gatewayProgram hash).step ⟨g, []⟩ es p)
    (hf : .infer f ∈ p.calls) : f.Unsent := by
  have hP : Program.Preserves (gatewayProgram hash) (fun _ => True)
      fun _ t => ∀ f, t = .infer f → f.Unsent := by
    refine ⟨?_, ?_, fun _ _ _ _ _ _ _ _ u hu => hu, fun _ _ _ _ _ => ⟨trivial, fun u hu => hu⟩⟩
    · rintro s (request | _) - f hf
      · cases hf
        exact fun _ _ => rfl
      · cases hf
    · intro g t c g' t' _ ht hs
      refine ⟨trivial, fun f₁ heq => ?_⟩
      rcases gatewayCall_cases hs with ⟨f, f', rfl, rfl, hf⟩ | ⟨b, b', rfl, rfl, -⟩
      · cases heq
        exact (ht f rfl).step hf
      · cases heq
  exact (hP.invariant trivial hrun).calls _ hf f rfl

/-- **Partial delivery.** In every run, errors are returned only by calls that have written nothing,
in every state, if and only if every step is deliverable. -/
theorem errors_unwritten_iff (hash : List UInt8 → ℕ) (g : GatewayState) (es : List GatewayLabel)
    (p : GatewayPool) (hrun : Run (gatewayProgram hash).step ⟨g, []⟩ es p) :
    (Always (gatewayProgram hash).step ⟨g, []⟩ es fun _ p => ErrorsUnwritten p) ↔
      EveryStep (gatewayProgram hash).step ⟨g, []⟩ es fun _ p l => Deliverable p l := by
  constructor
  · intro halways pre l q hpre hq i c f hl hi hpending
    subst hl
    obtain ⟨q', _, hs, hq', _⟩ := hrun.step_of_prefix hpre hq
    have hmem := List.mem_of_getElem? hi
    cases Program.step_cases hs with
    | @call _ _ t t' g' hi' ht =>
      rw [hi] at hi'
      cases hi'
      rcases gatewayCall_cases ht with ⟨f₁, f', heq, rfl, hf⟩ | ⟨b, b', heq, -, -⟩
      · cases heq
        have hlt := (List.getElem?_eq_some_iff.mp hi).1
        exact deliverable_of_step (InferCall.resumed_of_run hq hmem) hpending hf
          (halways _ _ hpre hq' f' (List.mem_set hlt _))
      · cases heq
  · refine always_of_everyStep hrun (fun f hf => by cases hf) ?_
    intro pre q l q' hq herrors hdeliverable hs f hf
    cases Program.step_cases hs with
    | spawn x =>
      rcases List.mem_append.mp hf with hf | hf
      · exact herrors f hf
      · cases x with
        | infer request =>
          cases List.mem_singleton.mp hf
          exact fun _ hstatus => by cases hstatus
        | rebuildRing => cases List.mem_singleton.mp hf
    | env henv => exact herrors f hf
    | @call i c t t' g' hi ht =>
      rcases List.mem_or_eq_of_mem_set hf with hf | heq
      · exact herrors f hf
      · have hmem := List.mem_of_getElem? hi
        rcases gatewayCall_cases ht with ⟨f₁, f', rfl, rfl, hstep⟩ | ⟨b, b', -, rfl, -⟩
        · cases heq
          exact errorUnwritten_step (herrors f₁ hmem) (unsent_of_run hq hmem)
            (InferCall.resumed_of_run hq hmem) (hdeliverable i c f₁ rfl hi) hstep
        · cases heq

end

/-- No stream of the call forwards anything. -/
def silent (p : GatewayPool) : GatewayLabel → Bool
  | .call i c =>
    match p.calls[i]? with
    | some (.infer f) => f.streams.all (·.stream.forwarded = 0) && c.stream.forwarded = 0
    | _ => true
  | _ => true

theorem deliverable_of_silent {p : GatewayPool} {l : GatewayLabel} (h : silent p l = true) :
    Deliverable p l := by
  rintro i c f rfl hi -
  simp only [silent, hi, Bool.and_eq_true, List.all_eq_true, decide_eq_true_eq] at h
  refine ⟨fun _ => h.1, fun _ => ?_, fun _ _ => h.2⟩
  rintro ⟨a, ha, hpos⟩
  exact absurd (h.1 a ha) hpos.ne'

/-- One replica, and a client that asks for two tokens. -/
def onlyReplica : List GatewayLabel :=
  [.env (.updateFromGossip "replica-1" ⟨"replica-1", "a:17001", .alive, 0, "v1", 0, 4⟩),
    .spawn (.infer ⟨"client", "hello", 2, false⟩)] ++ List.replicate 6 (.call 0 {})

/-- The stream ends and the replica is excluded. The call's own notification serves its first
ticket at once; with the second one it waits 30 seconds in vain. -/
def streamThenWait (stream : ReplicaStream) : List GatewayLabel :=
  .call 0 { stream } :: List.replicate 13 (.call 0 {}) ++ [.env (.tick 30000000000), .call 0 {}]

/-- The call of the client at the end of such a run. -/
def waitedInVain (stream : ReplicaStream) (responses : List InferResponse) : InferCall where
  request := ⟨"client", "hello", 2, false⟩
  stage := .infer (.returned InferCall.queueFull)
  attempt := 2
  excluded := ["replica-1"]
  written := responses
  streams := [⟨"replica-1", 0, stream⟩]

/-- A stream that fails at once: nothing has been written when the queue refuses the call. -/
theorem errors_unwritten_iff_refused :
    let es := onlyReplica ++ streamThenWait ⟨[], false⟩
    ∃ p, Run (gatewayProgram fun _ => 0).step (newGateway 150 {} 100) es p ∧
      p.calls = [.infer (waitedInVain ⟨[], false⟩ [])] ∧
      Always (gatewayProgram fun _ => 0).step (newGateway 150 {} 100) es
        fun _ p => ErrorsUnwritten p := by
  intro es
  have hrun : Run (gatewayProgram fun _ => 0).step (newGateway 150 {} 100) es _ :=
    run_get (by decide +kernel)
  refine ⟨_, hrun, by decide +kernel, (errors_unwritten_iff _ _ es _ hrun).mpr ?_⟩
  have hcheck : checkSteps (gatewayProgram fun _ => 0).step silent (newGateway 150 {} 100) es =
      true := by decide +kernel
  exact fun pre l p hpre hp => deliverable_of_silent (everyStep_of_check hcheck pre l p hpre hp)

/-- A stream that fails after its first token: the client has that token, and then an error. -/
theorem not_errors_unwritten_refused :
    let stream : ReplicaStream := ⟨[{ response := ⟨"token_0", false⟩ }], false⟩
    let es := onlyReplica ++ streamThenWait stream
    ∃ p, Run (gatewayProgram fun _ => 0).step (newGateway 150 {} 100) es p ∧
      p.calls = [.infer (waitedInVain stream [⟨"token_0", false, "replica-1"⟩])] ∧
      ¬ ErrorsUnwritten p := by
  intro stream es
  have hrun : Run (gatewayProgram fun _ => 0).step (newGateway 150 {} 100) es _ :=
    run_get (by decide +kernel)
  have hcalls : ((exec (gatewayProgram fun _ => 0).step (newGateway 150 {} 100) es).get
      (by decide +kernel)).calls =
        [.infer (waitedInVain stream [⟨"token_0", false, "replica-1"⟩])] := by decide +kernel
  refine ⟨_, hrun, hcalls, fun h => ?_⟩
  have hnone := h _ (by rw [hcalls]; exact List.mem_singleton_self _) _ rfl ⟨by decide, by decide⟩
  cases hnone

end LlmGateway.Gateway
