import LlmGateway.Gateway.Failover
import LlmGateway.Gateway.InferMove

/-!
# The circuit breaker protocol of the request paths

For each dispatch `Infer` asks the breaker of the replica, opens a stream, and records the outcome.
`InferHedged` opens its streams without asking and does not record every outcome.

1. `Phase`: the protocol of one replica within one call, as an automaton over `DispatchEvent`.
2. `InferCall.events`: the events of one step of a call, those of `InferHedged` included.
3. `disciplined_of_plain`: in a run in which no stream is opened by `InferHedged`, every call follows
   the protocol. If besides no circuit opens for a call that has been let through, no stream is
   opened to a replica whose circuit is OPEN.
-/

namespace LlmGateway.Gateway

open Transition Replica

/-! ## The protocol -/

/-- What a call does about a replica: the answer of `AllowRequest`, a `Generate` stream opened, its
end, and an outcome recorded. -/
inductive DispatchEvent
  | asked (allowed : Bool)
  | opened
  | ended (failed : Bool)
  | recorded (success : Bool)
  deriving DecidableEq, Repr

/-- Where a call is with a replica. -/
inductive Phase
  | idle
  | allowed
  | streaming
  | ended (failed : Bool)
  deriving DecidableEq, Repr

/-- The protocol: a stream is opened after an answer that allows it, and one outcome is recorded for
it, which is a failure exactly if the stream has failed. -/
def Phase.next : Phase → DispatchEvent → Option Phase
  | .idle, .asked b => some (if b then .allowed else .idle)
  | .allowed, .opened => some .streaming
  | .streaming, .ended failed => some (.ended failed)
  | .ended failed, .recorded success => if success = !failed then some .idle else none
  | _, _ => none

/-- The events about one replica. -/
def about (id : String) (events : List (String × DispatchEvent)) : List DispatchEvent :=
  (events.filter (·.1 = id)).map Prod.snd

/-- The phase that the events about a replica lead to, if they follow the protocol. -/
def Phase.after (id : String) (events : List (String × DispatchEvent)) : Option Phase :=
  (about id events).foldlM Phase.next .idle

/-! ## The events of a call -/

/-- A stream that the race drops: `TryCancel`, if it has brought a token. -/
def Racer.cancel (x : Racer) : List (String × DispatchEvent) :=
  if x.firstToken.isSome then [(x.selection.replicaId, .ended false)] else []

/-- The events of a step of the race, before the threads are joined. A stream that brings no token
has ended; nothing reads its status, which is that of `c.stream`. -/
def Race.events (r : Race) (c : InferChoice) : List (String × DispatchEvent) :=
  match r.racer c.actor with
  | some ({ selection, thread := .reading, .. }, _) =>
    if c.firstRead.isSome then [(selection.replicaId, .opened)]
    else [(selection.replicaId, .opened), (selection.replicaId, .ended (!c.stream.ok))]
  | _ => []

/-- The events when the threads are joined: all streams but the winner's are dropped. -/
def Race.dropped (r : Race) (winnerId : ℕ) : List (String × DispatchEvent) :=
  if winnerId = 1 ∧ r.first.firstToken.isSome then r.second.cancel
  else if winnerId ≠ 0 ∧ winnerId ≠ 1 ∧ r.second.firstToken.isSome then r.first.cancel
  else r.first.cancel ++ r.second.cancel

/-- The events of the next step of `InferHedged`. -/
def HedgeStage.events (c : InferChoice) : HedgeStage → List (String × DispatchEvent)
  | .single s => [(s.replicaId, .opened), (s.replicaId, .ended c.stream.fails)]
  | .waiting r => r.events c
  | .joining r winnerId => if c.actor = .main then r.dropped winnerId else r.events c
  | .forwarding _ s _ => [(s.replicaId, .ended c.stream.fails)]
  | _ => []

/-- The events of the next step of a call. -/
def InferCall.events (g : GatewayState) (f : InferCall) (c : InferChoice) :
    List (String × DispatchEvent) :=
  match f.pending with
  | .recordSuccess id :: _ => [(id, .recorded true)]
  | .recordFailure id :: _ => [(id, .recorded false)]
  | _ :: _ => []
  | [] =>
    match f.stage with
    | .infer (.allowing s) =>
      [(s.replicaId, .asked (g.breakers.allowRequest g.now s.replicaId).2)]
    | .infer (.streaming s) => [(s.replicaId, .opened), (s.replicaId, .ended c.stream.fails)]
    | .hedged s => s.events c
    | _ => []

/-- The events of the call `i` in a run from `g`. -/
def dispatchEvents (hash : List UInt8 → ℕ) (g : GatewayState) (i : ℕ) (es : List GatewayLabel) :
    List (String × DispatchEvent) :=
  Program.history
    (fun g t c =>
      match t with
      | .infer f => f.events g c
      | .rebuildRing _ => [])
    (gatewayProgram hash) g i es

/-! ## A call that follows the protocol -/

/-- `InferHedged` opens a stream in the step. -/
def InferCall.OpensHedged (f : InferCall) (c : InferChoice) : Prop :=
  f.pending = [] ∧ ((∃ s, f.stage = .hedged (.single s)) ∨
    ∃ r x n, (f.stage = .hedged (.waiting r) ∨ ∃ winnerId, f.stage = .hedged (.joining r winnerId)) ∧
      r.racer c.actor = some (x, n) ∧ x.thread = .reading)

/-- `InferHedged` has not opened a stream yet. -/
def HedgeStage.Unopened : HedgeStage → Prop
  | .waiting r | .joining r _ => r.first.thread = .reading ∧ r.second.thread = .reading
  | .forwarding _ _ _ => False
  | _ => True

/-- The shapes of a call that follows the protocol: let through and before its stream; elsewhere in
`Infer`, perhaps with the operations after a stream; or in `InferHedged` before any stream. -/
inductive InferCall.Orderly (f : InferCall) : Prop
  | streaming {s : Selection} : f.stage = .infer (.streaming s) →
      f.pending = [] ∨ f.pending = [.incrementActive s.replicaId] → Orderly f
  | plain {id : String} {n : ℤ} : f.Plain → (∀ s, f.stage ≠ .infer (.streaming s)) →
      f.pending <:+ InferCall.afterStream id n → Orderly f
  | hedged {s : HedgeStage} : f.stage = .hedged s → s.Unopened →
      (∀ op ∈ f.pending, ∃ id, op = .incrementActive id) → Orderly f

theorem InferCall.Orderly.calm {f : InferCall} (h : f.Plain)
    (hnot : ∀ s, f.stage ≠ .infer (.streaming s)) (hpending : f.pending = []) : f.Orderly :=
  @plain f "" 0 h hnot (by rw [hpending]; exact List.nil_suffix)

def Stage.phase (s : Stage) (id : String) : Phase :=
  match s with
  | .infer (.streaming s) => if s.replicaId = id then .allowed else .idle
  | _ => .idle

/-- Where the call is with a replica. -/
def InferCall.phase (f : InferCall) (id : String) : Phase :=
  if .recordFailure id ∈ f.pending then .ended true
  else if .recordSuccess id ∈ f.pending then .ended false
  else f.stage.phase id

variable {hash : List UInt8 → ℕ} {g g' : GatewayState} {c : InferChoice} {f f' : InferCall}

theorem phase_of_no_report (h : ∀ op ∈ f.pending, op.isRecord = false) (id : String) :
    f.phase id = f.stage.phase id := by
  have hfailure : .recordFailure id ∉ f.pending := fun hmem => by cases h _ hmem
  have hsuccess : .recordSuccess id ∉ f.pending := fun hmem => by cases h _ hmem
  rw [InferCall.phase, if_neg hfailure, if_neg hsuccess]

theorem stage_phase_idle {t : Stage} (h : ∀ s, t ≠ .infer (.streaming s)) (id : String) :
    t.phase id = .idle := by
  unfold Stage.phase
  split
  · rename_i s
    exact absurd rfl (h s)
  · rfl

/-- The report after a stream. -/
def report (id : String) (n : ℤ) : Operation :=
  if n < 0 then .recordFailure id else .recordSuccess id

theorem suffix_afterStream {id : String} {n : ℤ} {ops : List Operation}
    (h : ops <:+ InferCall.afterStream id n) :
    ops = InferCall.afterStream id n ∨ ops = [.notifyCapacityAvailable, report id n] ∨
      ops = [report id n] ∨ ops = [] := by
  rcases List.suffix_cons_iff.mp h with h | h
  · exact Or.inl h
  rcases List.suffix_cons_iff.mp h with h | h
  · exact Or.inr (Or.inl h)
  rcases List.suffix_cons_iff.mp h with h | h
  · exact Or.inr (Or.inr (Or.inl h))
  · exact Or.inr (Or.inr (Or.inr (List.suffix_nil.mp h)))

/-- After a stream the outcome is still to be recorded. -/
theorem phase_of_suffix {id : String} {n : ℤ} (h : f.pending <:+ InferCall.afterStream id n)
    (hne : f.pending ≠ []) (hstage : ∀ s, f.stage ≠ .infer (.streaming s)) (id' : String) :
    f.phase id' = if id' = id then .ended (n < 0) else .idle := by
  -- the report is the only outcome among the operations
  have hreport : ∀ op : Operation, op.isRecord = true → (op ∈ f.pending ↔ op = report id n) := by
    intro op hop
    have hne₁ : op ≠ .decrementActive id := by rintro rfl; cases hop
    have hne₂ : op ≠ .notifyCapacityAvailable := by rintro rfl; cases hop
    rcases suffix_afterStream h with hops | hops | hops | hops
    · rw [hops]
      show op ∈ [_, _, report id n] ↔ _
      simp [hne₁, hne₂]
    · rw [hops]
      simp [hne₂]
    · rw [hops]
      simp
    · exact absurd hops hne
  unfold InferCall.phase
  rw [stage_phase_idle hstage]
  simp only [hreport _ (show Operation.isRecord (.recordFailure id') = true from rfl),
    hreport _ (show Operation.isRecord (.recordSuccess id') = true from rfl)]
  by_cases hn : n < 0 <;> simp [report, hn]

theorem quiet_step (hevents : f.events g c = []) (h : ∀ op ∈ f.pending, op.isRecord = false)
    (h' : ∀ op ∈ f'.pending, op.isRecord = false)
    (hphase : ∀ id, f'.stage.phase id = f.stage.phase id) (id : String) :
    (about id (f.events g c)).foldlM Phase.next (f.phase id) = some (f'.phase id) := by
  rw [hevents, phase_of_no_report h, phase_of_no_report h', hphase]
  rfl

theorem streamed_stage (f : InferCall) (selection : Selection) (stream : ReplicaStream)
    (responses : List InferResponse) (n : ℤ) :
    (f.streamed selection stream responses n).pending =
        InferCall.afterStream selection.replicaId n ∧
      ∃ t, (f.streamed selection stream responses n).stage = .infer t ∧ ∀ s, t ≠ .streaming s := by
  unfold InferCall.streamed
  dsimp only
  split_ifs <;> exact ⟨rfl, _, rfl, fun s hs => by cases hs⟩

/-- A step of a call that has been let through: its reservation, or its stream. -/
theorem streaming_step {s : Selection} (hstage : f.stage = .infer (.streaming s))
    (hpending : f.pending = [] ∨ f.pending = [.incrementActive s.replicaId])
    (hs : f.step hash g c = some (g', f')) :
    f'.Orderly ∧ ∀ id,
      (about id (f.events g c)).foldlM Phase.next (f.phase id) = some (f'.phase id) := by
  rcases hpending with hpending | hpending
  · unfold InferCall.step at hs
    simp only [hpending, hstage, InferCall.inferStep] at hs
    have hphase : ∀ id, f.phase id = if s.replicaId = id then .allowed else .idle := fun id => by
      rw [phase_of_no_report (by simp [hpending]), hstage]
      rfl
    have hevents : f.events g c = [(s.replicaId, .opened), (s.replicaId, .ended c.stream.fails)] := by
      simp only [InferCall.events, hpending, hstage]
    split at hs
    · cases hs
      have hnegative : ((streamFromReplica s.replicaId c.stream).2 < 0) ↔ c.stream.fails = true := by
        rw [streamFromReplica_returned]
        split_ifs with hfails <;> simp [hfails]
      obtain ⟨hpending', t, hstage', hnot⟩ := streamed_stage f s c.stream
        (streamFromReplica s.replicaId c.stream).1 (streamFromReplica s.replicaId c.stream).2
      generalize f.streamed s c.stream (streamFromReplica s.replicaId c.stream).1
        (streamFromReplica s.replicaId c.stream).2 = f' at hpending' hstage' ⊢
      have hsuffix : f'.pending <:+ InferCall.afterStream s.replicaId
          (streamFromReplica s.replicaId c.stream).2 := by rw [hpending']
      have hnot' : ∀ s, f'.stage ≠ .infer (.streaming s) := by
        rw [hstage']
        exact fun s hs => hnot s (Stage.infer.inj hs)
      refine ⟨.plain (InferCall.plain_of_infer hstage') hnot' hsuffix, fun id => ?_⟩
      rw [phase_of_suffix hsuffix (by rw [hpending']; exact List.cons_ne_nil _ _) hnot', hevents,
        hphase]
      by_cases hid : s.replicaId = id
      · subst hid
        simp [about, Phase.next, hnegative]
      · simp [about, hid, Ne.symm hid]
    · cases hs
  · unfold InferCall.step at hs
    rw [hpending] at hs
    cases hs
    refine ⟨.streaming hstage (Or.inl rfl), quiet_step ?_ ?_ (by simp) fun _ => rfl⟩
    · simp only [InferCall.events, hpending]
    · simp [hpending, Operation.isRecord]

theorem InferMove.phase (h : InferMove hash g c f g' f') (hpending : f.pending = [])
    (hnot : ∀ s, f.stage ≠ .infer (.streaming s)) :
    f'.Orderly ∧ ∀ id,
      (about id (f.events g c)).foldlM Phase.next (f.phase id) = some (f'.phase id) := by
  have hidle : ∀ id, f.stage.phase id = .idle := stage_phase_idle hnot
  -- most stages have no events and lead to a stage before or after a stream
  have hquiet : ∀ t t', f.stage = .infer t → (∀ s, t ≠ .allowing s) → f'.stage = .infer t' →
      (∀ s, t' ≠ .streaming s) → f'.pending = [] → f'.Orderly ∧ ∀ id,
        (about id (f.events g c)).foldlM Phase.next (f.phase id) = some (f'.phase id) := by
    intro t t' hstage hunasked hstage' hnot' hpending'
    have hidle' : ∀ s, f'.stage ≠ .infer (.streaming s) := by
      rw [hstage']
      exact fun s hs => hnot' s (Stage.infer.inj hs)
    have hevents : f.events g c = [] := by
      unfold InferCall.events
      rw [hpending, hstage]
      cases t with
      | allowing s => exact absurd rfl (hunasked s)
      | streaming s => exact absurd hstage (hnot s)
      | _ => rfl
    refine ⟨.calm (InferCall.plain_of_infer hstage') hidle' hpending',
      quiet_step hevents (by simp [hpending]) (by simp [hpending']) fun id => ?_⟩
    rw [hidle, stage_phase_idle hidle']
  -- the answer of the circuit decides where the call is with the replica
  have hasked : ∀ {s}, f.stage = .infer (.allowing s) → ∀ id,
      (about id (f.events g c)).foldlM Phase.next (f.phase id) =
        some (if s.replicaId = id ∧ (g.breakers.allowRequest g.now s.replicaId).2 = true then
          .allowed else .idle) := by
    intro s hstage id
    have hevents : f.events g c =
        [(s.replicaId, .asked (g.breakers.allowRequest g.now s.replicaId).2)] := by
      unfold InferCall.events
      rw [hpending, hstage]
    rw [hevents, phase_of_no_report (by simp [hpending]), hidle]
    by_cases hid : s.replicaId = id
    · simp [about, hid, Phase.next]
    · simp [about, hid]
  cases h with
  | allow hstage hallowed =>
    refine ⟨.streaming rfl (Or.inr rfl), fun id => ?_⟩
    rw [hasked hstage, phase_of_no_report (by simp [Operation.isRecord])]
    simp only [hallowed, and_true]
    rfl
  | @refuse s hstage hrefused =>
    have hpending' : (f.retryWithout s.replicaId).pending = [] := hpending
    refine ⟨.calm (InferCall.plain_of_infer rfl) (fun s hs => by cases hs) hpending',
      fun id => ?_⟩
    rw [hasked hstage, phase_of_no_report (by simp [hpending']), if_neg (by simp [hrefused])]
    rfl
  | stream hstage => exact absurd hstage (hnot _)
  | _ hstage => exact hquiet _ _ hstage (by simp) rfl (by simp) hpending

theorem hedgeStep_phase {t : HedgeStage} (hstage : f.stage = .hedged t) (hpending : f.pending = [])
    (hunopened : t.Unopened) (hhedged : ¬ f.OpensHedged c)
    (hs : f.hedgeStep hash g c t = some (g', f')) :
    f'.Orderly ∧ ∀ id,
      (about id (f.events g c)).foldlM Phase.next (f.phase id) = some (f'.phase id) := by
  have hquiet : ∀ t' : HedgeStage, f'.stage = .hedged t' → t'.Unopened →
      (∀ op ∈ f'.pending, ∃ id, op = .incrementActive id) → f.events g c = [] →
      f'.Orderly ∧ ∀ id,
        (about id (f.events g c)).foldlM Phase.next (f.phase id) = some (f'.phase id) := by
    intro t' hstage' hunopened' hbegins hevents
    refine ⟨.hedged hstage' hunopened' hbegins, quiet_step hevents (by simp [hpending]) ?_ ?_⟩
    · intro op hop
      obtain ⟨id, rfl⟩ := hbegins op hop
      rfl
    · intro id
      rw [hstage, hstage']
      rfl
  have hnone : ∀ op ∈ f.pending, ∃ id, op = Operation.incrementActive id := by simp [hpending]
  -- a race thread that has not begun would open its stream
  have hthread : ∀ r : Race, (t = .waiting r ∨ ∃ winnerId, t = .joining r winnerId) →
      r.first.thread = .reading → r.second.thread = .reading → c.actor = .main := by
    intro r ht hfirst hsecond
    have hstage' : f.stage = .hedged (.waiting r) ∨
        ∃ winnerId, f.stage = .hedged (.joining r winnerId) := by
      rcases ht with rfl | ⟨winnerId, rfl⟩
      · exact Or.inl hstage
      · exact Or.inr ⟨winnerId, hstage⟩
    cases hactor : c.actor with
    | main => rfl
    | first =>
      exact absurd ⟨hpending, Or.inr ⟨r, r.first, 1, hstage', by rw [hactor]; rfl, hfirst⟩⟩ hhedged
    | second =>
      exact absurd ⟨hpending, Or.inr ⟨r, r.second, 2, hstage', by rw [hactor]; rfl, hsecond⟩⟩ hhedged
  have hevents : f.events g c = t.events c := by
    unfold InferCall.events
    rw [hpending, hstage]
  cases hedgeMove hs with
  | scan | starve | choose | rescan => exact hquiet _ rfl trivial hnone hevents
  | alone | pair => exact hquiet _ rfl trivial (by simp) hevents
  | stream => exact absurd ⟨hpending, Or.inl ⟨_, hstage⟩⟩ hhedged
  | start => exact hquiet _ rfl ⟨rfl, rfl⟩ hnone hevents
  | take hactor | giveUp hactor =>
    have hevents : f.events g c = [] :=
      hevents.trans (by simp [HedgeStage.events, Race.events, hactor, Race.racer])
    exact hquiet _ rfl hunopened hnone hevents
  | @race r r' hactor =>
    exact absurd (hthread r (Or.inl rfl) hunopened.1 hunopened.2) hactor
  | @late r r' winnerId hactor =>
    exact absurd (hthread r (Or.inr ⟨winnerId, rfl⟩) hunopened.1 hunopened.2) hactor
  | join _ hfirst =>
    rw [hunopened.1] at hfirst
    cases hfirst
  | forward => exact hunopened.elim

theorem plain_pop {id : String} {n : ℤ} {op : Operation} {ops : List Operation} (hplain : f.Plain)
    (hnot : ∀ s, f.stage ≠ .infer (.streaming s)) (hpending : f.pending = op :: ops)
    (hsuffix : f.pending <:+ InferCall.afterStream id n) :
    ({ f with pending := ops } : InferCall).Orderly ∧ ∀ id',
      (about id' (f.events g c)).foldlM Phase.next (f.phase id') =
        some (({ f with pending := ops } : InferCall).phase id') := by
  have hops : ops <:+ InferCall.afterStream id n :=
    (List.suffix_cons op ops).trans (hpending ▸ hsuffix)
  refine ⟨.plain hplain hnot hops, fun id' => ?_⟩
  have hphase := phase_of_suffix hsuffix (by simp [hpending]) hnot id'
  -- nothing is reported before the last operation
  have hearly : ops ≠ [] → f.events g c = [] →
      (about id' (f.events g c)).foldlM Phase.next (f.phase id') =
        some (({ f with pending := ops } : InferCall).phase id') := by
    intro hne hevents
    have hphase' := @phase_of_suffix { f with pending := ops } id n hops hne hnot id'
    rw [hevents, hphase, hphase']
    rfl
  rw [hpending] at hsuffix
  rcases suffix_afterStream hsuffix with h | h | h | h
  · obtain ⟨rfl, rfl⟩ := List.cons.inj h
    exact hearly (List.cons_ne_nil _ _) (by simp only [InferCall.events, hpending])
  · obtain ⟨rfl, rfl⟩ := List.cons.inj h
    exact hearly (List.cons_ne_nil _ _) (by simp only [InferCall.events, hpending])
  · obtain ⟨rfl, rfl⟩ := List.cons.inj h
    have hlast : ({ f with pending := [] } : InferCall).phase id' = .idle :=
      (phase_of_no_report (by simp) id').trans (stage_phase_idle hnot id')
    have hevents : f.events g c = [(id, .recorded (!decide (n < 0)))] := by
      unfold InferCall.events
      rw [hpending]
      by_cases hn : n < 0 <;> simp [report, hn]
    rw [hlast, hphase, hevents]
    by_cases hid : id' = id
    · simp [about, hid, Phase.next]
    · simp [about, hid, Ne.symm hid]
  · cases h

/-- **One step** of a call that follows the protocol, and opens no stream from `InferHedged`. -/
theorem InferCall.Orderly.step (h : f.Orderly) (hhedged : ¬ f.OpensHedged c)
    (hs : f.step hash g c = some (g', f')) :
    f'.Orderly ∧ ∀ id,
      (about id (f.events g c)).foldlM Phase.next (f.phase id) = some (f'.phase id) := by
  cases h with
  | streaming hstage hpending => exact streaming_step hstage hpending hs
  | plain hplain hnot hsuffix =>
    unfold InferCall.step at hs
    split at hs
    · rename_i op ops hpending
      cases hs
      exact plain_pop hplain hnot hpending hsuffix
    · rename_i hpending
      split at hs
      · rename_i hstage
        have hevents : f.events g c = [] := by
          unfold InferCall.events
          rw [hpending, hstage]
        have hidle : ∀ id, f.stage.phase id = .idle := fun id => by
          rw [hstage]
          rfl
        split_ifs at hs
        · cases hs
          refine ⟨.hedged rfl trivial (show ∀ op ∈ f.pending, _ by simp [hpending]),
            quiet_step hevents (by simp [hpending]) (show ∀ op ∈ f.pending, _ by simp [hpending])
              fun id => ?_⟩
          rw [hidle]
          rfl
        · cases hs
          refine ⟨.calm (InferCall.plain_of_infer rfl) (fun s hs => by cases hs) hpending,
            quiet_step hevents (by simp [hpending]) (show ∀ op ∈ f.pending, _ by simp [hpending])
              fun id => ?_⟩
          rw [hidle]
          rfl
      · rename_i t hstage
        exact (inferMove hstage hs).phase hpending hnot
      · rename_i t hstage
        exact absurd hstage (hplain t)
  | @hedged t hstage hunopened hbegins =>
    unfold InferCall.step at hs
    split at hs
    · rename_i op ops hpending
      cases hs
      have hreport : ∀ op ∈ f.pending, op.isRecord = false := fun op hop => by
        obtain ⟨id, rfl⟩ := hbegins op hop
        rfl
      have hrest : ∀ op' ∈ ops, op' ∈ f.pending := fun op' hop' =>
        hpending ▸ List.mem_cons_of_mem _ hop'
      refine ⟨.hedged hstage hunopened fun op' hop' => hbegins op' (hrest op' hop'),
        quiet_step ?_ hreport (fun op' hop' => hreport op' (hrest op' hop')) fun _ => rfl⟩
      obtain ⟨id, rfl⟩ := hbegins op (hpending ▸ List.mem_cons_self)
      simp only [InferCall.events, hpending]
    · rename_i hpending
      rw [hstage] at hs
      exact hedgeStep_phase hstage hpending hunopened hhedged hs

/-! ## The circuits -/

/-- A stream to the replica is opened in the step. -/
def Opens (p : GatewayPool) (l : GatewayLabel) (id : String) : Prop :=
  ∃ i c f, l = .call i c ∧ p.calls[i]? = some (.infer f) ∧ (id, .opened) ∈ f.events p.shared c

/-- `AllowRequest` would refuse a request for the replica: its circuit is OPEN and in cooldown. -/
def GatewayState.Cooling (g : GatewayState) (id : String) : Prop :=
  (g.breakers.getOrCreate id).state = .opened ∧
    elapsedMs (g.breakers.getOrCreate id).openedAt g.now <
      (g.breakers.getOrCreate id).config.cooldownMs

/-- The call has been let through to the replica, and has not opened its stream. -/
def InferCall.LetThrough (f : InferCall) (id : String) : Prop :=
  ∃ s : Selection, f.stage = .infer (.streaming s) ∧ s.replicaId = id

/-- The next step of the call records an outcome with which the circuit of the replica is OPEN. -/
def InferCall.Trips (g : GatewayState) (f : InferCall) (id : String) : Prop :=
  ∃ ok ops, f.pending = (if ok then .recordSuccess id else .recordFailure id) :: ops ∧
    ((g.breakers.getOrCreate id).record g.now ok).state = .opened

/-- No stream is opened by `InferHedged` in the step. -/
def Unhedged (p : GatewayPool) (l : GatewayLabel) : Prop :=
  ∀ i c f, l = .call i c → p.calls[i]? = some (.infer f) → ¬ f.OpensHedged c

/-- No circuit is opened in the step for a replica that a call has been let through to. -/
def Untripped (p : GatewayPool) (l : GatewayLabel) : Prop :=
  ∀ i c f id, l = .call i c → p.calls[i]? = some (.infer f) → f.Trips p.shared id →
    ∀ u, .infer u ∈ p.calls → ¬ u.LetThrough id

/-- Every replica that a call has been let through to has a circuit that is not OPEN. -/
def Unopened (p : GatewayPool) : Prop :=
  ∀ f id, .infer f ∈ p.calls → f.LetThrough id → (p.shared.breakers.getOrCreate id).state ≠ .opened

/-- What a step of a call does to the circuits and to its own leave: nothing; or it records an
outcome; or it asks. -/
inductive CircuitStep (g : GatewayState) (f : InferCall) (g' : GatewayState) (f' : InferCall) : Prop
  | quiet : g'.breakers = g.breakers → (∀ id, f'.LetThrough id → f.LetThrough id) →
      CircuitStep g f g' f'
  | records {id : String} {ok : Bool} {ops : List Operation} :
      f.pending = (if ok then .recordSuccess id else .recordFailure id) :: ops →
      g'.breakers = g.breakers.set id ((g.breakers.getOrCreate id).record g.now ok) →
      (∀ id, f'.LetThrough id → f.LetThrough id) → CircuitStep g f g' f'
  | asks (id : String) :
      g'.breakers = g.breakers.set id ((g.breakers.getOrCreate id).allowRequest g.now).1 →
      (∀ id', f'.LetThrough id' →
        id' = id ∧ ((g.breakers.getOrCreate id).allowRequest g.now).2 = true) →
      CircuitStep g f g' f'

theorem not_letThrough {t : Stage} {id : String} (h : f.stage = t)
    (hnot : ∀ s, t ≠ .infer (.streaming s)) : ¬ f.LetThrough id := by
  rintro ⟨s, hs, -⟩
  exact hnot s (h ▸ hs)

theorem InferMove.circuit (h : InferMove hash g c f g' f') : CircuitStep g f g' f' := by
  have hquiet : ∀ t', f'.stage = .infer t' → (∀ s, t' ≠ .streaming s) → g'.breakers = g.breakers →
      CircuitStep g f g' f' := fun t' hstage hnot hbreakers => .quiet hbreakers fun id hid =>
    absurd hid (not_letThrough hstage fun s hs => hnot s (Stage.infer.inj hs))
  cases h with
  | @allow s hstage hallowed =>
    refine .asks s.replicaId rfl ?_
    rintro id ⟨s', hs', rfl⟩
    cases hs'
    exact ⟨rfl, hallowed⟩
  | @refuse s =>
    exact .asks s.replicaId rfl fun id hid =>
      absurd hid (not_letThrough rfl fun s hs => by cases hs)
  | @stream s =>
    obtain ⟨-, t, hstage, hnot⟩ := streamed_stage f s c.stream
      (streamFromReplica s.replicaId c.stream).1 (streamFromReplica s.replicaId c.stream).2
    exact hquiet t hstage hnot rfl
  | _ => exact hquiet _ rfl (by simp) rfl

theorem operation_circuit {op : Operation} {ops : List Operation} (hpending : f.pending = op :: ops) :
    CircuitStep g f (op.apply g) { f with pending := ops } := by
  cases op with
  | incrementActive | decrementActive | notifyCapacityAvailable => exact .quiet rfl fun _ h => h
  | recordSuccess id =>
    exact @CircuitStep.records _ _ _ _ id true ops hpending rfl fun _ h => h
  | recordFailure id =>
    exact @CircuitStep.records _ _ _ _ id false ops hpending rfl fun _ h => h

theorem step_circuit (hs : f.step hash g c = some (g', f')) : CircuitStep g f g' f' := by
  unfold InferCall.step at hs
  split at hs
  · rename_i op ops hpending
    cases hs
    exact operation_circuit hpending
  · split at hs
    · split_ifs at hs <;> cases hs <;>
        exact .quiet rfl fun id hid => absurd hid (not_letThrough rfl fun s hs => by cases hs)
    · rename_i t hstage
      exact (inferMove hstage hs).circuit
    · obtain ⟨⟨t', ht'⟩, -, hbreakers, -⟩ := InferCall.hedgeStep_effect hs
      exact .quiet hbreakers fun id hid =>
        absurd hid (not_letThrough ht' fun s hs => by cases hs)

/-! ## Every run -/

section

variable {es : List GatewayLabel} {p p' : GatewayPool} {l : GatewayLabel}

theorem unopened_step (h : Unopened p) (huntripped : Untripped p l)
    (hs : (gatewayProgram hash).step p l = some p') : Unopened p' := by
  cases Program.step_cases hs with
  | spawn x =>
    intro f id hf hid
    rcases List.mem_append.mp hf with hf | hf
    · exact h f id hf hid
    · cases x with
      | infer request =>
        cases List.mem_singleton.mp hf
        exact absurd hid (not_letThrough rfl fun s hs => by cases hs)
      | rebuildRing => cases List.mem_singleton.mp hf
  | @env e _ henv =>
    cases henv
    cases e <;> exact h
  | @call i c t t' g' hi ht =>
    have hmem := List.mem_of_getElem? hi
    rcases gatewayCall_cases ht with ⟨f, f', rfl, rfl, hf⟩ | ⟨b, b', rfl, rfl, -, hbreakers⟩
    · -- another call, or this one
      have hcases : ∀ u id, .infer u ∈ p.calls.set i (.infer f') → u.LetThrough id →
          (∃ v, .infer v ∈ p.calls ∧ v.LetThrough id) ∨ f'.LetThrough id := by
        intro u id hu hid
        rcases List.mem_or_eq_of_mem_set hu with hu | heq
        · exact Or.inl ⟨u, hu, hid⟩
        · cases heq
          exact Or.inr hid
      intro u id hu hid
      have hold : ∀ id, (∃ v, .infer v ∈ p.calls ∧ v.LetThrough id) →
          (p.shared.breakers.getOrCreate id).state ≠ .opened := fun id ⟨v, hv, hid⟩ => h v id hv hid
      cases step_circuit hf with
      | quiet hbreakers hleave =>
        rw [hbreakers]
        exact hold id ((hcases u id hu hid).elim (fun h => h) fun h => ⟨f, hmem, hleave id h⟩)
      | @records id' ok ops hpending hbreakers hleave =>
        have hlet := (hcases u id hu hid).elim (fun h => h) fun h => ⟨f, hmem, hleave id h⟩
        rw [hbreakers]
        by_cases hid' : id = id'
        · subst hid'
          rw [CircuitBreakerManager.getOrCreate_set]
          obtain ⟨v, hv, hv'⟩ := hlet
          exact fun hopened => huntripped i c f id rfl hi ⟨ok, ops, hpending, hopened⟩ v hv hv'
        · rw [CircuitBreakerManager.getOrCreate_set_of_ne hid']
          exact hold id hlet
      | asks id' hbreakers hleave =>
        rw [hbreakers]
        by_cases hid' : id = id'
        · subst hid'
          rw [CircuitBreakerManager.getOrCreate_set]
          exact CircuitBreaker.allowRequest_state ((hcases u id hu hid).elim
            (fun h => Or.inr (hold id h)) fun h => Or.inl (hleave id h).2)
        · rw [CircuitBreakerManager.getOrCreate_set_of_ne hid']
          exact hold id ((hcases u id hu hid).elim (fun h => h) fun h => absurd (hleave id h).1 hid')
    · intro u id hu hid
      rw [hbreakers]
      rcases List.mem_or_eq_of_mem_set hu with hu | heq
      · exact h u id hu hid
      · cases heq

theorem opened_of_race {r : Race} {id : String} (h : (id, .opened) ∈ r.events c) :
    ∃ x n, r.racer c.actor = some (x, n) ∧ x.thread = .reading := by
  unfold Race.events at h
  split at h
  · rename_i hracer
    exact ⟨_, _, hracer, rfl⟩
  · cases h

theorem not_opened_dropped {r : Race} {winnerId : ℕ} {id : String} :
    (id, .opened) ∉ r.dropped winnerId := by
  have hcancel : ∀ x : Racer, (id, .opened) ∉ x.cancel := by
    intro x hx
    unfold Racer.cancel at hx
    split_ifs at hx
    · cases List.mem_singleton.mp hx
    · cases hx
  unfold Race.dropped
  split_ifs
  · exact hcancel _
  · exact hcancel _
  · exact fun h => (List.mem_append.mp h).elim (hcancel _) (hcancel _)

/-- Streams are opened by calls that have been let through, and by `InferHedged`. -/
theorem letThrough_of_opened {id : String} (hhedged : ¬ f.OpensHedged c)
    (h : (id, .opened) ∈ f.events g c) : f.LetThrough id := by
  unfold InferCall.events at h
  split at h
  · cases List.mem_singleton.mp h
  · cases List.mem_singleton.mp h
  · cases h
  · rename_i hpending
    split at h
    · cases List.mem_singleton.mp h
    · rename_i s hstage
      simp only [List.mem_cons, Prod.mk.injEq, reduceCtorEq, and_false, and_true,
        List.not_mem_nil, or_false] at h
      exact ⟨s, hstage, h.symm⟩
    · rename_i t hstage
      refine absurd ⟨hpending, ?_⟩ hhedged
      cases t with
      | single s => exact Or.inl ⟨s, hstage⟩
      | waiting r =>
        obtain ⟨x, n, hracer, hthread⟩ := opened_of_race h
        exact Or.inr ⟨r, x, n, Or.inl hstage, hracer, hthread⟩
      | joining r winnerId =>
        simp only [HedgeStage.events] at h
        split_ifs at h
        · exact absurd h not_opened_dropped
        · obtain ⟨x, n, hracer, hthread⟩ := opened_of_race h
          exact Or.inr ⟨r, x, n, Or.inr ⟨winnerId, hstage⟩, hracer, hthread⟩
      | forwarding winnerId s firstToken => cases List.mem_singleton.mp h
      | _ => cases h
    · cases h

/-- When `InferHedged` opens a stream, that is the first thing it does about the replica. -/
theorem events_of_opensHedged (h : f.OpensHedged c) :
    (∀ op ∈ f.pending, op.isRecord = false) ∧ (∀ s, f.stage ≠ .infer (.streaming s)) ∧
      ∃ id rest, f.events g c = (id, .opened) :: rest := by
  obtain ⟨hpending, ⟨s, hstage⟩ | ⟨r, x, n, hstage, hracer, hthread⟩⟩ := h
  · refine ⟨by simp [hpending], by simp [hstage], s.replicaId,
      [(s.replicaId, .ended c.stream.fails)], ?_⟩
    unfold InferCall.events
    rw [hpending, hstage]
    rfl
  · have hmain : c.actor ≠ .main := by
      intro hmain
      rw [hmain] at hracer
      cases hracer
    have hevents : ∃ id rest, r.events c = (id, .opened) :: rest := by
      obtain ⟨selection, thread, firstToken⟩ := x
      cases hthread
      unfold Race.events
      rw [hracer]
      dsimp only
      split_ifs <;> exact ⟨_, _, rfl⟩
    rcases hstage with hstage | ⟨winnerId, hstage⟩
    · refine ⟨by simp [hpending], by simp [hstage], ?_⟩
      unfold InferCall.events
      rw [hpending, hstage]
      exact hevents
    · refine ⟨by simp [hpending], by simp [hstage], ?_⟩
      unfold InferCall.events
      rw [hpending, hstage]
      simp only [HedgeStage.events, if_neg hmain]
      exact hevents

/-- The call `i` follows the protocol with every replica, and is done with all when it returns. -/
def Disciplined (hash : List UInt8 → ℕ) (g : GatewayState) (es : List GatewayLabel)
    (p : GatewayPool) : Prop :=
  ∀ i f, p.calls[i]? = some (.infer f) → ∀ id, ∃ phase,
    Phase.after id (dispatchEvents hash g i es) = some phase ∧ (f.Finished → phase = .idle)

theorem after_append {id : String} {events new : List (String × DispatchEvent)} :
    Phase.after id (events ++ new) =
      (Phase.after id events).bind fun phase => (about id new).foldlM Phase.next phase := by
  rw [Phase.after, about, List.filter_append, List.map_append, List.foldlM_append]
  rfl

/-- In a run without streams of `InferHedged` every call is where the protocol has it. -/
theorem phase_of_run (hrun : Run (gatewayProgram hash).step ⟨g, []⟩ es p)
    (hunhedged : EveryStep (gatewayProgram hash).step ⟨g, []⟩ es fun _ p l => Unhedged p l) {i : ℕ}
    (hi : p.calls[i]? = some (.infer f)) :
    f.Orderly ∧ ∀ id, Phase.after id (dispatchEvents hash g i es) = some (f.phase id) := by
  refine Program.history_of_everyStep (J := fun _ _ => True)
    (K := fun _ t c => ∀ f, t = .infer f → ¬ f.OpensHedged c)
    (Q := fun events t => ∀ f, t = .infer f → f.Orderly ∧
      ∀ id, Phase.after id events = some (f.phase id)) (fun _ _ _ _ _ => trivial) ?_ ?_ hrun
    (hunhedged.mono ?_) hi f rfl
  · rintro (request | _) f heq
    · cases heq
      exact ⟨.calm (fun s hs => by cases hs) (fun s hs => by cases hs) rfl, fun id => rfl⟩
    · cases heq
  · intro g t c g' t' events _ hK hQ hs f₁ heq
    rcases gatewayCall_cases hs with ⟨f, f', rfl, rfl, hf⟩ | ⟨b, b', rfl, rfl, -⟩
    · cases heq
      obtain ⟨horderly, hphase⟩ := hQ f rfl
      obtain ⟨horderly', hstep⟩ := horderly.step (hK f rfl) hf
      refine ⟨horderly', fun id => ?_⟩
      rw [after_append, hphase, Option.bind_some]
      exact hstep id
    · cases heq
  · intro pre q l hq i c t hl hi f heq
    exact hq i c f hl (heq ▸ hi)

theorem phase_of_finished (h : f.Finished) (id : String) : f.phase id = .idle := by
  obtain ⟨hpending, status, hstage | hstage⟩ := h <;>
    rw [phase_of_no_report (by simp [hpending]), hstage] <;> rfl

/-- **The breaker protocol.** In every run in which `InferHedged` opens no stream and no circuit
opens for a replica that a call has been let through to, every call follows the protocol in every
state, and no stream is opened to a replica whose circuit is OPEN and in cooldown. If every call
follows the protocol throughout a run, then `InferHedged` opens no stream in it. -/
theorem disciplined_of_unhedged (hash : List UInt8 → ℕ) (g : GatewayState) (es : List GatewayLabel)
    (p : GatewayPool) (hrun : Run (gatewayProgram hash).step ⟨g, []⟩ es p) :
    (EveryStep (gatewayProgram hash).step ⟨g, []⟩ es (fun _ p l => Unhedged p l ∧ Untripped p l) →
      (Always (gatewayProgram hash).step ⟨g, []⟩ es fun es p => Disciplined hash g es p) ∧
      EveryStep (gatewayProgram hash).step ⟨g, []⟩ es fun _ p l =>
        ∀ id, Opens p l id → ¬ p.shared.Cooling id) ∧
    ((Always (gatewayProgram hash).step ⟨g, []⟩ es fun es p => Disciplined hash g es p) →
      EveryStep (gatewayProgram hash).step ⟨g, []⟩ es fun _ p l => Unhedged p l) := by
  constructor
  · intro hguarded
    have hunhedged := hguarded.mono fun _ _ _ h => h.1
    have hunopened : Always (gatewayProgram hash).step ⟨g, []⟩ es fun _ p => Unopened p :=
      always_of_everyStep hrun (fun f id hf => by cases hf)
        (fun pre q l q' _ h hC hs => unopened_step h hC.2 hs) hguarded
    refine ⟨fun pre q hpre hq i f hi id => ?_, ?_⟩
    · obtain ⟨-, hphase⟩ := phase_of_run hq (hunhedged.of_prefix hpre) hi
      exact ⟨f.phase id, hphase id, fun hfinished => phase_of_finished hfinished id⟩
    · rintro pre l q hpre hq id ⟨i, c, f, rfl, hi, hopened⟩ ⟨hstate, -⟩
      have hlet := letThrough_of_opened (hunhedged pre _ q hpre hq i c f rfl hi) hopened
      have hpre' : pre <+: es := (List.prefix_append _ _).trans hpre
      exact hunopened pre q hpre' hq f id (List.mem_of_getElem? hi) hlet hstate
  · intro halways
    induction hrun with
    | nil => exact everyStep_nil
    | @snoc es l q q' hq hs ih =>
      obtain ⟨hbefore, hlast⟩ := (always_snoc (hq.snoc hs)).mp halways
      have hunhedged := ih hbefore
      refine (everyStep_snoc hq).mpr ⟨hunhedged, ?_⟩
      rintro i c f rfl hi hopens
      obtain ⟨hreport, hnot, id, rest, hevents⟩ := @events_of_opensHedged q.shared c f hopens
      obtain ⟨-, hphase⟩ := phase_of_run hq hunhedged hi
      have hidle : f.phase id = .idle :=
        (phase_of_no_report hreport id).trans (stage_phase_idle hnot id)
      have hsnoc : dispatchEvents hash g i (es ++ [.call i c]) =
          dispatchEvents hash g i es ++ f.events q.shared c := by
        refine (Program.history_snoc hq).trans ?_
        rw [Program.outputOf, if_pos rfl, hi]
        rfl
      have hopened : about id ((id, .opened) :: rest) = .opened :: about id rest := by
        simp [about]
      cases Program.step_cases hs with
      | @call _ _ t t' g' hi' ht =>
        rw [hi] at hi'
        cases hi'
        rcases gatewayCall_cases ht with ⟨f₁, f', heq, rfl, -⟩ | ⟨b, b', heq, -⟩
        · have hlt := (List.getElem?_eq_some_iff.mp hi).1
          obtain ⟨phase, hafter, -⟩ := hlast i f' (List.getElem?_set_self hlt) id
          rw [hsnoc, after_append, hphase, Option.bind_some, hidle, hevents, hopened] at hafter
          cases hafter
        · cases heq

end

/-- A test of the two conditions for a run without hedged calls. -/
def guarded (p : GatewayPool) : GatewayLabel → Bool
  | .call i _ =>
    match p.calls[i]? with
    | some (.infer f) =>
      (match f.stage with
        | .hedged _ => false
        | _ => true) &&
      match f.pending with
      | .recordSuccess id :: _ =>
        ((p.shared.breakers.getOrCreate id).record p.shared.now true).state ≠ .opened
      | .recordFailure id :: _ =>
        ((p.shared.breakers.getOrCreate id).record p.shared.now false).state ≠ .opened
      | _ => true
    | _ => true
  | _ => true

theorem guarded_sound {p : GatewayPool} {l : GatewayLabel} (h : guarded p l = true) :
    Unhedged p l ∧ Untripped p l := by
  have hcall : ∀ i c f, l = .call i c → p.calls[i]? = some (.infer f) →
      (∀ t, f.stage ≠ .hedged t) ∧ ∀ id, ¬ f.Trips p.shared id := by
    rintro i c f rfl hi
    simp only [guarded, hi, Bool.and_eq_true] at h
    refine ⟨fun t ht => ?_, ?_⟩
    · rw [ht] at h
      exact Bool.false_ne_true h.1
    · rintro id ⟨ok, ops, hpending, hopened⟩
      rw [hpending] at h
      cases ok <;> simp_all
  constructor
  · rintro i c f hl hi ⟨-, ⟨s, hs⟩ | ⟨r, x, n, hs | ⟨winnerId, hs⟩, -⟩⟩ <;>
      exact (hcall i c f hl hi).1 _ hs
  · exact fun i c f id hl hi htrips _ _ _ => (hcall i c f hl hi).2 id htrips

/-- The first replica fails at once, and the second one serves the request. -/
theorem disciplined_of_unhedged_failover :
    let es := twoReplicas ++ attemptWith [1] ⟨[], false⟩ ++ attemptWith [] wholeStream
    let g := (newGateway 150 {} 100).shared
    ∃ p, Run (gatewayProgram fun _ => 0).step ⟨g, []⟩ es p ∧
      (Always (gatewayProgram fun _ => 0).step ⟨g, []⟩ es
        fun es p => Disciplined (fun _ => 0) g es p) ∧
      about "replica-1" (dispatchEvents (fun _ => 0) g 0 es) =
        [.asked true, .opened, .ended true, .recorded false] := by
  intro es g
  have hrun : Run (gatewayProgram fun _ => 0).step ⟨g, []⟩ es _ := run_get (by decide +kernel)
  have hcheck : checkSteps (gatewayProgram fun _ => 0).step guarded ⟨g, []⟩ es = true := by
    decide +kernel
  refine ⟨_, hrun, ((disciplined_of_unhedged _ g es _ hrun).1 ?_).1, by decide +kernel⟩
  exact fun pre l p hpre hp => guarded_sound (everyStep_of_check hcheck pre l p hpre hp)

/-- Neither thread reads a token, and the race runs into its timeout. -/
def bothFail : List GatewayLabel :=
  [.call 0 { actor := .first, stream := ⟨[], false⟩ },
    .call 0 { actor := .second, stream := ⟨[], false⟩ }, .env (.tick 10000000000)] ++
  List.replicate 6 (.call 0 {})

/-- Both streams of a hedged call fail. Nobody was asked, and no failure is recorded. -/
theorem not_disciplined_bothFail :
    let es := hedgedStart ++ bothFail
    let g := (newGateway 150 {} 100).shared
    ∃ p f, Run (gatewayProgram fun _ => 0).step ⟨g, []⟩ es p ∧ p.calls[0]? = some (.infer f) ∧
      f.Finished ∧
      about "replica-1" (dispatchEvents (fun _ => 0) g 0 es) = [.opened, .ended true] ∧
      ¬ Disciplined (fun _ => 0) g es p := by
  intro es g
  have hrun : Run (gatewayProgram fun _ => 0).step ⟨g, []⟩ es _ := run_get (by decide +kernel)
  have hevents : about "replica-1" (dispatchEvents (fun _ => 0) g 0 es) =
      [.opened, .ended true] := by decide +kernel
  have hcalls : ((exec (gatewayProgram fun _ => 0).step ⟨g, []⟩ es).get
      (by decide +kernel)).calls = [.infer
        { request := ⟨"client", "hello", 1, true⟩,
          stage := .hedged (.returned ⟨.unavailable, "both hedged replicas failed"⟩) }] := by
    decide +kernel
  refine ⟨_, _, hrun, by rw [hcalls]; rfl, ⟨rfl, _, Or.inr rfl⟩, hevents, fun h => ?_⟩
  obtain ⟨phase, hphase, -⟩ := h 0 _ (by rw [hcalls]; rfl) "replica-1"
  rw [Phase.after, hevents] at hphase
  cases hphase

end LlmGateway.Gateway
