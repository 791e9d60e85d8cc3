import LlmGateway.Gateway.PartialDelivery
import LlmGateway.Gateway.StrandedWaiter

/-!
# The order of arrival

The tickets of the queue release its waiters in the order they came. `Infer` looks at the queue only
after its own `SelectReplica` has found nothing, and a released call selects again beside all the
others; so a call can be overtaken by one that came later.

1. `Precedes`: which call came before which, by the history of the run.
2. `selected_step`, `blocked_from`, `released_from`: how a call comes by a replica, by a ticket and
   out of the queue.
3. `Ordered`: tickets are in the order of arrival, and calls are released in that order.
4. `in_arrival_order`: if no selection passes over a call that came before, then no dispatch does.
-/

namespace LlmGateway.Gateway

open Gossip Replica Transition

/-! ## Who came before whom -/

/-- The call `i` is in the wait of the queue with this ticket. -/
def WaitsWith (p : GatewayPool) (i number : ℕ) : Prop := ∃ f t, Blocked p i f t ∧ t.number = number

/-- The call has entered `Infer` and has not come to the wait of the queue yet. -/
def Arriving (p : GatewayPool) (j : ℕ) : Prop :=
  ∃ f, p.calls[j]? = some (.infer f) ∧ f.attempt = 0 ∧
    (f.stage = .entered ∨ f.stage = .infer .looping ∨ (∃ s, f.stage = .infer (.selecting s)) ∨
      f.stage = .infer .queueing)

/-- The call is in the wait of the queue in its first iteration. -/
def FirstWait (p : GatewayPool) (j : ℕ) : Prop :=
  ∃ f t, Blocked p j f t ∧ f.attempt = 0 ∧ f.streams = []

/-- The call has been dispatched to a replica. -/
def InferCall.Dispatched (f : InferCall) : Prop := f.stage.dispatched ≠ [] ∨ f.streams ≠ []

/-- The call has selected a replica, whatever has become of it. -/
def InferCall.Selected (f : InferCall) : Prop := f.stage.replicas ≠ [] ∨ f.streams ≠ []

/-- The call, one of `Infer`, has been dispatched or has returned. -/
def InferCall.Cleared (f : InferCall) : Prop :=
  ∃ s, f.stage = .infer s ∧
    (f.streams ≠ [] ∨ (∃ selection, s = .streaming selection) ∨ ∃ status, s = .returned status)

def Cleared (p : GatewayPool) (i : ℕ) : Prop := ∃ f, p.calls[i]? = some (.infer f) ∧ f.Cleared

section

variable (hash : List UInt8 → ℕ) (s₀ : GatewayPool)

/-- In the run `es` the call `i` waited with this ticket. -/
def Waited (es : List GatewayLabel) (i number : ℕ) : Prop :=
  ∃ pre q, pre <+: es ∧ Run (gatewayProgram hash).step s₀ pre q ∧ WaitsWith q i number

/-- In the run `es` the call `i` was in the wait of the queue, with this ticket, when the call `j`
entered `Infer`, or when `j` had not come to the queue yet, in which it then had to wait too. -/
def Precedes (es : List GatewayLabel) (i number j : ℕ) : Prop :=
  ∃ pre q, Run (gatewayProgram hash).step s₀ pre q ∧ WaitsWith q i number ∧
    ((∃ x, pre ++ [.spawn x] <+: es ∧ q.calls.length = j) ∨
      Arriving q j ∧ ∃ pre' q', pre <+: pre' ∧ pre' <+: es ∧
        Run (gatewayProgram hash).step s₀ pre' q' ∧ FirstWait q' j)

/-- No call has been dispatched to a replica before one that came before it. -/
def InArrivalOrder (es : List GatewayLabel) (p : GatewayPool) : Prop :=
  ∀ i number j f, Precedes hash s₀ es i number j → p.calls[j]? = some (.infer f) → f.Dispatched →
    Cleared p i

/-- The first `SelectReplica` of an iteration, or that of `InferHedged`, finds a replica. -/
def SelectsDirectly (g : GatewayState) (c : InferChoice) (f : InferCall) : Prop :=
  ∃ s lb selection,
    f.stage = .infer (.selecting s) ∧
      s.step hash g.registry g.lb f.request.prompt f.excluded c.draws =
        some (lb, .selected (some selection)) ∨
    f.stage = .hedged (.selecting s) ∧
      s.step hash g.registry g.lb f.request.prompt [] c.draws =
        some (lb, .selected (some selection))

/-- The `SelectReplica` after the queue finds a replica. -/
def SelectsReleased (g : GatewayState) (c : InferChoice) (f : InferCall) : Prop :=
  ∃ s lb selection, f.stage = .infer (.reselecting s) ∧
    s.step hash g.registry g.lb f.request.prompt f.excluded c.draws =
      some (lb, .selected (some selection))

/-- A step that passes over nobody: no call selects a replica without having waited while one that
came before it is neither dispatched nor returned; no released call selects one while such a call
has been released too; and the counters of the queue do not go round. -/
structure InTurn (es : List GatewayLabel) (p : GatewayPool) (l : GatewayLabel) : Prop where
  direct : ∀ j c f, l = .call j c → p.calls[j]? = some (.infer f) → f.pending = [] →
    SelectsDirectly hash p.shared c f → ∀ i number, Precedes hash s₀ es i number j → Cleared p i
  released : ∀ j c f, l = .call j c → p.calls[j]? = some (.infer f) → f.pending = [] →
    SelectsReleased hash p.shared c f → ∀ i number, Precedes hash s₀ es i number j →
    Cleared p i ∨ WaitsWith p i number ∧ p.shared.queue.servingTicket ≤ number
  counters : ∀ j c f, l = .call j c → p.calls[j]? = some (.infer f) →
    (f.pending.head? = some .notifyCapacityAvailable →
      p.shared.queue.servingTicket + 1 < 2 ^ 64) ∧
    (f.pending = [] → f.stage = .infer .queueing → p.shared.queue.nextTicket + 1 < 2 ^ 64)

end

variable {hash : List UInt8 → ℕ} {g g' : GatewayState} {c : InferChoice} {f f' : InferCall}

/-! ## One step of a call -/

theorem selected_step (hs : f.step hash g c = some (g', f')) (h : f'.Selected) :
    f.Selected ∨
      f.pending = [] ∧ (SelectsDirectly hash g c f ∨ SelectsReleased hash g c f) := by
  have hstreams : f'.streams = f.streams → f'.stage.replicas = [] → f.Selected := by
    intro hsame hnone
    rw [InferCall.Selected, hsame] at h
    exact Or.inr (h.resolve_left (not_not.mpr hnone))
  cases stepMove hs with
  | pending => exact Or.inl h
  | enter | enterHedged => exact Or.inl (hstreams rfl rfl)
  | infer hpending hmove =>
    cases hmove with
    | @choose s lb selection hstage hselect =>
      exact Or.inr ⟨hpending, Or.inl ⟨s, lb, selection, Or.inl ⟨hstage, hselect⟩⟩⟩
    | @rechoose s lb selection hstage hselect =>
      exact Or.inr ⟨hpending, Or.inr ⟨s, lb, selection, hstage, hselect⟩⟩
    | allow hstage | refuse hstage | stream hstage =>
      exact Or.inl (Or.inl (by simp [hstage, Stage.replicas, Stage.dispatched, Stage.selected]))
    | _ => exact Or.inl (hstreams rfl rfl)
  | @hedged s _ _ hpending hstage hhedge =>
    cases s with
    | selecting s =>
      obtain ⟨⟨lb, next⟩, hselect, heq⟩ := Option.map_eq_some_iff.mp hhedge
      rcases next with s' | _ | selection <;> cases heq
      · exact Or.inl (hstreams rfl rfl)
      · exact Or.inl (hstreams rfl rfl)
      · exact Or.inr ⟨hpending, Or.inl ⟨s, lb, selection, Or.inr ⟨hstage, hselect⟩⟩⟩
    | returned status => cases hhedge
    | _ =>
      exact Or.inl (Or.inl (by simp [hstage, Stage.replicas, Stage.dispatched, Stage.selected]))

/-- A call that is blocked was blocked before, or has just taken the next ticket. -/
theorem blocked_from {t : Ticket} (hs : f.step hash g c = some (g', f'))
    (hstage : f'.stage = .infer (.blocked t)) :
    f.stage = .infer (.blocked t) ∧ f'.attempt = f.attempt ∧ f'.streams = f.streams ∨
      f.pending = [] ∧ f.stage = .infer .queueing ∧ t.number = g.queue.nextTicket ∧
        g'.queue.nextTicket = (g.queue.nextTicket + 1) % 2 ^ 64 := by
  cases stepMove hs with
  | pending => exact Or.inl ⟨hstage, rfl, rfl⟩
  | enter | enterHedged => cases hstage
  | hedged _ _ hhedge =>
    obtain ⟨⟨s', hs'⟩, -⟩ := InferCall.hedgeStep_effect hhedge
    cases hs'.symm.trans hstage
  | infer hpending hmove =>
    cases hmove with
    | block hqueueing =>
      cases hstage
      exact Or.inr ⟨hpending, hqueueing, rfl, rfl⟩
    | stream =>
      rcases stage_streamed f _ _ _ _ with hstage' | hstage' <;>
        cases hstage'.symm.trans hstage
    | _ => cases hstage

/-- A call that selects after the queue did so before, or has been released by its ticket, or has
found the next ticket served already. -/
theorem released_from {s : SelectStage} (hs : f.step hash g c = some (g', f'))
    (hstage : f'.stage = .infer (.reselecting s)) :
    (∃ s, f.stage = .infer (.reselecting s)) ∨
      (∃ t, f.stage = .infer (.blocked t) ∧ t.number < g.queue.servingTicket) ∨
      f.stage = .infer .queueing ∧ g.queue.nextTicket < g.queue.servingTicket := by
  cases stepMove hs with
  | pending => exact Or.inl ⟨s, hstage⟩
  | enter | enterHedged => cases hstage
  | hedged _ _ hhedge =>
    obtain ⟨⟨s', hs'⟩, -⟩ := InferCall.hedgeStep_effect hhedge
    cases hs'.symm.trans hstage
  | infer hpending hmove =>
    cases hmove with
    | serve hblocked hserved => exact Or.inr (Or.inl ⟨_, hblocked, hserved⟩)
    | pass hqueueing _ hserved => exact Or.inr (Or.inr ⟨hqueueing, hserved⟩)
    | rescan hbefore _ => exact Or.inl ⟨_, hbefore⟩
    | stream =>
      rcases stage_streamed f _ _ _ _ with hstage' | hstage' <;>
        cases hstage'.symm.trans hstage
    | _ => cases hstage

theorem InferCall.Cleared.step (h : f.Cleared) (hs : f.step hash g c = some (g', f')) :
    f'.Cleared := by
  obtain ⟨s, hstage, hcleared⟩ := h
  cases stepMove hs with
  | pending => exact ⟨s, hstage, hcleared⟩
  | enter _ hentered | enterHedged _ hentered => cases hentered.symm.trans hstage
  | hedged _ hhedged => cases hhedged.symm.trans hstage
  | infer hpending hmove =>
    cases hmove with
    | @stream selection =>
      obtain ⟨-, -, hstreams, -⟩ := InferCall.streamed_fields f selection c.stream
        (streamFromReplica selection.replicaId c.stream).1
        (streamFromReplica selection.replicaId c.stream).2
      have hsome : (f.streamed selection c.stream
          (streamFromReplica selection.replicaId c.stream).1
          (streamFromReplica selection.replicaId c.stream).2).streams ≠ [] := by
        rw [hstreams]
        simp
      rcases stage_streamed f selection c.stream _ _ with hstage' | hstage'
      · exact ⟨_, hstage', Or.inl hsome⟩
      · exact ⟨_, hstage', Or.inl hsome⟩
    | cancel h₀ | select h₀ | leave h₀ | scan h₀ | starve h₀ | choose h₀ | reject h₀ | pass h₀
    | block h₀ | serve h₀ | giveUp h₀ | rescan h₀ | retry h₀ | rechoose h₀ | allow h₀ | refuse h₀ =>
      -- from these stages a call that is cleared has had a stream
      obtain rfl := Stage.infer.inj (h₀.symm.trans hstage)
      exact ⟨_, rfl, Or.inl (hcleared.resolve_right (by simp))⟩

theorem counters_step (hs : f.step hash g c = some (g', f'))
    (hserving : f.pending.head? = some .notifyCapacityAvailable →
      g.queue.servingTicket + 1 < 2 ^ 64)
    (hnext : f.pending = [] → f.stage = .infer .queueing → g.queue.nextTicket + 1 < 2 ^ 64) :
    g.queue.nextTicket ≤ g'.queue.nextTicket ∧ g.queue.servingTicket ≤ g'.queue.servingTicket := by
  cases stepMove hs with
  | @pending op ops hpending =>
    cases op with
    | notifyCapacityAvailable =>
      have hlt := hserving (by rw [hpending]; rfl)
      show g.queue.nextTicket ≤ g.queue.nextTicket ∧
        g.queue.servingTicket ≤ (g.queue.servingTicket + 1) % 2 ^ 64
      omega
    | _ => exact ⟨le_rfl, le_rfl⟩
  | enter | enterHedged => exact ⟨le_rfl, le_rfl⟩
  | hedged _ _ hhedge =>
    obtain ⟨-, -, -, hqueue⟩ := InferCall.hedgeStep_effect hhedge
    rw [hqueue]
    exact ⟨le_rfl, le_rfl⟩
  | infer hpending hmove =>
    cases hmove with
    | pass hqueueing | block hqueueing =>
      have hlt := hnext hpending hqueueing
      show g.queue.nextTicket ≤ (g.queue.nextTicket + 1) % 2 ^ 64 ∧
        g.queue.servingTicket ≤ g.queue.servingTicket
      omega
    | _ => exact ⟨le_rfl, le_rfl⟩

theorem entered_from (hs : f.step hash g c = some (g', f')) (hstage : f'.stage = .entered) :
    f.stage = .entered := by
  cases stepMove hs with
  | pending => exact hstage
  | enter | enterHedged => cases hstage
  | hedged _ _ hhedge =>
    obtain ⟨⟨s', hs'⟩, -⟩ := InferCall.hedgeStep_effect hhedge
    cases hs'.symm.trans hstage
  | infer hpending hmove =>
    cases hmove with
    | stream =>
      rcases stage_streamed f _ _ _ _ with hstage' | hstage' <;>
        cases hstage'.symm.trans hstage
    | _ => cases hstage

/-! ## One step of the gateway -/

section

variable {s₀ p p' : GatewayPool} {es : List GatewayLabel} {l : GatewayLabel} {i j k number : ℕ}

/-- Where a call was before a step: where it is now, not yet there, or a step of its own away. -/
theorem call_before (hs : (gatewayProgram hash).step p l = some p')
    (hk : p'.calls[k]? = some (.infer f')) :
    p.calls[k]? = some (.infer f') ∨
      (p.calls.length = k ∧ f'.stage = .entered ∧ f'.streams = []) ∨
      ∃ c f, l = .call k c ∧ p.calls[k]? = some (.infer f) ∧
        f.step hash p.shared c = some (p'.shared, f') := by
  rcases gatewayStep_cases hs with ⟨x, rfl⟩ | ⟨e, rfl, rfl⟩ |
    ⟨i, c, b, b', g', rfl, hi, -, -, rfl⟩ | ⟨i, c, f, f', g', rfl, hi, hstep, rfl⟩
  · rcases lt_or_ge k p.calls.length with hlt | hge
    · exact Or.inl ((List.getElem?_append_left hlt).symm.trans hk)
    · rw [List.getElem?_append_right hge, List.getElem?_singleton] at hk
      split_ifs at hk with hzero
      cases x with
      | infer request =>
        cases hk
        exact Or.inr (Or.inl ⟨by omega, rfl, rfl⟩)
      | rebuildRing => cases hk
  · exact Or.inl hk
  · rw [Program.getElem?_set hi] at hk
    split_ifs at hk
    · cases hk
    · exact Or.inl hk
  · rw [Program.getElem?_set hi] at hk
    split_ifs at hk with hki
    · subst hki
      cases hk
      exact Or.inr (Or.inr ⟨c, f, rfl, hi, hstep⟩)
    · exact Or.inl hk

theorem call_after (hs : (gatewayProgram hash).step p l = some p')
    (hk : p.calls[k]? = some (.infer f)) :
    ∃ f', p'.calls[k]? = some (.infer f') ∧
      (f' = f ∨ ∃ c, l = .call k c ∧ f.step hash p.shared c = some (p'.shared, f')) := by
  have hlt := (List.getElem?_eq_some_iff.mp hk).1
  rcases gatewayStep_cases hs with ⟨x, rfl⟩ | ⟨e, rfl, rfl⟩ |
    ⟨i, c, b, b', g', rfl, hi, -, -, rfl⟩ | ⟨i, c, f₁, f', g', rfl, hi, hstep, rfl⟩
  · exact ⟨f, (List.getElem?_append_left hlt).trans hk, Or.inl rfl⟩
  · exact ⟨f, hk, Or.inl rfl⟩
  · have hki : k ≠ i := by
      rintro rfl
      rw [hi] at hk
      cases hk
    exact ⟨f, by rwa [Program.getElem?_set hi, if_neg hki], Or.inl rfl⟩
  · by_cases hki : k = i
    · subst hki
      rw [hi] at hk
      cases hk
      exact ⟨f', by rw [Program.getElem?_set hi, if_pos rfl], Or.inr ⟨c, rfl, hstep⟩⟩
    · exact ⟨f, by rwa [Program.getElem?_set hi, if_neg hki], Or.inl rfl⟩

theorem Cleared.step (h : Cleared p i) (hs : (gatewayProgram hash).step p l = some p') :
    Cleared p' i := by
  obtain ⟨f, hi, hcleared⟩ := h
  obtain ⟨f', hi', rfl | ⟨c, rfl, hstep⟩⟩ := call_after hs hi
  · exact ⟨f', hi', hcleared⟩
  · exact ⟨f', hi', hcleared.step hstep⟩

theorem InTurn.queue (h : InTurn hash s₀ es p l) (hs : (gatewayProgram hash).step p l = some p') :
    p.shared.queue.nextTicket ≤ p'.shared.queue.nextTicket ∧
      p.shared.queue.servingTicket ≤ p'.shared.queue.servingTicket := by
  rcases gatewayStep_cases hs with ⟨x, rfl⟩ | ⟨e, rfl, rfl⟩ |
    ⟨i, c, b, b', g', rfl, hi, -, hqueue, rfl⟩ | ⟨i, c, f, f', g', rfl, hi, hstep, rfl⟩
  · exact ⟨le_rfl, le_rfl⟩
  · have hqueue : (e.apply p.shared).queue = p.shared.queue := by cases e <;> rfl
    rw [hqueue]
    exact ⟨le_rfl, le_rfl⟩
  · rw [hqueue]
    exact ⟨le_rfl, le_rfl⟩
  · obtain ⟨hserving, hnext⟩ := h.counters i c f rfl hi
    exact counters_step hstep hserving hnext

/-! ## Who came before whom, step by step -/

theorem Waited.entered (hrun : Run (gatewayProgram hash).step s₀ es p)
    (h : Waited hash s₀ es i number) : ∃ f, p.calls[i]? = some (.infer f) ∧ f.stage ≠ .entered := by
  have hnow : ∀ {q : GatewayPool}, WaitsWith q i number →
      ∃ f, q.calls[i]? = some (.infer f) ∧ f.stage ≠ .entered := by
    rintro q ⟨f, t, ⟨hi, hstage⟩, -⟩
    exact ⟨f, hi, by simp [hstage]⟩
  induction hrun with
  | nil =>
    obtain ⟨pre, q, hpre, hq, hwaits⟩ := h
    obtain rfl := List.prefix_nil.mp hpre
    obtain rfl := Run.deterministic .nil hq
    exact hnow hwaits
  | snoc hrun hs ih =>
    obtain ⟨pre, q, hpre, hq, hwaits⟩ := h
    rcases List.prefix_concat_iff.mp hpre with rfl | hpre
    · obtain rfl := hq.deterministic (hrun.snoc hs)
      exact hnow hwaits
    · obtain ⟨f, hi, hstage⟩ := ih ⟨pre, q, hpre, hq, hwaits⟩
      obtain ⟨f', hi', rfl | ⟨c, rfl, hstep⟩⟩ := call_after hs hi
      · exact ⟨f', hi', hstage⟩
      · exact ⟨f', hi', fun hentered => hstage (entered_from hstep hentered)⟩

theorem Precedes.waited (h : Precedes hash s₀ es i number j) : Waited hash s₀ es i number := by
  obtain ⟨pre, q, hq, hwaits, ⟨x, hpre, -⟩ | ⟨-, pre', q', hpre, hpre', -⟩⟩ := h
  · exact ⟨pre, q, (List.prefix_append _ _).trans hpre, hq, hwaits⟩
  · exact ⟨pre, q, hpre.trans hpre', hq, hwaits⟩

theorem FirstWait.not_arriving (h : FirstWait p j) : ¬ Arriving p j := by
  obtain ⟨f, t, ⟨hj, hstage⟩, -⟩ := h
  rintro ⟨f', hj', -, harriving⟩
  rw [hj] at hj'
  cases hj'
  simp [hstage] at harriving

/-- What the last step adds to the order: a new call comes after those that are waiting, and a call
that begins to wait comes after those that have waited. -/
theorem precedes_snoc (hrun : Run (gatewayProgram hash).step s₀ es p)
    (hs : (gatewayProgram hash).step p l = some p')
    (h : Precedes hash s₀ (es ++ [l]) i number j) :
    Precedes hash s₀ es i number j ∨ ((∃ x, l = .spawn x) ∧ p.calls.length = j) ∨
      Waited hash s₀ es i number ∧ FirstWait p' j ∧ ¬ FirstWait p j := by
  obtain ⟨pre, q, hq, hwaits, ⟨x, hpre, hlength⟩ |
    ⟨harriving, pre', q', hpre, hpre', hq', hfirst⟩⟩ := h
  · rcases List.prefix_concat_iff.mp hpre with heq | hpre
    · obtain ⟨rfl, hlabel⟩ := List.append_inj' heq rfl
      obtain rfl := hq.deterministic hrun
      exact Or.inr (Or.inl ⟨⟨x, (List.cons.inj hlabel).1.symm⟩, hlength⟩)
    · exact Or.inl ⟨pre, q, hq, hwaits, Or.inl ⟨x, hpre, hlength⟩⟩
  · rcases List.prefix_concat_iff.mp hpre' with rfl | hpre'
    · obtain rfl := hq'.deterministic (hrun.snoc hs)
      rcases List.prefix_concat_iff.mp hpre with rfl | hpre
      · obtain rfl := hq.deterministic hq'
        exact absurd harriving hfirst.not_arriving
      · by_cases hbefore : FirstWait p j
        · exact Or.inl ⟨pre, q, hq, hwaits,
            Or.inr ⟨harriving, es, p, hpre, List.prefix_refl _, hrun, hbefore⟩⟩
        · exact Or.inr (Or.inr ⟨⟨pre, q, hpre, hq, hwaits⟩, hfirst, hbefore⟩)
    · exact Or.inl ⟨pre, q, hq, hwaits, Or.inr ⟨harriving, pre', q', hpre, hpre', hq', hfirst⟩⟩

/-! ## Every run -/

/-- Tickets are taken in the order of arrival, and calls are released in that order; and a call that
has selected a replica came after none that is still waiting for one. -/
structure Ordered (hash : List UInt8 → ℕ) (s₀ : GatewayPool) (es : List GatewayLabel)
    (p : GatewayPool) : Prop where
  waiting : ∀ i f t, Blocked p i f t → t.number < p.shared.queue.nextTicket
  waited : ∀ i number, Waited hash s₀ es i number → number < p.shared.queue.nextTicket
  blocked : ∀ i number j f t, Precedes hash s₀ es i number j → Blocked p j f t → number < t.number
  released : ∀ i number j f s, Precedes hash s₀ es i number j → p.calls[j]? = some (.infer f) →
    f.stage = .infer (.reselecting s) → number < p.shared.queue.servingTicket
  selected : ∀ i number j f, Precedes hash s₀ es i number j → p.calls[j]? = some (.infer f) →
    f.Selected → Cleared p i

/-- The call that has just begun its first wait has the next ticket. -/
theorem firstWait_from (hs : (gatewayProgram hash).step p l = some p') {t : Ticket}
    (hfirst : FirstWait p' j) (hbefore : ¬ FirstWait p j) (hj : Blocked p' j f' t) :
    t.number = p.shared.queue.nextTicket := by
  obtain ⟨f, t', ⟨hj', hstage'⟩, hattempt, hstreams⟩ := hfirst
  obtain ⟨hj, hstage⟩ := hj
  rw [hj] at hj'
  cases hj'
  rcases call_before hs hj with hold | ⟨-, hentered, -⟩ | ⟨c, f, rfl, hold, hstep⟩
  · exact absurd ⟨f', t, ⟨hold, hstage⟩, hattempt, hstreams⟩ hbefore
  · cases hentered.symm.trans hstage
  · rcases blocked_from hstep hstage with ⟨hstage₀, hsame, hsame'⟩ | ⟨-, -, hnumber, -⟩
    · exact absurd ⟨f, t, ⟨hold, hstage₀⟩, hsame ▸ hattempt, hsame' ▸ hstreams⟩ hbefore
    · exact hnumber

theorem entered_of_spawn (hs : (gatewayProgram hash).step p l = some p') {x : GatewayRequest}
    (hl : l = .spawn x) (hlength : p.calls.length = j) (hj : p'.calls[j]? = some (.infer f')) :
    f'.stage = .entered ∧ f'.streams = [] := by
  rcases call_before hs hj with hold | ⟨-, hnew⟩ | ⟨c, f, hcall, -⟩
  · have hlt := (List.getElem?_eq_some_iff.mp hold).1
    omega
  · exact hnew
  · rw [hl] at hcall
    cases hcall

/-- **One step** in turn keeps the order. -/
theorem Ordered.step (h : Ordered hash s₀ es p) (hrun : Run (gatewayProgram hash).step s₀ es p)
    (hl : InTurn hash s₀ es p l) (hs : (gatewayProgram hash).step p l = some p') :
    Ordered hash s₀ (es ++ [l]) p' := by
  obtain ⟨hnext, hserving⟩ := hl.queue hs
  have hwaiting : ∀ i f t, Blocked p' i f t → t.number < p'.shared.queue.nextTicket := by
    rintro k f' t ⟨hk, hstage⟩
    rcases call_before hs hk with hold | ⟨-, hentered, -⟩ | ⟨c, f, rfl, hold, hstep⟩
    · exact (h.waiting k f' t ⟨hold, hstage⟩).trans_le hnext
    · cases hentered.symm.trans hstage
    · rcases blocked_from hstep hstage with ⟨hstage₀, -⟩ | ⟨hpending, hqueueing, hnumber, htaken⟩
      · exact (h.waiting k f t ⟨hold, hstage₀⟩).trans_le hnext
      · have hlt := (hl.counters k c f rfl hold).2 hpending hqueueing
        rw [htaken, hnumber, Nat.mod_eq_of_lt hlt]
        exact Nat.lt_succ_self _
  refine ⟨hwaiting, ?_, ?_, ?_, ?_⟩
  · rintro i number ⟨pre, q, hpre, hq, hwaits⟩
    rcases List.prefix_concat_iff.mp hpre with rfl | hpre
    · obtain rfl := hq.deterministic (hrun.snoc hs)
      obtain ⟨f, t, hblocked, rfl⟩ := hwaits
      exact hwaiting i f t hblocked
    · exact (h.waited i number ⟨pre, q, hpre, hq, hwaits⟩).trans_le hnext
  · rintro i number j f' t hafter hblocked
    have hlt := (h.waited i number)
    obtain ⟨hj, hstage⟩ := hblocked
    rcases precedes_snoc hrun hs hafter with hprecedes | ⟨⟨x, hspawn⟩, hlength⟩ |
      ⟨hwaited, hfirst, hbefore⟩
    · rcases call_before hs hj with hold | ⟨-, hentered, -⟩ | ⟨c, f, rfl, hold, hstep⟩
      · exact h.blocked i number j f' t hprecedes ⟨hold, hstage⟩
      · cases hentered.symm.trans hstage
      · rcases blocked_from hstep hstage with ⟨hstage₀, -⟩ | ⟨-, -, hnumber, -⟩
        · exact h.blocked i number j f t hprecedes ⟨hold, hstage₀⟩
        · rw [hnumber]
          exact hlt hprecedes.waited
    · cases (entered_of_spawn hs hspawn hlength hj).1.symm.trans hstage
    · rw [firstWait_from hs hfirst hbefore ⟨hj, hstage⟩]
      exact hlt hwaited
  · rintro i number j f' s hafter hj hstage
    rcases precedes_snoc hrun hs hafter with hprecedes | ⟨⟨x, hspawn⟩, hlength⟩ |
      ⟨-, hfirst, -⟩
    · rcases call_before hs hj with hold | ⟨-, hentered, -⟩ | ⟨c, f, rfl, hold, hstep⟩
      · exact (h.released i number j f' s hprecedes hold hstage).trans_le hserving
      · cases hentered.symm.trans hstage
      · -- released by its ticket, which was taken after that of the call `i`
        refine lt_of_lt_of_le ?_ hserving
        rcases released_from hstep hstage with ⟨s₁, hstage₀⟩ | ⟨t, hstage₀, hserved⟩ |
          ⟨-, hserved⟩
        · exact h.released i number j f s₁ hprecedes hold hstage₀
        · exact (h.blocked i number j f t hprecedes ⟨hold, hstage₀⟩).trans hserved
        · exact (h.waited i number hprecedes.waited).trans hserved
    · cases (entered_of_spawn hs hspawn hlength hj).1.symm.trans hstage
    · obtain ⟨f, t, ⟨hj', hstage'⟩, -⟩ := hfirst
      rw [hj] at hj'
      cases hj'
      cases hstage'.symm.trans hstage
  · rintro i number j f' hafter hj hselected
    rcases precedes_snoc hrun hs hafter with hprecedes | ⟨⟨x, hspawn⟩, hlength⟩ |
      ⟨-, hfirst, -⟩
    · refine Cleared.step ?_ hs
      rcases call_before hs hj with hold | ⟨-, hentered, hstreams⟩ | ⟨c, f, rfl, hold, hstep⟩
      · exact h.selected i number j f' hprecedes hold hselected
      · simp [InferCall.Selected, hentered, hstreams, Stage.replicas, Stage.dispatched,
          Stage.selected] at hselected
      · rcases selected_step hstep hselected with hbefore | ⟨hpending, hdirect | hreleased⟩
        · exact h.selected i number j f hprecedes hold hbefore
        · exact hl.direct j c f rfl hold hpending hdirect i number hprecedes
        · refine (hl.released j c f rfl hold hpending hreleased i number hprecedes).resolve_right ?_
          rintro ⟨-, hunserved⟩
          obtain ⟨s, -, -, hstage, -⟩ := hreleased
          exact not_lt.mpr hunserved (h.released i number j f s hprecedes hold hstage)
    · obtain ⟨hentered, hstreams⟩ := entered_of_spawn hs hspawn hlength hj
      simp [InferCall.Selected, hentered, hstreams, Stage.replicas, Stage.dispatched,
        Stage.selected] at hselected
    · obtain ⟨f, t, ⟨hj', hstage'⟩, -, hstreams⟩ := hfirst
      rw [hj] at hj'
      cases hj'
      simp [InferCall.Selected, hstage', hstreams, Stage.replicas, Stage.dispatched,
        Stage.selected] at hselected

theorem ordered_nil (hcalls : s₀.calls = []) : Ordered hash s₀ [] s₀ := by
  have hnone : ∀ i number, ¬ Waited hash s₀ [] i number := by
    rintro i number ⟨pre, q, hpre, hq, f, t, ⟨hi, -⟩, -⟩
    obtain rfl := List.prefix_nil.mp hpre
    obtain rfl := Run.deterministic .nil hq
    rw [hcalls] at hi
    cases hi
  refine ⟨?_, fun i number h => absurd h (hnone i number),
    fun i number j f t h => absurd h.waited (hnone i number),
    fun i number j f s h => absurd h.waited (hnone i number),
    fun i number j f h => absurd h.waited (hnone i number)⟩
  rintro i f t ⟨hi, -⟩
  rw [hcalls] at hi
  cases hi

/-- **The order of arrival.** In every run of a new gateway whose steps pass over nobody, no call is
dispatched to a replica before one that came before it. -/
theorem in_arrival_order (hash : List UInt8 → ℕ) (virtualNodes : ℤ)
    (config : CircuitBreaker.Config) (maxSize : ℤ) (es : List GatewayLabel) (p : GatewayPool)
    (hrun : Run (gatewayProgram hash).step (newGateway virtualNodes config maxSize) es p)
    (hturn : EveryStep (gatewayProgram hash).step (newGateway virtualNodes config maxSize) es
      (InTurn hash (newGateway virtualNodes config maxSize))) :
    Always (gatewayProgram hash).step (newGateway virtualNodes config maxSize) es
      (InArrivalOrder hash (newGateway virtualNodes config maxSize)) := by
  have hordered : Always (gatewayProgram hash).step (newGateway virtualNodes config maxSize) es
      (Ordered hash (newGateway virtualNodes config maxSize)) :=
    always_of_everyStep hrun (ordered_nil rfl) (fun _ _ _ _ hrun h hl hs => h.step hrun hl hs) hturn
  refine hordered.mono fun pre q _ h i number j f hprecedes hj hdispatched => ?_
  refine h.selected i number j f hprecedes hj (hdispatched.imp_left fun hsome => ?_)
  intro hnone
  exact hsome (List.append_eq_nil_iff.mp hnone).1

end

/-! ## One slot -/

/-- Each call other than `j` has just entered, has been dispatched or has returned. -/
def othersCleared (p : GatewayPool) (j : ℕ) : Bool :=
  p.calls.zipIdx.all fun e => e.2 = j ||
    match e.1 with
    | .infer f =>
      match f.stage with
      | .entered | .infer (.streaming _) | .infer (.returned _) => true
      | _ => false
    | .rebuildRing _ => false

/-- The calls select one at a time. -/
def inTurn (p : GatewayPool) : GatewayLabel → Bool
  | .call j _ =>
    match p.calls[j]? with
    | some (.infer f) =>
      p.shared.queue.nextTicket + 1 < 2 ^ 64 && p.shared.queue.servingTicket + 1 < 2 ^ 64 &&
      match f.stage with
      | .infer (.selecting _) | .infer (.reselecting _) | .hedged (.selecting _) =>
        othersCleared p j
      | _ => true
    | _ => true
  | _ => true

section

variable {s₀ p : GatewayPool} {es : List GatewayLabel} {l : GatewayLabel} {i number j : ℕ}

theorem Precedes.ne (h : Precedes hash s₀ es i number j) : i ≠ j := by
  rintro rfl
  obtain ⟨pre, q, -, ⟨f, t, ⟨hi, hstage⟩, -⟩, ⟨x, -, hlength⟩ | ⟨⟨f', hi', -, harriving⟩, -⟩⟩ := h
  · have hlt := (List.getElem?_eq_some_iff.mp hi).1
    omega
  · rw [hi] at hi'
    cases hi'
    simp [hstage] at harriving

theorem othersCleared_sound (hrun : Run (gatewayProgram hash).step s₀ es p)
    (h : othersCleared p j = true) (hprecedes : Precedes hash s₀ es i number j) : Cleared p i := by
  obtain ⟨f, hi, hentered⟩ := hprecedes.waited.entered hrun
  have hother := List.all_eq_true.mp h (.infer f, i) (List.mem_zipIdx_iff_getElem?.mpr hi)
  simp only [hprecedes.ne, decide_false, Bool.false_or] at hother
  refine ⟨f, hi, ?_⟩
  split at hother
  · exact absurd ‹_› hentered
  · exact ⟨_, ‹_›, Or.inr (Or.inl ⟨_, rfl⟩)⟩
  · exact ⟨_, ‹_›, Or.inr (Or.inr ⟨_, rfl⟩)⟩
  · cases hother

theorem inTurn_sound (hrun : Run (gatewayProgram hash).step s₀ es p) (h : inTurn p l = true) :
    InTurn hash s₀ es p l := by
  refine ⟨?_, ?_, ?_⟩
  · rintro j c f rfl hj - ⟨s, lb, selection, ⟨hstage, -⟩ | ⟨hstage, -⟩⟩ i number hprecedes
    · simp only [inTurn, hj, hstage, Bool.and_eq_true] at h
      exact othersCleared_sound hrun h.2 hprecedes
    · simp only [inTurn, hj, hstage, Bool.and_eq_true] at h
      exact othersCleared_sound hrun h.2 hprecedes
  · rintro j c f rfl hj - ⟨s, lb, selection, hstage, -⟩ i number hprecedes
    simp only [inTurn, hj, hstage, Bool.and_eq_true] at h
    exact Or.inl (othersCleared_sound hrun h.2 hprecedes)
  · rintro j c f rfl hj
    simp only [inTurn, hj, Bool.and_eq_true, decide_eq_true_eq] at h
    exact ⟨fun _ => h.1.2, fun _ _ => h.1.1⟩

end

/-- The call 0 has the only slot of the only replica, and the call 1 is blocked. -/
def slotTaken : List GatewayLabel :=
  [.env (.updateFromGossip "replica-1" ⟨"replica-1", "a:17001", .alive, 0, "v1", 0, 1⟩),
    .spawn (.infer ⟨"client", "first", 1, false⟩)] ++ List.replicate 6 (.call 0 {}) ++
    .spawn (.infer ⟨"client", "second", 1, false⟩) :: List.replicate 5 (.call 1 {})

/-- Then the call 2 enters. -/
def thirdEnters : List GatewayLabel := slotTaken ++ [.spawn (.infer ⟨"client", "third", 1, false⟩)]

/-- The stream of a call brings its token, and the call ends it. -/
def streamEnds (i : ℕ) : List GatewayLabel :=
  .call i { stream := ⟨[{ response := ⟨"token_0", true⟩ }], true⟩ } :: List.replicate 3 (.call i {})

/-- The call 2, once it has been dispatched. -/
def thirdCall (pending : List Operation) : InferCall where
  request := ⟨"client", "third", 1, false⟩
  stage := .infer (.streaming ⟨"replica-1", "a:7001"⟩)
  pending := pending

theorem thirdCall_dispatched (pending : List Operation) : (thirdCall pending).Dispatched :=
  Or.inl (List.cons_ne_nil "replica-1" [])

theorem precedes_thirdEnters (es : List GatewayLabel) :
    Precedes (fun _ => 0) (newGateway 150 {} 100) (thirdEnters ++ es) 1 0 2 := by
  have hrun : Run (gatewayProgram fun _ => 0).step (newGateway 150 {} 100) slotTaken _ :=
    run_get (by decide +kernel)
  have hwaits : WaitsWith ((exec (gatewayProgram fun _ => 0).step (newGateway 150 {} 100)
      slotTaken).get (by decide +kernel)) 1 0 :=
    ⟨firstWaiter "second", ⟨0, 30000000000⟩, ⟨by decide +kernel, rfl⟩, rfl⟩
  exact ⟨slotTaken, _, hrun, hwaits, Or.inl ⟨_, List.prefix_append _ _, by decide +kernel⟩⟩

/-- The call 1 is released and gets the slot, and then the call 2. -/
theorem in_arrival_order_third :
    let es := thirdEnters ++ (streamEnds 0 ++ List.replicate 5 (.call 1 {}) ++
      List.replicate 5 (.call 2 {}) ++ streamEnds 1 ++ List.replicate 5 (.call 2 {}))
    ∃ p f, Run (gatewayProgram fun _ => 0).step (newGateway 150 {} 100) es p ∧
      p.calls[2]? = some (.infer f) ∧ f.Dispatched ∧ Cleared p 1 := by
  intro es
  have hrun : Run (gatewayProgram fun _ => 0).step (newGateway 150 {} 100) es _ :=
    run_get (by decide +kernel)
  have hcheck : checkSteps (gatewayProgram fun _ => 0).step inTurn (newGateway 150 {} 100) es =
      true := by decide +kernel
  have horder := in_arrival_order _ _ _ _ es _ hrun fun pre l p hpre hp =>
    inTurn_sound hp (everyStep_of_check hcheck pre l p hpre hp)
  have hthird : ((exec (gatewayProgram fun _ => 0).step (newGateway 150 {} 100) es).get
      (by decide +kernel)).calls[2]? = some (.infer (thirdCall [])) := by decide +kernel
  exact ⟨_, _, hrun, hthird, thirdCall_dispatched _,
    horder.last hrun 1 0 2 _ (precedes_thirdEnters _) hthird (thirdCall_dispatched _)⟩

/-- The call 2 selects between the `DecrementActive` of the call 0 and its notification, and is
dispatched while the call 1 is still blocked. -/
theorem not_in_arrival_order_newcomer :
    let es := thirdEnters ++ ((streamEnds 0).take 2 ++ List.replicate 5 (.call 2 {}))
    ∃ p, Run (gatewayProgram fun _ => 0).step (newGateway 150 {} 100) es p ∧
      Precedes (fun _ => 0) (newGateway 150 {} 100) es 1 0 2 ∧
      Blocked p 1 (firstWaiter "second") ⟨0, 30000000000⟩ ∧
      ¬ InArrivalOrder (fun _ => 0) (newGateway 150 {} 100) es p := by
  intro es
  have hrun : Run (gatewayProgram fun _ => 0).step (newGateway 150 {} 100) es _ :=
    run_get (by decide +kernel)
  have hblocked : Blocked ((exec (gatewayProgram fun _ => 0).step (newGateway 150 {} 100) es).get
      (by decide +kernel)) 1 (firstWaiter "second") ⟨0, 30000000000⟩ := ⟨by decide +kernel, rfl⟩
  have hthird : ((exec (gatewayProgram fun _ => 0).step (newGateway 150 {} 100) es).get
      (by decide +kernel)).calls[2]? =
        some (.infer (thirdCall [.incrementActive "replica-1"])) := by decide +kernel
  refine ⟨_, hrun, precedes_thirdEnters _, hblocked, fun h => ?_⟩
  obtain ⟨f, hi, s, hstage, hcleared⟩ := h 1 0 2 _ (precedes_thirdEnters _) hthird
    (thirdCall_dispatched _)
  rw [hblocked.1] at hi
  cases hi
  cases hstage
  simp [firstWaiter] at hcleared

end LlmGateway.Gateway
