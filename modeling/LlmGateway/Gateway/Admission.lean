import LlmGateway.Gateway.ArrivalOrder

/-!
# Admission to the queue

`waiting_count_` is the number of the calls that are in the wait, so there are never more than
`max_size` of them. `Infer` returns `RESOURCE_EXHAUSTED` for one of two reasons only: the call found
the queue full, or it has been in the wait for the whole timeout and is not released.
-/

namespace LlmGateway.Gateway

open Transition

/-- In the wait of `WaitForCapacity`. -/
def Stage.waits : Stage → Bool
  | .infer (.blocked _) => true
  | _ => false

def GatewayCall.waits : GatewayCall → Bool
  | .infer f => f.stage.waits
  | .rebuildRing _ => false

/-- How many calls are in the wait. -/
def waiting (p : GatewayPool) : ℕ := p.calls.countP GatewayCall.waits

/-- The time a call may be in the wait, in nanoseconds. -/
def queueTimeout : ℕ := 30000 * 1000000

variable (hash : List UInt8 → ℕ) (s₀ : GatewayPool)

/-- The call `i` came to the queue when it was full. -/
def FoundFull (maxSize : ℤ) (es : List GatewayLabel) (i : ℕ) : Prop :=
  ∃ pre c q f, pre ++ [.call i c] <+: es ∧ Run (gatewayProgram hash).step s₀ pre q ∧
    q.calls[i]? = some (.infer f) ∧ f.pending = [] ∧ f.stage = .infer .queueing ∧
    maxSize ≤ waiting q

/-- The call `i` had been in the wait for the timeout at least, and was not released. -/
def TimedOut (es : List GatewayLabel) (i : ℕ) : Prop :=
  ∃ pre c q f t, pre ++ [.call i c] <+: es ∧ Run (gatewayProgram hash).step s₀ pre q ∧
    Blocked q i f t ∧ f.pending = [] ∧ q.shared.queue.servingTicket ≤ t.number ∧
    HeldSince (gatewayProgram hash).step s₀ pre
      (fun r => r.shared.now + queueTimeout ≤ q.shared.now) fun r => ∃ f, Blocked r i f t

/-- The call `i` has returned because of the queue. -/
def TurnedAway (p : GatewayPool) (i : ℕ) : Prop :=
  ∃ f, p.calls[i]? = some (.infer f) ∧ f.stage = .infer (.returned InferCall.queueFull)

variable {hash s₀} {g g' : GatewayState} {c : InferChoice} {f f' : InferCall}

theorem FoundFull.later {maxSize : ℤ} {es fs : List GatewayLabel} {i : ℕ}
    (h : FoundFull hash s₀ maxSize es i) (hes : es <+: fs) : FoundFull hash s₀ maxSize fs i := by
  obtain ⟨pre, c, q, f, hpre, h⟩ := h
  exact ⟨pre, c, q, f, hpre.trans hes, h⟩

theorem TimedOut.later {es fs : List GatewayLabel} {i : ℕ} (h : TimedOut hash s₀ es i)
    (hes : es <+: fs) : TimedOut hash s₀ fs i := by
  obtain ⟨pre, c, q, f, t, hpre, h⟩ := h
  exact ⟨pre, c, q, f, t, hpre.trans hes, h⟩

/-! ## The count -/

theorem InferMove.waits (h : InferMove hash g c f g' f') :
    g'.queue.maxSize = g.queue.maxSize ∧
      g'.queue.waitingCount + f.stage.waits.toNat = g.queue.waitingCount + f'.stage.waits.toNat ∧
      (g'.queue.waitingCount ≤ g.queue.waitingCount ∨
        g'.queue.waitingCount ≤ g.queue.maxSize) := by
  have hquiet : f.stage.waits = f'.stage.waits → g'.queue.maxSize = g.queue.maxSize →
      g'.queue.waitingCount = g.queue.waitingCount → g'.queue.maxSize = g.queue.maxSize ∧
      g'.queue.waitingCount + f.stage.waits.toNat = g.queue.waitingCount + f'.stage.waits.toNat ∧
      (g'.queue.waitingCount ≤ g.queue.waitingCount ∨
        g'.queue.waitingCount ≤ g.queue.maxSize) :=
    fun hwaits hsize hcount => ⟨hsize, by rw [hwaits, hcount], Or.inl hcount.le⟩
  cases h with
  | block hstage hroom =>
    rw [hstage]
    refine ⟨rfl, ?_, Or.inr ?_⟩
    · show g.queue.waitingCount + 1 + 0 = g.queue.waitingCount + 1
      omega
    · show g.queue.waitingCount + 1 ≤ g.queue.maxSize
      omega
  | serve hstage | giveUp hstage =>
    rw [hstage]
    refine ⟨rfl, ?_, Or.inl ?_⟩
    · show g.queue.waitingCount - 1 + 1 = g.queue.waitingCount + 0
      omega
    · show g.queue.waitingCount - 1 ≤ g.queue.waitingCount
      omega
  | stream hstage =>
    refine hquiet ?_ rfl rfl
    rw [hstage]
    rcases stage_streamed f _ c.stream _ _ with hnext | hnext <;> rw [hnext] <;> rfl
  | cancel hstage | select hstage | leave hstage | scan hstage | starve hstage | choose hstage
  | reject hstage | pass hstage | rescan hstage | retry hstage | rechoose hstage | allow hstage
  | refuse hstage =>
    exact hquiet (by rw [hstage]; rfl) rfl rfl

theorem waits_step (hs : f.step hash g c = some (g', f')) :
    g'.queue.maxSize = g.queue.maxSize ∧
      g'.queue.waitingCount + f.stage.waits.toNat = g.queue.waitingCount + f'.stage.waits.toNat ∧
      (g'.queue.waitingCount ≤ g.queue.waitingCount ∨
        g'.queue.waitingCount ≤ g.queue.maxSize) := by
  cases stepMove hs with
  | @pending op ops => cases op <;> exact ⟨rfl, rfl, Or.inl le_rfl⟩
  | enter _ hstage | enterHedged _ hstage =>
    rw [hstage]
    exact ⟨rfl, rfl, Or.inl le_rfl⟩
  | infer _ hmove => exact hmove.waits
  | hedged _ hstage hhedge =>
    obtain ⟨⟨s', hstage'⟩, -, -, hqueue⟩ := InferCall.hedgeStep_effect hhedge
    rw [hstage, hstage', hqueue]
    exact ⟨rfl, rfl, Or.inl le_rfl⟩

/-- The queue counts the calls in the wait, and there are not more of them than it admits. -/
structure Admitting (maxSize : ℤ) (p : GatewayPool) : Prop where
  size : p.shared.queue.maxSize = maxSize
  count : p.shared.queue.waitingCount = waiting p
  room : waiting p ≤ maxSize.toNat

variable {p p' : GatewayPool} {l : GatewayLabel} {es : List GatewayLabel} {i : ℕ} {maxSize : ℤ}

theorem Admitting.quiet (h : Admitting maxSize p) (hqueue : p'.shared.queue = p.shared.queue)
    (hwaiting : waiting p' = waiting p) : Admitting maxSize p' :=
  ⟨hqueue ▸ h.size, by rw [hqueue, hwaiting]; exact h.count, hwaiting ▸ h.room⟩

theorem waiting_set {t t' : GatewayCall} (hi : p.calls[i]? = some t) :
    waiting ⟨g', p.calls.set i t'⟩ + t.waits.toNat = waiting p + t'.waits.toNat := by
  have htoNat : ∀ b : Bool, b.toNat = if b then 1 else 0 := by decide
  rw [htoNat, htoNat]
  exact Program.countP_set hi

theorem Admitting.step (h : Admitting maxSize p) (hs : (gatewayProgram hash).step p l = some p') :
    Admitting maxSize p' := by
  rcases gatewayStep_cases hs with ⟨x, rfl⟩ | ⟨e, rfl, rfl⟩ |
    ⟨i, c, b, b', g', rfl, hi, -, hqueue, rfl⟩ | ⟨i, c, f, f', g', rfl, hi, hstep, rfl⟩
  · refine h.quiet rfl ?_
    have hidle : ((gatewayProgram hash).start x).waits = false := by cases x <;> rfl
    simp [waiting, List.countP_append, hidle]
  · refine h.quiet ?_ rfl
    cases e <;> rfl
  · exact h.quiet hqueue (waiting_set hi)
  · obtain ⟨hsize, hcount, hroom⟩ := waits_step hstep
    have hset : waiting ⟨g', p.calls.set i (.infer f')⟩ + f.stage.waits.toNat =
        waiting p + f'.stage.waits.toNat := waiting_set hi
    have hbefore := h.count
    have hle := h.room
    have hsize' := h.size
    refine ⟨hsize.trans hsize', ?_, ?_⟩
    · show g'.queue.waitingCount = _
      omega
    · omega

theorem admitting_of_run {virtualNodes : ℤ} {config : CircuitBreaker.Config}
    (hrun : Run (gatewayProgram hash).step (newGateway virtualNodes config maxSize) es p) :
    Admitting maxSize p :=
  hrun.invariant ⟨rfl, rfl, Nat.zero_le _⟩ fun _ _ _ h hs => h.step hs

/-! ## The clock and the wait -/

theorem now_step (hs : f.step hash g c = some (g', f')) : g'.now = g.now := by
  cases stepMove hs with
  | @pending op ops => cases op <;> rfl
  | enter | enterHedged => rfl
  | infer _ hmove => cases hmove <;> rfl
  | hedged _ _ hhedge => cases hedgeMove hhedge <;> rfl

theorem RebuildCall.now_step {b b' : RebuildCall} (hs : b.step hash g = some (g', b')) :
    g'.now = g.now := by
  cases b with
  | entered =>
    cases hs
    rfl
  | replacing alive =>
    obtain ⟨lb, -, heq⟩ := Option.map_eq_some_iff.mp hs
    cases heq
    rfl
  | done => cases hs

theorem now_le_step (hs : (gatewayProgram hash).step p l = some p') :
    p.shared.now ≤ p'.shared.now := by
  cases Program.step_cases hs with
  | spawn x => exact le_rfl
  | @env d g' henv =>
    cases henv
    cases d with
    | tick ns => exact Nat.le_add_right _ _
    | _ => exact le_rfl
  | @call i c t t' g' hi ht =>
    cases t with
    | infer f =>
      obtain ⟨⟨g₁, f'⟩, hf, heq⟩ := Option.map_eq_some_iff.mp ht
      cases heq
      exact (now_step hf).ge
    | rebuildRing b =>
      obtain ⟨⟨g₁, b'⟩, hb, heq⟩ := Option.map_eq_some_iff.mp ht
      cases heq
      exact (RebuildCall.now_step hb).ge

/-- A call that goes into the wait takes its deadline from the clock. -/
theorem deadline_step {t : Ticket} (hs : f.step hash g c = some (g', f'))
    (hstage : f'.stage = .infer (.blocked t)) :
    f.stage = .infer (.blocked t) ∨ t.deadline = g'.now + queueTimeout := by
  cases stepMove hs with
  | pending => exact Or.inl hstage
  | enter | enterHedged => cases hstage
  | hedged _ _ hhedge =>
    obtain ⟨⟨s', hs'⟩, -⟩ := InferCall.hedgeStep_effect hhedge
    cases hs'.symm.trans hstage
  | infer hpending hmove =>
    cases hmove with
    | block =>
      cases hstage
      exact Or.inr rfl
    | stream =>
      rcases stage_streamed f _ c.stream _ _ with hstage' | hstage' <;>
        cases hstage'.symm.trans hstage
    | _ => cases hstage

/-- A call in the wait has been in it without a break since the moment that set its deadline. -/
theorem heldSince_of_run (hcalls : s₀.calls = []) (hrun : Run (gatewayProgram hash).step s₀ es p) :
    ∀ i f t, Blocked p i f t →
      HeldSince (gatewayProgram hash).step s₀ es
        (fun r => t.deadline = r.shared.now + queueTimeout) fun r => ∃ f, Blocked r i f t := by
  induction hrun with
  | nil =>
    rintro i f t ⟨hi, -⟩
    rw [hcalls] at hi
    cases hi
  | @snoc es l p p' hrun hs ih =>
    rintro i f' t ⟨hi, hstage⟩
    have hblocked : ∃ f, Blocked p' i f t := ⟨f', hi, hstage⟩
    rcases call_before hs hi with hbefore | ⟨-, hentered, -⟩ | ⟨c, f, -, hbefore, hstep⟩
    · exact (ih i f' t ⟨hbefore, hstage⟩).snoc (hrun.snoc hs) hblocked
    · cases hentered.symm.trans hstage
    · rcases deadline_step hstep hstage with hwas | hdeadline
      · exact (ih i f t ⟨hbefore, hwas⟩).snoc (hrun.snoc hs) hblocked
      · exact .start (hrun.snoc hs) hdeadline hblocked

theorem now_le_of_run {q : GatewayPool} (hrun : Run (gatewayProgram hash).step p es q) :
    p.shared.now ≤ q.shared.now :=
  hrun.invariant (P := fun q => p.shared.now ≤ q.shared.now) le_rfl fun _ _ _ h hs =>
    h.trans (now_le_step hs)

theorem deadline_le (hcalls : s₀.calls = []) (hrun : Run (gatewayProgram hash).step s₀ es p)
    {t : Ticket} (hblocked : Blocked p i f t) : t.deadline ≤ p.shared.now + queueTimeout := by
  obtain ⟨pre, fs, q, rfl, hpre, hdeadline, -⟩ := heldSince_of_run hcalls hrun i f t hblocked
  obtain ⟨q', hpre', hfs⟩ := hrun.split
  obtain rfl := hpre'.deterministic hpre
  have hle := now_le_of_run hfs
  rw [hdeadline]
  omega

/-! ## Turned away -/

/-- A call that returns because of the queue has done so before, or does so for one of the two
reasons. -/
theorem turnedAway_step (hs : f.step hash g c = some (g', f'))
    (hstage : f'.stage = .infer (.returned InferCall.queueFull)) :
    f.stage = .infer (.returned InferCall.queueFull) ∨
      f.pending = [] ∧ f.stage = .infer .queueing ∧ g.queue.maxSize ≤ g.queue.waitingCount ∨
      ∃ t, f.pending = [] ∧ f.stage = .infer (.blocked t) ∧ g.queue.servingTicket ≤ t.number ∧
        t.deadline ≤ g.now := by
  cases stepMove hs with
  | pending => exact Or.inl hstage
  | enter | enterHedged => cases hstage
  | hedged _ _ hhedge =>
    obtain ⟨⟨s', hs'⟩, -⟩ := InferCall.hedgeStep_effect hhedge
    cases hs'.symm.trans hstage
  | infer hpending hmove =>
    cases hmove with
    | reject hqueueing hfull => exact Or.inr (Or.inl ⟨hpending, hqueueing, hfull⟩)
    | giveUp hblocked hunserved hlate =>
      exact Or.inr (Or.inr ⟨_, hpending, hblocked, hunserved, hlate⟩)
    | stream =>
      rcases stage_streamed f _ c.stream _ _ with hstage' | hstage' <;>
        cases hstage'.symm.trans hstage
    | leave =>
      have hstatus : f.finalStatus = InferCall.queueFull := 
        InferStage.returned.inj (Stage.infer.inj hstage)
      unfold InferCall.finalStatus at hstatus
      split_ifs at hstatus <;> cases hstatus
    | _ => cases hstage

theorem InferCall.stays_returned {status : Status} (hs : f.step hash g c = some (g', f'))
    (hstage : f.stage = .infer (.returned status)) : f'.stage = .infer (.returned status) := by
  unfold InferCall.step at hs
  cases hpending : f.pending with
  | cons op ops =>
    rw [hpending] at hs
    cases hs
    exact hstage
  | nil =>
    rw [hpending, hstage] at hs
    cases hs

theorem TurnedAway.run {q : GatewayPool} (h : TurnedAway p i)
    (hrun : Run (gatewayProgram hash).step p es q) : TurnedAway q i := by
  refine hrun.invariant (P := (TurnedAway · i)) h ?_
  rintro q l q' ⟨f, hi, hstage⟩ hs
  obtain ⟨f', hi', rfl | ⟨c, -, hstep⟩⟩ := call_after hs hi
  · exact ⟨f', hi', hstage⟩
  · exact ⟨f', hi', InferCall.stays_returned hstep hstage⟩

theorem turnedAway_of_step {q : GatewayPool} (hi : p.calls[i]? = some (.infer f))
    (hpending : f.pending = [])
    (hcause : f.stage = .infer .queueing ∧ p.shared.queue.maxSize ≤ p.shared.queue.waitingCount ∨
      ∃ t, f.stage = .infer (.blocked t) ∧ p.shared.queue.servingTicket ≤ t.number ∧
        t.deadline ≤ p.shared.now)
    (hs : (gatewayProgram hash).step p (.call i c) = some q) : TurnedAway q i := by
  have hlt := (List.getElem?_eq_some_iff.mp hi).1
  obtain ⟨g', hstep⟩ : ∃ g', f.step hash p.shared c =
      some (g', f.goto (.returned InferCall.queueFull)) := by
    rcases hcause with ⟨hstage, hfull⟩ | ⟨t, hstage, hunserved, hlate⟩
    · refine ⟨p.shared, ?_⟩
      rw [step_infer hpending hstage]
      simp only [InferCall.inferStep, RequestQueue.enter, if_pos hfull]
    · refine ⟨{ p.shared with queue := { p.shared.queue with
        waitingCount := p.shared.queue.waitingCount - 1 } }, ?_⟩
      rw [step_infer hpending hstage]
      simp [InferCall.inferStep, RequestQueue.wake, not_lt.mpr hunserved, hlate]
  have hcall : (gatewayProgram hash).call p.shared (.infer f) c =
      some (g', .infer (f.goto (.returned InferCall.queueFull))) := by
    show (f.step hash p.shared c).map _ = _
    rw [hstep]
    rfl
  rw [Program.step_call hi hcall] at hs
  cases hs
  exact ⟨f.goto (.returned InferCall.queueFull), List.getElem?_set_self hlt, rfl⟩

/-- **Admission.** In every run of a gateway, whatever the calls, the replicas, the gossip layer and
the clock do: never more than `max_size` calls are in the wait, and `waiting_count_` is their
number. A call returns because of the queue if and only if it came when `max_size` calls were in the
wait, or had been in the wait itself for 30 s on end and was not released. -/
theorem turnedAway_iff (hash : List UInt8 → ℕ) (virtualNodes : ℤ) (config : CircuitBreaker.Config)
    (maxSize : ℤ) (es : List GatewayLabel) (p : GatewayPool)
    (hrun : Run (gatewayProgram hash).step (newGateway virtualNodes config maxSize) es p) :
    waiting p ≤ maxSize.toNat ∧ p.shared.queue.waitingCount = waiting p ∧
      ∀ i, TurnedAway p i ↔ FoundFull hash (newGateway virtualNodes config maxSize) maxSize es i ∨
        TimedOut hash (newGateway virtualNodes config maxSize) es i := by
  have hadmitting := admitting_of_run hrun
  refine ⟨hadmitting.room, hadmitting.count, fun i => ⟨fun h => ?_, ?_⟩⟩
  · clear hadmitting
    induction hrun with
    | nil =>
      obtain ⟨f, hi, -⟩ := h
      cases hi
    | @snoc es l p p' hrun hs ih =>
      obtain ⟨f', hi, hstage⟩ := h
      have hbefore : TurnedAway p i →
          FoundFull hash (newGateway virtualNodes config maxSize) maxSize (es ++ [l]) i ∨
          TimedOut hash (newGateway virtualNodes config maxSize) (es ++ [l]) i := fun h =>
        (ih h).imp (·.later (List.prefix_append _ _)) (·.later (List.prefix_append _ _))
      rcases call_before hs hi with hsame | ⟨-, hentered, -⟩ | ⟨c, f, rfl, hf, hstep⟩
      · exact hbefore ⟨f', hsame, hstage⟩
      · cases hentered.symm.trans hstage
      · rcases turnedAway_step hstep hstage with hwas | ⟨hpending, hqueueing, hfull⟩ |
          ⟨t, hpending, hblocked, hunserved, hlate⟩
        · exact hbefore ⟨f, hf, hwas⟩
        · have hadmitting := admitting_of_run hrun
          rw [hadmitting.size, hadmitting.count] at hfull
          exact Or.inl ⟨es, c, p, f, List.prefix_rfl, hrun, hf, hpending, hqueueing, hfull⟩
        · refine Or.inr ⟨es, c, p, f, t, List.prefix_rfl, hrun, ⟨hf, hblocked⟩, hpending, hunserved,
            ?_⟩
          refine (heldSince_of_run rfl hrun i f t ⟨hf, hblocked⟩).mono (fun r hr => ?_)
            fun _ h => h
          rw [hr] at hlate
          exact_mod_cast hlate
  · rintro (⟨pre, c, q, f, hpre, hq, hi, hpending, hstage, hfull⟩ |
      ⟨pre, c, q, f, t, hpre, hq, ⟨hi, hstage⟩, hpending, hunserved, hheld⟩)
    · obtain ⟨q', gs, hs, -, hgs⟩ := hrun.step_of_prefix hpre hq
      have hcount := admitting_of_run hq
      refine (turnedAway_of_step hi hpending (Or.inl ⟨hstage, ?_⟩) hs).run hgs
      rw [hcount.size, hcount.count]
      exact hfull
    · obtain ⟨q', gs, hs, -, hgs⟩ := hrun.step_of_prefix hpre hq
      obtain ⟨mid, fs, r, rfl, hmid, hlong, halways⟩ := hheld
      obtain ⟨f₀, hblocked⟩ := halways [] r List.nil_prefix .nil
      refine (turnedAway_of_step hi hpending (Or.inr ⟨t, hstage, hunserved, ?_⟩) hs).run hgs
      have hdeadline := deadline_le rfl hmid hblocked
      omega

/-- A call that has returned because of the queue. -/
def turnedAwayCall (prompt : String) : InferCall where
  request := ⟨"client", prompt, 1, false⟩
  stage := .infer (.returned InferCall.queueFull)

/-- No replica is known. The first call waits for 30 s, and the second one finds the queue full. -/
theorem turnedAway_iff_twice :
    let es : List GatewayLabel :=
      .spawn (.infer ⟨"client", "first", 1, false⟩) :: List.replicate 5 (.call 0 {}) ++
        .spawn (.infer ⟨"client", "second", 1, false⟩) :: List.replicate 5 (.call 1 {}) ++
        [.env (.tick 30000000000), .call 0 {}]
    let s₀ := newGateway 150 {} 1
    ∃ p, Run (gatewayProgram fun _ => 0).step s₀ es p ∧ waiting p ≤ 1 ∧ ∀ i ∈ [0, 1],
      FoundFull (fun _ => 0) s₀ 1 es i ∨ TimedOut (fun _ => 0) s₀ es i := by
  intro es s₀
  have hrun : Run (gatewayProgram fun _ => 0).step s₀ es _ := run_get (by decide +kernel)
  obtain ⟨hroom, -, hiff⟩ := turnedAway_iff (fun _ => 0) 150 {} 1 es _ hrun
  have hcalls : ((exec (gatewayProgram fun _ => 0).step s₀ es).get (by decide +kernel)).calls =
      [.infer (turnedAwayCall "first"), .infer (turnedAwayCall "second")] := by decide +kernel
  refine ⟨_, hrun, hroom, ?_⟩
  rintro i hi
  refine (hiff i).mp ?_
  rcases List.mem_pair.mp hi with rfl | rfl
  · exact ⟨_, by rw [hcalls]; rfl, rfl⟩
  · exact ⟨_, by rw [hcalls]; rfl, rfl⟩

end LlmGateway.Gateway
