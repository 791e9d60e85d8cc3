import LlmGateway.Gateway.InferMove
import LlmGateway.Lib.Completion

/-!
# Every call ends

What can keep a call of the gateway from returning: an unbounded loop, the mutex of the ring, or a
wait that nobody ends.

1. `InferCall.budget`: every step of a call lowers it, so a call takes a bounded number of steps
   of its own (`work_bounded`), on a ring of at most `L` points.
2. `LockHeld`: the mutex of the ring is held by exactly one walk.
3. `calls_drain`: from every reachable state the calls can all return by steps of their own, while
   nothing but time passes outside.
-/

namespace LlmGateway.Gateway

open Replica Transition

variable {hash : List UInt8 → ℕ} {g g' : GatewayState} {c : InferChoice} {f f' : InferCall} {L : ℕ}

/-! ## The budget of a call -/

/-- The steps left of a `SelectReplica` on a ring of `L` points. -/
def SelectStage.cost (L : ℕ) : SelectStage → ℕ
  | .hashing => L + 3
  | .walking points => points.length + 2
  | .leastConnections => 1

/-- The steps left of the loop of `Infer`, from the head of an iteration. A round is the test of
the loop, two selections, the queue (2), the circuit breaker, the stream, and 4 accesses. -/
def loopBudget (L attempt : ℕ) : ℕ := (maxRetries - attempt) * (2 * (L + 3) + 9) + 1

def InferStage.budget (L attempt : ℕ) : InferStage → ℕ
  | .looping => loopBudget L attempt
  | .selecting s => loopBudget L (attempt + 1) + (L + 3) + 8 + s.cost L
  | .queueing => loopBudget L (attempt + 1) + (L + 3) + 8
  | .blocked _ => loopBudget L (attempt + 1) + (L + 3) + 7
  | .reselecting s => loopBudget L (attempt + 1) + 6 + s.cost L
  | .allowing _ => loopBudget L (attempt + 1) + 6
  | .streaming _ => loopBudget L (attempt + 1) + 4
  | .returned _ => 0

def RaceThread.budget : RaceThread → ℕ
  | .reading => 3
  | .swapping => 2
  | .setting => 1
  | .finished => 0

/-- The steps left of the two race threads. -/
def Race.budget (r : Race) : ℕ := r.first.thread.budget + r.second.thread.budget

def HedgeStage.budget (L : ℕ) : HedgeStage → ℕ
  | .selecting s => (L + 3) + 18 + s.cost L
  | .selectingSecond _ s => 18 + s.cost L
  | .single _ => 4
  | .starting _ _ => 16
  | .waiting r => r.budget + 9
  | .joining r _ => r.budget + 8
  | .forwarding _ _ _ => 3
  | .returned _ => 0

/-- The steps a call may still take. -/
def InferCall.budget (L : ℕ) (f : InferCall) : ℕ :=
  f.pending.length + match f.stage with
    | .entered => loopBudget L 0 + 1
    | .infer s => s.budget L f.attempt
    | .hedged s => s.budget L

def RebuildCall.budget : RebuildCall → ℕ
  | .entered => 2
  | .replacing _ => 1
  | .done => 0

def GatewayCall.budget (L : ℕ) : GatewayCall → ℕ
  | .infer f => f.budget L
  | .rebuildRing b => b.budget

theorem loopBudget_zero (L : ℕ) : loopBudget L 0 = 6 * L + 46 := by
  show 3 * (2 * (L + 3) + 9) + 1 = _
  omega

theorem loopBudget_of_lt {attempt : ℕ} (h : attempt < maxRetries) :
    loopBudget L attempt = loopBudget L (attempt + 1) + (2 * (L + 3) + 9) := by
  unfold loopBudget
  have hsub : maxRetries - attempt = (maxRetries - (attempt + 1)) + 1 := by omega
  rw [hsub, Nat.add_mul]
  omega

theorem loopBudget_pos (L attempt : ℕ) : 1 ≤ loopBudget L attempt := Nat.le_add_left _ _

theorem loopBudget_le (L attempt : ℕ) : loopBudget L attempt ≤ loopBudget L 0 := by
  unfold loopBudget
  have hle : (maxRetries - attempt) * (2 * (L + 3) + 9) ≤ (maxRetries - 0) * (2 * (L + 3) + 9) :=
    Nat.mul_le_mul_right _ (by omega)
  omega

/-! ### One step of a selection -/

theorem SelectStage.cost_hashing (L : ℕ) : SelectStage.hashing.cost L = L + 3 := rfl

theorem SelectStage.cost_pos (L : ℕ) (s : SelectStage) : 1 ≤ s.cost L := by
  cases s <;> simp [SelectStage.cost]

theorem SelectStage.cost_step {r : ReplicaRegistry} {lb lb' : LoadBalancer} {prompt : String}
    {excluded : List String} {draws : List ℕ} {s s' : SelectStage}
    (hs : s.step hash r lb prompt excluded draws = some (lb', .stage s'))
    (hL : lb.ring.entries.length ≤ L) : s'.cost L < s.cost L := by
  cases s with
  | hashing =>
    simp only [SelectStage.step] at hs
    split_ifs at hs
    · cases hs
      simp only [SelectStage.cost]
      omega
    · cases hs
      simp only [SelectStage.cost, OrderedMap.length_clockwise]
      omega
  | walking points =>
    cases points with
    | nil =>
      cases hs
      simp [SelectStage.cost]
    | cons id points =>
      simp only [SelectStage.step] at hs
      split at hs
      · cases hs
      · cases hs
        simp [SelectStage.cost]
  | leastConnections => cases hs

/-! ### One step of a call -/

theorem length_afterStream (id : String) (streamed : ℤ) :
    (InferCall.afterStream id streamed).length = 3 := rfl

/-- What is left after a stream: its three accesses, and the loop. -/
theorem budget_streamed (f : InferCall) (selection : Selection) (stream : ReplicaStream)
    (responses : List InferResponse) (streamed : ℤ) :
    (f.streamed selection stream responses streamed).budget L ≤
      3 + loopBudget L (f.attempt + 1) := by
  unfold InferCall.streamed
  dsimp only
  split_ifs
  · exact le_rfl
  · exact Nat.add_le_add_left (Nat.zero_le _) _
  · exact le_rfl

theorem InferMove.budget (h : InferMove hash g c f g' f') (hpending : f.pending = [])
    (hL : g.lb.ring.entries.length ≤ L) : f'.budget L < f.budget L := by
  have hpos := loopBudget_pos L f.attempt
  cases h with
  | cancel hstage =>
    simp only [InferCall.budget, InferCall.goto, hpending, hstage, InferStage.budget]
    omega
  | select hstage hattempt =>
    simp only [InferCall.budget, InferCall.goto, hpending, hstage, InferStage.budget,
      loopBudget_of_lt hattempt, SelectStage.cost_hashing]
    omega
  | leave hstage =>
    simp only [InferCall.budget, InferCall.goto, hpending, hstage, InferStage.budget]
    omega
  | scan hstage hscan | rescan hstage hscan =>
    have hlt := SelectStage.cost_step hscan hL
    simp only [InferCall.budget, InferCall.goto, hpending, hstage, InferStage.budget]
    omega
  | @starve s _ hstage | @choose s _ _ hstage | @rechoose s _ _ hstage =>
    have hcost := s.cost_pos L
    simp only [InferCall.budget, InferCall.goto, hpending, hstage, InferStage.budget]
    omega
  | reject hstage | giveUp hstage =>
    simp only [InferCall.budget, InferCall.goto, hpending, hstage, InferStage.budget]
    omega
  | pass hstage | serve hstage =>
    simp only [InferCall.budget, InferCall.goto, hpending, hstage, InferStage.budget,
      SelectStage.cost_hashing]
    omega
  | block hstage =>
    simp only [InferCall.budget, InferCall.goto, hpending, hstage, InferStage.budget]
    omega
  | @retry s _ hstage =>
    have hcost := s.cost_pos L
    simp only [InferCall.budget, InferCall.goto, hpending, hstage, InferStage.budget]
    omega
  | allow hstage =>
    simp only [InferCall.budget, InferCall.goto, hpending, hstage, InferStage.budget,
      List.length_cons, List.length_nil]
    omega
  | refuse hstage =>
    simp only [InferCall.budget, InferCall.retryWithout, hpending, hstage, InferStage.budget]
    omega
  | @stream selection hstage =>
    have hle := budget_streamed (L := L) f selection c.stream
      (streamFromReplica selection.replicaId c.stream).1
      (streamFromReplica selection.replicaId c.stream).2
    have hthis : f.budget L = 4 + loopBudget L (f.attempt + 1) := by
      simp only [InferCall.budget, hpending, hstage, InferStage.budget, List.length_nil]
      omega
    omega

theorem Race.budget_threadStep {r r' : Race} {a : Actor} {request : ℕ → GenerateRequest}
    {firstRead : Option GenerateResponse} (hs : r.threadStep a request firstRead = some r') :
    r'.budget < r.budget := by
  obtain ⟨⟨x, id⟩, hx, hs⟩ := Option.bind_eq_some_iff.mp hs
  have hset : ∀ (y : Racer) (r₁ : Race), r₁.first = (r.setRacer a y).first →
      r₁.second = (r.setRacer a y).second → y.thread.budget < x.thread.budget →
      r₁.budget < r.budget := by
    intro y r₁ hfirst hsecond hy
    unfold Race.budget
    rw [hfirst, hsecond]
    cases a <;> cases hx <;> simp only [Race.setRacer] <;> omega
  dsimp only at hs
  cases hthread : x.thread with
  | reading =>
    rw [hthread] at hset hs
    dsimp only at hs
    split at hs
    · cases hs
      exact hset _ _ rfl rfl (by simp [RaceThread.budget])
    · split_ifs at hs
      cases hs
      exact hset _ _ rfl rfl (by simp [RaceThread.budget])
  | swapping =>
    rw [hthread] at hset hs
    dsimp only at hs
    split_ifs at hs
    · cases hs
      exact hset _ _ rfl rfl (by simp [RaceThread.budget])
    · cases hs
      exact hset { x with thread := .setting } _ rfl rfl (by simp [RaceThread.budget])
  | setting =>
    rw [hthread] at hset hs
    cases hs
    exact hset { x with thread := .finished } _ rfl rfl (by simp [RaceThread.budget])
  | finished =>
    rw [hthread] at hs
    cases hs

/-- After the race there are at most four accesses, and the stream of a winner. -/
theorem budget_afterRace (f : InferCall) (r : Race) (winnerId : ℕ) :
    (f.afterRace r winnerId).budget L ≤ 7 := by
  unfold InferCall.afterRace
  dsimp only
  split
  · exact (by decide : 4 ≤ 7)
  · exact (by decide : 4 ≤ 7)
  · unfold InferCall.budget
    dsimp only [HedgeStage.budget]
    rw [List.length_append]
    split_ifs <;> simp

theorem HedgeMove.budget {s : HedgeStage} (h : HedgeMove hash g c f s g' f')
    (hstage : f.stage = .hedged s) (hpending : f.pending = [])
    (hL : g.lb.ring.entries.length ≤ L) : f'.budget L < f.budget L := by
  cases h with
  | scan hscan | rescan hscan =>
    have hlt := SelectStage.cost_step hscan hL
    simp only [InferCall.budget, InferCall.hedge, hpending, hstage, HedgeStage.budget]
    omega
  | @starve s =>
    have hcost := s.cost_pos L
    simp only [InferCall.budget, InferCall.hedge, hpending, hstage, HedgeStage.budget]
    omega
  | @choose s =>
    have hcost := s.cost_pos L
    simp only [InferCall.budget, InferCall.hedge, hpending, hstage, HedgeStage.budget,
      SelectStage.cost_hashing]
    omega
  | @alone _ s | @pair _ _ s =>
    have hcost := s.cost_pos L
    simp only [InferCall.budget, InferCall.hedge, hpending, hstage, HedgeStage.budget,
      List.length_cons, List.length_nil]
    omega
  | stream =>
    simp only [InferCall.budget, hpending, hstage, HedgeStage.budget, length_afterStream,
      List.length_nil]
    omega
  | start =>
    simp only [InferCall.budget, InferCall.hedge, hpending, hstage, HedgeStage.budget, Race.budget,
      RaceThread.budget]
    omega
  | take | giveUp =>
    simp only [InferCall.budget, InferCall.hedge, hpending, hstage, HedgeStage.budget]
    omega
  | race _ hthread | late _ hthread =>
    have hlt := Race.budget_threadStep hthread
    simp only [InferCall.budget, InferCall.hedge, hpending, hstage, HedgeStage.budget]
    omega
  | @join r winnerId =>
    have hle := budget_afterRace (L := L) f r winnerId
    have hthis : f.budget L = r.budget + 8 := by
      simp only [InferCall.budget, hpending, hstage, HedgeStage.budget, List.length_nil]
      omega
    omega
  | forward =>
    simp only [InferCall.budget, hpending, hstage, HedgeStage.budget, List.length_cons,
      List.length_nil]
    omega

/-- **One step of a call** lowers its budget. -/
theorem InferCall.budget_step (hs : f.step hash g c = some (g', f'))
    (hL : g.lb.ring.entries.length ≤ L) : f'.budget L < f.budget L := by
  cases stepMove hs with
  | pending hpending =>
    simp only [InferCall.budget, hpending, List.length_cons]
    omega
  | enter hpending hstage =>
    have hle := loopBudget_le L f.attempt
    simp only [InferCall.budget, InferCall.goto, hpending, hstage, InferStage.budget]
    omega
  | enterHedged hpending hstage =>
    have hzero := loopBudget_zero L
    simp only [InferCall.budget, InferCall.hedge, hpending, hstage, HedgeStage.budget,
      SelectStage.cost_hashing]
    omega
  | infer hpending hmove => exact hmove.budget hpending hL
  | hedged hpending hstage hhedge => exact (hedgeMove hhedge).budget hstage hpending hL

theorem RebuildCall.budget_step {b b' : RebuildCall} (hs : b.step hash g = some (g', b')) :
    b'.budget < b.budget := by
  cases b with
  | entered =>
    cases hs
    exact Nat.lt_succ_self _
  | replacing alive =>
    obtain ⟨lb, -, heq⟩ := Option.map_eq_some_iff.mp hs
    cases heq
    exact Nat.one_pos
  | done => cases hs

theorem GatewayCall.budget_step {t t' : GatewayCall}
    (hs : (gatewayProgram hash).call g t c = some (g', t'))
    (hL : g.lb.ring.entries.length ≤ L) : t'.budget L < t.budget L := by
  cases t with
  | infer f =>
    obtain ⟨⟨g₁, f'⟩, hf, heq⟩ := Option.map_eq_some_iff.mp hs
    cases heq
    exact f.budget_step hf hL
  | rebuildRing b =>
    obtain ⟨⟨g₁, b'⟩, hb, heq⟩ := Option.map_eq_some_iff.mp hs
    cases heq
    exact RebuildCall.budget_step hb

theorem budget_start (L : ℕ) (x : GatewayRequest) :
    ((gatewayProgram hash).start x).budget L ≤ 6 * L + 47 := by
  cases x with
  | infer request =>
    show 0 + (loopBudget L 0 + 1) ≤ _
    rw [loopBudget_zero]
    omega
  | rebuildRing =>
    show 2 ≤ _
    omega

/-! ## The size of the ring -/

theorem length_placeReplica_le (hash : List UInt8 → ℕ) (lb : LoadBalancer) (ring : OrderedMap ℕ String) (id : String) :
    (lb.placeReplica hash ring id).entries.length ≤ lb.virtualNodes.toNat + ring.entries.length := by
  unfold LoadBalancer.placeReplica
  have hle : ∀ (nodes : List ℕ) (ring : OrderedMap ℕ String),
      (nodes.foldl (fun ring i => ring.insert (hash (bytes (id ++ "#" ++ toString i))) id)
        ring).entries.length ≤ nodes.length + ring.entries.length := by
    intro nodes
    induction nodes with
    | nil => intro ring; exact (Nat.zero_add _).ge
    | cons i nodes ih =>
      intro ring
      have hinsert := ring.length_insert_le (hash (bytes (id ++ "#" ++ toString i))) id
      have hrest := ih (ring.insert (hash (bytes (id ++ "#" ++ toString i))) id)
      rw [List.foldl_cons, List.length_cons]
      omega
  have hnodes := hle (List.range lb.virtualNodes.toNat) ring
  rwa [List.length_range] at hnodes

/-- The ring has its number of virtual nodes for each replica of the snapshot, or fewer. -/
theorem length_replaceRing_le {lb lb' : LoadBalancer} {alive : List (String × ReplicaInfo)}
    (hring : lb.replaceRing hash alive = some lb') :
    lb'.ring.entries.length ≤ lb.virtualNodes.toNat * alive.length ∧
      lb'.virtualNodes = lb.virtualNodes := by
  unfold LoadBalancer.replaceRing at hring
  split_ifs at hring
  cases hring
  refine ⟨?_, rfl⟩
  have hle : ∀ (alive : List (String × ReplicaInfo)) (ring : OrderedMap ℕ String),
      (alive.foldl (fun ring e => lb.placeReplica hash ring e.1) ring).entries.length ≤
        lb.virtualNodes.toNat * alive.length + ring.entries.length := by
    intro alive
    induction alive with
    | nil => intro ring; exact (Nat.zero_add _).ge
    | cons e alive ih =>
      intro ring
      have hplace := length_placeReplica_le hash lb ring e.1
      have hrest := ih (lb.placeReplica hash ring e.1)
      rw [List.foldl_cons, List.length_cons, Nat.mul_add]
      omega
  exact hle alive .empty

/-- The ring and the snapshots of it are no larger than what the registry allows. -/
structure RingBounded (V : ℤ) (p : GatewayPool) : Prop where
  nodes : p.shared.lb.virtualNodes = V
  ring : p.shared.lb.ring.entries.length ≤ V.toNat * p.shared.registry.size
  snapshots : ∀ alive, .rebuildRing (.replacing alive) ∈ p.calls →
    alive.length ≤ p.shared.registry.size

theorem SelectStage.step_ring {r : ReplicaRegistry} {lb lb' : LoadBalancer} {prompt : String}
    {excluded : List String} {draws : List ℕ} {s : SelectStage} {next : SelectNext}
    (hs : s.step hash r lb prompt excluded draws = some (lb', next)) :
    lb'.ring = lb.ring ∧ lb'.virtualNodes = lb.virtualNodes := by
  cases s with
  | hashing =>
    simp only [SelectStage.step] at hs
    split_ifs at hs <;> cases hs <;> exact ⟨rfl, rfl⟩
  | walking points =>
    cases points with
    | nil =>
      cases hs
      exact ⟨rfl, rfl⟩
    | cons id points =>
      simp only [SelectStage.step] at hs
      split at hs <;> cases hs <;> exact ⟨rfl, rfl⟩
  | leastConnections =>
    cases hs
    exact ⟨rfl, rfl⟩

theorem InferCall.step_ring (hs : f.step hash g c = some (g', f')) :
    g'.lb.ring = g.lb.ring ∧ g'.lb.virtualNodes = g.lb.virtualNodes ∧
      g'.registry.size = g.registry.size := by
  cases stepMove hs with
  | @pending op ops =>
    cases op with
    | incrementActive id | decrementActive id =>
      exact ⟨rfl, rfl, ReplicaRegistry.size_modify _⟩
    | notifyCapacityAvailable | recordSuccess id | recordFailure id => exact ⟨rfl, rfl, rfl⟩
  | enter | enterHedged => exact ⟨rfl, rfl, rfl⟩
  | infer _ hmove =>
    cases hmove with
    | scan _ hselect | starve _ hselect | choose _ hselect | rescan _ hselect | retry _ hselect
    | rechoose _ hselect =>
      obtain ⟨hring, hnodes⟩ := SelectStage.step_ring hselect
      exact ⟨hring, hnodes, rfl⟩
    | _ => exact ⟨rfl, rfl, rfl⟩
  | hedged _ _ hhedge =>
    cases hedgeMove hhedge with
    | scan hselect | starve hselect | choose hselect | rescan hselect | alone hselect
    | pair hselect =>
      obtain ⟨hring, hnodes⟩ := SelectStage.step_ring hselect
      exact ⟨hring, hnodes, rfl⟩
    | _ => exact ⟨rfl, rfl, rfl⟩

theorem GatewayCall.step_size {t t' : GatewayCall}
    (hs : (gatewayProgram hash).call g t c = some (g', t')) :
    g'.registry.size = g.registry.size := by
  rcases gatewayCall_cases hs with ⟨f, f', -, -, hf⟩ | ⟨b, b', -, -, hregistry, -⟩
  · exact (f.step_ring hf).2.2
  · rw [hregistry]

theorem size_le_event (g : GatewayState) (d : GatewayEvent) :
    g.registry.size ≤ (d.apply g).registry.size := by
  cases d with
  | tick ns => exact le_rfl
  | updateFromGossip id u => exact ReplicaRegistry.size_le_updateFromGossip u
  | setDraining id draining => exact (ReplicaRegistry.size_modify _).ge
  | setGrpcAddress id address => exact ReplicaRegistry.size_le_set

theorem size_le_step {p p' : GatewayPool} {l : GatewayLabel}
    (hs : (gatewayProgram hash).step p l = some p') :
    p.shared.registry.size ≤ p'.shared.registry.size := by
  cases Program.step_cases hs with
  | spawn x => exact le_rfl
  | call _ ht => exact (GatewayCall.step_size ht).ge
  | @env d g' henv =>
    cases henv
    exact size_le_event p.shared d

theorem size_le_run {p q : GatewayPool} {es : List GatewayLabel}
    (hrun : Run (gatewayProgram hash).step p es q) :
    p.shared.registry.size ≤ q.shared.registry.size := by
  induction hrun with
  | nil => exact le_rfl
  | snoc _ hs ih => exact ih.trans (size_le_step hs)

theorem ringBounded_call {t t' : GatewayCall} {virtualNodes : ℤ}
    (hs : (gatewayProgram hash).call g t c = some (g', t'))
    (hnodes : g.lb.virtualNodes = virtualNodes)
    (hring : g.lb.ring.entries.length ≤ virtualNodes.toNat * g.registry.size)
    (hsnapshot : ∀ alive, t = .rebuildRing (.replacing alive) → alive.length ≤ g.registry.size) :
    g'.lb.virtualNodes = virtualNodes ∧
      g'.lb.ring.entries.length ≤ virtualNodes.toNat * g.registry.size ∧
      ∀ alive, t' = .rebuildRing (.replacing alive) → alive.length ≤ g.registry.size := by
  cases t with
  | infer f =>
    obtain ⟨⟨g₁, f'⟩, hf, heq⟩ := Option.map_eq_some_iff.mp hs
    cases heq
    obtain ⟨hsame, hsame', -⟩ := f.step_ring hf
    rw [hsame, hsame']
    exact ⟨hnodes, hring, nofun⟩
  | rebuildRing b =>
    obtain ⟨⟨g₁, b'⟩, hb, heq⟩ := Option.map_eq_some_iff.mp hs
    cases heq
    cases b with
    | entered =>
      cases hb
      refine ⟨hnodes, hring, ?_⟩
      rintro alive ⟨⟩
      exact g.registry.length_getAliveReplicas_le
    | replacing alive =>
      obtain ⟨lb, hlb, heq⟩ := Option.map_eq_some_iff.mp hb
      cases heq
      obtain ⟨hle, hkeep⟩ := length_replaceRing_le hlb
      rw [hnodes] at hle hkeep
      exact ⟨hkeep, hle.trans (Nat.mul_le_mul_left _ (hsnapshot alive rfl)), nofun⟩
    | done => cases hb

theorem RingBounded.step {virtualNodes : ℤ} {p p' : GatewayPool} {l : GatewayLabel}
    (h : RingBounded virtualNodes p) (hs : (gatewayProgram hash).step p l = some p') :
    RingBounded virtualNodes p' := by
  have hsize := size_le_step hs
  cases Program.step_cases hs with
  | spawn x =>
    refine ⟨h.nodes, h.ring, ?_⟩
    intro alive hmem
    rcases List.mem_append.mp hmem with hmem | hmem
    · exact h.snapshots alive hmem
    · cases x <;> cases List.mem_singleton.mp hmem
  | @call i c t t' g' hi ht =>
    obtain ⟨hnodes, hring, hsnapshot⟩ := ringBounded_call ht h.nodes h.ring
      fun alive heq => h.snapshots alive (heq ▸ List.mem_of_getElem? hi)
    refine ⟨hnodes, hring.trans (Nat.mul_le_mul_left _ hsize), ?_⟩
    intro alive hmem
    rcases List.mem_or_eq_of_mem_set hmem with hmem | heq
    · exact (h.snapshots alive hmem).trans hsize
    · exact (hsnapshot alive heq.symm).trans hsize
  | @env d g' henv =>
    cases henv
    have hlb : (d.apply p.shared).lb = p.shared.lb := by cases d <;> rfl
    refine ⟨by rw [hlb]; exact h.nodes, ?_, fun alive hmem => ?_⟩
    · rw [hlb]
      exact h.ring.trans (Nat.mul_le_mul_left _ hsize)
    · exact (h.snapshots alive hmem).trans hsize

theorem ringBounded_new (virtualNodes : ℤ) (config : CircuitBreaker.Config) (maxSize : ℤ) :
    RingBounded virtualNodes (newGateway virtualNodes config maxSize) :=
  ⟨rfl, Nat.zero_le _, by rintro alive ⟨⟩⟩

/-- **Bounded work.** In every run of a gateway, whatever the other calls, the gossip layer and the
clock do, a call of `Infer`, hedged or not, takes at most `6 * V * n + 47` steps, where `V` is the
number of virtual nodes and `n` that of the replicas in the registry at the end. -/
theorem work_bounded (hash : List UInt8 → ℕ) (virtualNodes : ℤ) (config : CircuitBreaker.Config)
    (maxSize : ℤ) (es : List GatewayLabel) (p : GatewayPool)
    (hrun : Run (gatewayProgram hash).step (newGateway virtualNodes config maxSize) es p) (i : ℕ) :
    stepCount (gatewayProgram hash).step (Program.takenBy i)
      (newGateway virtualNodes config maxSize) es ≤
        6 * (virtualNodes.toNat * p.shared.registry.size) + 47 := by
  have hL : Always (gatewayProgram hash).step (newGateway virtualNodes config maxSize) es fun _ q =>
      q.shared.lb.ring.entries.length ≤ virtualNodes.toNat * p.shared.registry.size := by
    rintro pre q ⟨rest, rfl⟩ hpre
    obtain ⟨q', hpre', hrest⟩ := hrun.split
    obtain rfl := hpre'.deterministic hpre
    have hbounded := hpre.invariant (ringBounded_new virtualNodes config maxSize)
      fun _ _ _ h hs => h.step hs
    exact hbounded.ring.trans (Nat.mul_le_mul_left _ (size_le_run hrest))
  have hwork := Program.work_le (budget_start _) (fun _ _ _ _ _ hL hs =>
    GatewayCall.budget_step hs hL) hrun hL i
  exact (Nat.le_add_right _ _).trans hwork

theorem work_bounded_hedged :
    stepCount (gatewayProgram fun _ => 0).step (Program.takenBy 0) (newGateway 1 {} 100)
      hedgedStart ≤ 59 := by
  have hrun : Run (gatewayProgram fun _ => 0).step (newGateway 1 {} 100) hedgedStart _ :=
    run_get (by decide +kernel)
  exact (work_bounded _ 1 {} 100 hedgedStart _ hrun 0).trans (by decide +kernel)

/-! ## The mutex of the ring -/

/-- The walk around the ring has the mutex. -/
def SelectStage.holdsMutex : SelectStage → Bool
  | .walking _ => true
  | _ => false

def SelectNext.holdsMutex : SelectNext → Bool
  | .stage s => s.holdsMutex
  | .selected _ => false

/-- The selection a call is in. -/
def Stage.selection : Stage → Option SelectStage
  | .infer (.selecting s) | .infer (.reselecting s) => some s
  | .hedged (.selecting s) | .hedged (.selectingSecond _ s) => some s
  | _ => none

def InferCall.holdsMutex (f : InferCall) : Bool := f.stage.selection.any SelectStage.holdsMutex

def GatewayCall.holdsMutex : GatewayCall → Bool
  | .infer f => f.holdsMutex
  | .rebuildRing _ => false

/-- The mutex is held by exactly one walk, or it is free and there is none. -/
def LockHeld (p : GatewayPool) : Prop :=
  p.calls.countP GatewayCall.holdsMutex = p.shared.lb.ringLocked.toNat

theorem SelectStage.lock_step {r : ReplicaRegistry} {lb lb' : LoadBalancer} {prompt : String}
    {excluded : List String} {draws : List ℕ} {s : SelectStage} {next : SelectNext}
    (hs : s.step hash r lb prompt excluded draws = some (lb', next))
    (hheld : s.holdsMutex → lb.ringLocked = true) :
    lb'.ringLocked.toNat + s.holdsMutex.toNat = lb.ringLocked.toNat + next.holdsMutex.toNat := by
  cases s with
  | hashing =>
    simp only [SelectStage.step] at hs
    split_ifs at hs with hlocked
    · cases hs
      rfl
    · cases hs
      rw [Bool.eq_false_iff.mpr hlocked]
      rfl
  | walking points =>
    have hlocked := hheld rfl
    cases points with
    | nil =>
      cases hs
      rw [hlocked]
      rfl
    | cons id points =>
      simp only [SelectStage.step] at hs
      split at hs
      · cases hs
        rw [hlocked]
        rfl
      · cases hs
        rfl
  | leastConnections =>
    cases hs
    rfl

theorem holdsMutex_afterRace (f : InferCall) (r : Race) (winnerId : ℕ) :
    (f.afterRace r winnerId).holdsMutex = false := by
  unfold InferCall.afterRace
  dsimp only
  split <;> rfl

theorem InferMove.lock (h : InferMove hash g c f g' f')
    (hheld : f.holdsMutex → g.lb.ringLocked = true) :
    g'.lb.ringLocked.toNat + f.holdsMutex.toNat = g.lb.ringLocked.toNat + f'.holdsMutex.toNat := by
  cases h with
  | scan hstage hselect | starve hstage hselect | choose hstage hselect | rescan hstage hselect
  | retry hstage hselect | rechoose hstage hselect =>
    unfold InferCall.holdsMutex at hheld ⊢
    rw [hstage] at hheld ⊢
    exact SelectStage.lock_step hselect hheld
  | stream hstage =>
    unfold InferCall.holdsMutex
    rw [hstage]
    rcases stage_streamed f _ c.stream _ _ with hnext | hnext <;> rw [hnext] <;> rfl
  | cancel hstage | select hstage | leave hstage | reject hstage | pass hstage | block hstage
  | serve hstage | giveUp hstage | allow hstage | refuse hstage =>
    unfold InferCall.holdsMutex
    rw [hstage]
    rfl

theorem HedgeMove.lock {s : HedgeStage} (h : HedgeMove hash g c f s g' f')
    (hstage : f.stage = .hedged s) (hheld : f.holdsMutex → g.lb.ringLocked = true) :
    g'.lb.ringLocked.toNat + f.holdsMutex.toNat = g.lb.ringLocked.toNat + f'.holdsMutex.toNat := by
  cases h with
  | scan hselect | starve hselect | choose hselect | rescan hselect | alone hselect
  | pair hselect =>
    unfold InferCall.holdsMutex at hheld ⊢
    rw [hstage] at hheld ⊢
    exact SelectStage.lock_step hselect hheld
  | join =>
    rw [holdsMutex_afterRace]
    unfold InferCall.holdsMutex
    rw [hstage]
    rfl
  | stream | start | take | giveUp | race | late | forward =>
    unfold InferCall.holdsMutex
    rw [hstage]
    rfl

theorem InferCall.lock_step (hs : f.step hash g c = some (g', f'))
    (hheld : f.holdsMutex → g.lb.ringLocked = true) :
    g'.lb.ringLocked.toNat + f.holdsMutex.toNat = g.lb.ringLocked.toNat + f'.holdsMutex.toNat := by
  cases stepMove hs with
  | @pending op ops =>
    cases op <;> rfl
  | enter _ hstage | enterHedged _ hstage =>
    unfold InferCall.holdsMutex
    rw [hstage]
    rfl
  | infer _ hmove => exact hmove.lock hheld
  | hedged _ hstage hhedge => exact (hedgeMove hhedge).lock hstage hheld

theorem GatewayCall.lock_step {t t' : GatewayCall}
    (hs : (gatewayProgram hash).call g t c = some (g', t'))
    (hheld : t.holdsMutex → g.lb.ringLocked = true) :
    g'.lb.ringLocked.toNat + t.holdsMutex.toNat = g.lb.ringLocked.toNat + t'.holdsMutex.toNat := by
  cases t with
  | infer f =>
    obtain ⟨⟨g₁, f'⟩, hf, heq⟩ := Option.map_eq_some_iff.mp hs
    cases heq
    exact f.lock_step hf hheld
  | rebuildRing b =>
    obtain ⟨⟨g₁, b'⟩, hb, heq⟩ := Option.map_eq_some_iff.mp hs
    cases heq
    cases b with
    | entered =>
      cases hb
      rfl
    | replacing alive =>
      obtain ⟨lb, hlb, heq⟩ := Option.map_eq_some_iff.mp hb
      cases heq
      unfold LoadBalancer.replaceRing at hlb
      split_ifs at hlb
      cases hlb
      rfl
    | done => cases hb

theorem LockHeld.held {p : GatewayPool} (h : LockHeld p) {t : GatewayCall} (ht : t ∈ p.calls)
    (hholds : t.holdsMutex) : p.shared.lb.ringLocked = true := by
  have hpos := List.countP_pos_iff.mpr ⟨t, ht, hholds⟩
  rw [show p.calls.countP GatewayCall.holdsMutex = _ from h] at hpos
  cases hlocked : p.shared.lb.ringLocked with
  | true => rfl
  | false =>
    rw [hlocked] at hpos
    exact absurd hpos (Nat.lt_irrefl 0)

/-- **Mutual exclusion.** -/
theorem LockHeld.step {p p' : GatewayPool} {l : GatewayLabel} (h : LockHeld p)
    (hs : (gatewayProgram hash).step p l = some p') : LockHeld p' := by
  have hcount : p.calls.countP GatewayCall.holdsMutex = p.shared.lb.ringLocked.toNat := h
  unfold LockHeld
  cases Program.step_cases hs with
  | spawn x =>
    have hidle : ((gatewayProgram hash).start x).holdsMutex = false := by cases x <;> rfl
    simp [List.countP_append, hidle, hcount]
  | @call i c t t' g' hi ht =>
    have hlock := GatewayCall.lock_step ht (h.held (List.mem_of_getElem? hi))
    have htoNat : ∀ b : Bool, (if b then 1 else 0) = b.toNat := by decide
    have hset : (p.calls.set i t').countP GatewayCall.holdsMutex + (if t.holdsMutex then 1 else 0) =
        p.calls.countP GatewayCall.holdsMutex + if t'.holdsMutex then 1 else 0 :=
      Program.countP_set hi
    rw [htoNat, htoNat] at hset
    dsimp only
    omega
  | @env d g' henv =>
    cases henv
    rw [show p.calls.countP GatewayCall.holdsMutex = _ from hcount]
    cases d <;> rfl

theorem lockHeld_of_run {g₀ : GatewayState} (hfree : g₀.lb.ringLocked = false)
    {es : List GatewayLabel} {p : GatewayPool}
    (hrun : Run (gatewayProgram hash).step ⟨g₀, []⟩ es p) : LockHeld p :=
  hrun.invariant (by unfold LockHeld; rw [hfree]; rfl) fun _ _ _ h hs => h.step hs

/-! ## What a call can always do -/

/-- A first token is one the replica sends for the request. -/
def InferCall.SentFirst (f : InferCall) (tok : GenerateResponse) : Prop :=
  [tok] <+: generateResponses 0 f.request.maxTokens

/-- The first tokens of a race have been read from the replicas. -/
def InferCall.Fed (f : InferCall) : Prop :=
  match f.stage with
  | .hedged (.waiting r) | .hedged (.joining r _) =>
    (∀ tok ∈ r.first.firstToken, f.SentFirst tok) ∧ ∀ tok ∈ r.second.firstToken, f.SentFirst tok
  | .hedged (.forwarding _ _ tok) => f.SentFirst tok
  | _ => True

theorem InferCall.Fed.threadStep {r r' : Race} {a : Actor} {firstRead : Option GenerateResponse}
    (hfirst : ∀ tok ∈ r.first.firstToken, f.SentFirst tok)
    (hsecond : ∀ tok ∈ r.second.firstToken, f.SentFirst tok)
    (hs : r.threadStep a (hedgeRequest f.request.prompt f.request.maxTokens) firstRead = some r') :
    (∀ tok ∈ r'.first.firstToken, f.SentFirst tok) ∧
      ∀ tok ∈ r'.second.firstToken, f.SentFirst tok := by
  obtain ⟨⟨x, id⟩, hx, hs⟩ := Option.bind_eq_some_iff.mp hs
  have hracer : ∀ tok ∈ x.firstToken, f.SentFirst tok := by
    cases a <;> cases hx
    · exact hfirst
    · exact hsecond
  have hset : ∀ (y : Racer) (r₁ : Race), r₁.first = (r.setRacer a y).first →
      r₁.second = (r.setRacer a y).second → (∀ tok ∈ y.firstToken, f.SentFirst tok) →
      (∀ tok ∈ r₁.first.firstToken, f.SentFirst tok) ∧
        ∀ tok ∈ r₁.second.firstToken, f.SentFirst tok := by
    intro y r₁ h₁ h₂ hy
    rw [h₁, h₂]
    cases a <;> cases hx
    · exact ⟨hy, hsecond⟩
    · exact ⟨hfirst, hy⟩
  dsimp only at hs
  cases hthread : x.thread with
  | reading =>
    rw [hthread] at hs
    dsimp only at hs
    split at hs
    · cases hs
      exact hset _ _ rfl rfl hracer
    · split_ifs at hs with hserves
      cases hs
      refine hset _ _ rfl rfl ?_
      rintro tok ⟨⟩
      exact hserves
  | swapping =>
    rw [hthread] at hs
    dsimp only at hs
    split_ifs at hs
    · cases hs
      exact hset _ _ rfl rfl hracer
    · cases hs
      exact hset { x with thread := .setting } _ rfl rfl hracer
  | setting =>
    rw [hthread] at hs
    cases hs
    exact hset { x with thread := .finished } _ rfl rfl hracer
  | finished =>
    rw [hthread] at hs
    cases hs

theorem InferCall.Fed.afterRace {r : Race} {winnerId : ℕ}
    (hfirst : ∀ tok ∈ r.first.firstToken, f.SentFirst tok)
    (hsecond : ∀ tok ∈ r.second.firstToken, f.SentFirst tok) : (f.afterRace r winnerId).Fed := by
  unfold InferCall.afterRace
  dsimp only
  split
  · trivial
  · trivial
  · rename_i firstToken _ hwinner
    show f.SentFirst firstToken
    split_ifs at hwinner
    · exact hfirst _ hwinner
    · exact hsecond _ hwinner

theorem InferCall.fed_of_infer {s : InferStage} (h : f.stage = .infer s) : f.Fed := by
  unfold InferCall.Fed
  rw [h]
  trivial

theorem InferCall.Fed.step (h : f.Fed) (hs : f.step hash g c = some (g', f')) : f'.Fed := by
  cases stepMove hs with
  | pending => exact h
  | enter | enterHedged => trivial
  | infer _ hmove =>
    cases hmove with
    | @stream selection =>
      rcases stage_streamed f selection c.stream (streamFromReplica selection.replicaId c.stream).1
        (streamFromReplica selection.replicaId c.stream).2 with hnext | hnext <;>
        exact fed_of_infer hnext
    | _ => trivial
  | hedged _ hstage hhedge =>
    unfold InferCall.Fed at h
    rw [hstage] at h
    cases hedgeMove hhedge with
    | take | giveUp => exact h
    | race _ hthread | late _ hthread => exact Fed.threadStep h.1 h.2 hthread
    | join => exact Fed.afterRace h.1 h.2
    | start =>
      show (∀ tok ∈ (none : Option GenerateResponse), f.SentFirst tok) ∧
        ∀ tok ∈ (none : Option GenerateResponse), f.SentFirst tok
      simp
    | _ => trivial

theorem fed_of_run {g₀ : GatewayState} {es : List GatewayLabel} {p : GatewayPool}
    (hrun : Run (gatewayProgram hash).step ⟨g₀, []⟩ es p) (hf : .infer f ∈ p.calls) : f.Fed :=
  inferCall_invariant (fun _ => trivial) (fun _ _ _ _ _ h hs => h.step hs) hrun hf

theorem SelectStage.enabled (hash : List UInt8 → ℕ) (r : ReplicaRegistry) (prompt : String)
    (excluded : List String) (draws : List ℕ) {lb : LoadBalancer} {s : SelectStage}
    (hfree : s = .hashing → lb.ringLocked = false) :
    ∃ lb' next, s.step hash r lb prompt excluded draws = some (lb', next) := by
  cases s with
  | hashing =>
    simp only [SelectStage.step, hfree rfl, Bool.false_eq_true, if_false]
    split_ifs
    · exact ⟨_, _, rfl⟩
    · exact ⟨_, _, rfl⟩
  | walking points =>
    cases points with
    | nil => exact ⟨_, _, rfl⟩
    | cons id points =>
      simp only [SelectStage.step]
      cases r.candidate excluded id with
      | some selection => exact ⟨_, _, rfl⟩
      | none => exact ⟨_, _, rfl⟩
  | leastConnections => exact ⟨_, _, rfl⟩

/-- A race thread that is not done can go on, if only to find that its replica sends nothing. -/
theorem Race.thread_enabled {r : Race} {a : Actor} {x : Racer} {id : ℕ}
    (request : ℕ → GenerateRequest) (hx : r.racer a = some (x, id))
    (hopen : x.thread ≠ .finished) : ∃ r', r.threadStep a request none = some r' := by
  unfold Race.threadStep
  rw [hx, Option.bind_some]
  dsimp only
  cases hthread : x.thread with
  | reading => exact ⟨_, rfl⟩
  | swapping =>
    dsimp only
    split_ifs
    · exact ⟨_, rfl⟩
    · exact ⟨_, rfl⟩
  | setting => exact ⟨_, rfl⟩
  | finished => exact absurd hthread hopen

/-- An `Infer` that has not returned can take a step, once enough time has passed. -/
theorem InferCall.inferStep_enabled {s : InferStage} (hstage : f.stage = .infer s)
    (hopen : ∀ status, s ≠ .returned status)
    (hfree : f.stage.selection = some .hashing → g.lb.ringLocked = false) :
    ∃ ns c x, f.inferStep hash { g with now := g.now + ns } c s = some x := by
  rw [hstage] at hfree
  cases s with
  | looping =>
    simp only [inferStep]
    split_ifs
    · exact ⟨0, {}, _, rfl⟩
    · exact ⟨0, {}, _, rfl⟩
  | selecting s | reselecting s =>
    obtain ⟨lb, next, hselect⟩ := SelectStage.enabled hash g.registry f.request.prompt f.excluded []
      fun hs : s = .hashing => hfree (congrArg some hs)
    refine ⟨0, {}, ?_⟩
    simp only [inferStep, hselect, Option.map_some]
    exact ⟨_, rfl⟩
  | queueing => exact ⟨0, {}, _, rfl⟩
  | blocked t =>
    -- the deadline of the wait passes
    refine ⟨t.deadline.toNat, {}, ?_⟩
    simp only [inferStep, RequestQueue.wake]
    have hlate : t.deadline ≤ ((g.now + t.deadline.toNat : ℕ) : ℤ) := by omega
    rw [if_pos hlate]
    split_ifs
    · exact ⟨_, rfl⟩
    · exact ⟨_, rfl⟩
  | allowing selection => exact ⟨0, {}, _, rfl⟩
  | streaming selection =>
    refine ⟨0, {}, ?_⟩
    simp only [inferStep]
    rw [if_pos (show ReplicaStream.Serves {} _ from List.nil_prefix)]
    exact ⟨_, rfl⟩
  | returned status => exact absurd rfl (hopen status)

theorem InferCall.hedgeStep_enabled {s : HedgeStage} (hstage : f.stage = .hedged s) (hfed : f.Fed)
    (hopen : ∀ status, s ≠ .returned status)
    (hfree : f.stage.selection = some .hashing → g.lb.ringLocked = false) :
    ∃ ns c x, f.hedgeStep hash { g with now := g.now + ns } c s = some x := by
  unfold InferCall.Fed at hfed
  rw [hstage] at hfree hfed
  cases s with
  | selecting s =>
    obtain ⟨lb, next, hselect⟩ := SelectStage.enabled hash g.registry f.request.prompt [] []
      fun hs : s = .hashing => hfree (congrArg some hs)
    refine ⟨0, {}, ?_⟩
    simp only [hedgeStep, hselect, Option.map_some]
    exact ⟨_, rfl⟩
  | selectingSecond first s =>
    obtain ⟨lb, next, hselect⟩ := SelectStage.enabled hash g.registry
      (f.request.prompt ++ "_hedge") [first.replicaId] [] fun hs : s = .hashing =>
      hfree (congrArg some hs)
    refine ⟨0, {}, ?_⟩
    simp only [hedgeStep, hselect, Option.map_some]
    exact ⟨_, rfl⟩
  | single selection =>
    refine ⟨0, {}, ?_⟩
    simp only [hedgeStep]
    rw [if_pos (show ReplicaStream.Serves {} _ from List.nil_prefix)]
    exact ⟨_, rfl⟩
  | starting first second => exact ⟨0, {}, _, rfl⟩
  | waiting r =>
    -- the ten seconds pass
    refine ⟨r.deadline, {}, ?_⟩
    simp only [hedgeStep]
    cases r.promise with
    | some winnerId => exact ⟨_, rfl⟩
    | none =>
      dsimp only
      rw [if_pos (Nat.le_add_left _ _)]
      exact ⟨_, rfl⟩
  | joining r winnerId =>
    by_cases hfirst : r.first.thread = .finished
    · by_cases hsecond : r.second.thread = .finished
      · refine ⟨0, {}, ?_⟩
        simp only [hedgeStep]
        rw [if_pos ⟨hfirst, hsecond⟩]
        exact ⟨_, rfl⟩
      · obtain ⟨r', hr'⟩ := Race.thread_enabled (a := .second)
          (hedgeRequest f.request.prompt f.request.maxTokens) rfl hsecond
        exact ⟨0, { actor := .second }, _, by simp only [hedgeStep, hr', Option.map_some]; rfl⟩
    · obtain ⟨r', hr'⟩ := Race.thread_enabled (a := .first)
        (hedgeRequest f.request.prompt f.request.maxTokens) rfl hfirst
      exact ⟨0, { actor := .first }, _, by simp only [hedgeStep, hr', Option.map_some]; rfl⟩
  | forwarding winnerId winner firstToken =>
    have hserves : ReplicaStream.Serves ⟨[{ response := firstToken }], true⟩
        (hedgeRequest f.request.prompt f.request.maxTokens winnerId) := hfed
    refine ⟨0, {}, ?_⟩
    simp only [hedgeStep]
    rw [if_pos hserves]
    exact ⟨_, rfl⟩
  | returned status => exact absurd rfl (hopen status)

/-- **No call is stuck** that does not wait for the mutex. -/
theorem InferCall.enabled (hash : List UInt8 → ℕ) (hfed : f.Fed) (hopen : ¬ f.Finished)
    (hfree : f.stage.selection = some .hashing → g.lb.ringLocked = false) :
    ∃ ns c x, f.step hash { g with now := g.now + ns } c = some x := by
  cases hpending : f.pending with
  | cons op ops =>
    exact ⟨0, {}, _, by unfold step; rw [hpending]⟩
  | nil =>
    have hstatus : ∀ status, f.stage ≠ .infer (.returned status) ∧
        f.stage ≠ .hedged (.returned status) := fun status =>
      ⟨fun h => hopen ⟨hpending, status, Or.inl h⟩, fun h => hopen ⟨hpending, status, Or.inr h⟩⟩
    unfold step
    rw [hpending]
    cases hstage : f.stage with
    | entered =>
      dsimp only
      by_cases hhedge : f.request.hedge ∧ 2 ≤ g.registry.getAliveReplicas.length
      · exact ⟨0, {}, _, if_pos hhedge⟩
      · exact ⟨0, {}, _, if_neg hhedge⟩
    | infer s =>
      exact inferStep_enabled hstage (fun status h => (hstatus status).1 (by rw [hstage, h])) hfree
    | hedged s =>
      exact hedgeStep_enabled hstage hfed (fun status h => (hstatus status).2 (by rw [hstage, h]))
        hfree

/-! ## Draining the gateway -/

/-- A step of a call, or time passing. -/
def Quiet : GatewayLabel → Prop
  | .call _ _ | .env (.tick _) => True
  | _ => False

/-- The call has returned. -/
def GatewayCall.Returned : GatewayCall → Prop
  | .infer f => f.Finished
  | .rebuildRing b => b = .done

/-- What a gateway keeps while its calls go on: the mutex, the races and the size of the ring. -/
structure Draining (V : ℤ) (n : ℕ) (p : GatewayPool) : Prop where
  held : LockHeld p
  fed : ∀ f, .infer f ∈ p.calls → f.Fed
  bounded : RingBounded V p
  size : p.shared.registry.size = n

/-- Some call can go on, unless all have returned: one that walks, if the mutex is taken. -/
theorem Draining.exists_enabled (hash : List UInt8 → ℕ) {V : ℤ} {n : ℕ} {p : GatewayPool} (h : Draining V n p)
    (hopen : ¬ ∀ t ∈ p.calls, t.Returned) : ∃ (i : ℕ) (t : GatewayCall) (ns : ℕ) (c : InferChoice)
      (x : GatewayState × GatewayCall), p.calls[i]? = some t ∧
      (gatewayProgram hash).call { p.shared with now := p.shared.now + ns } t c = some x := by
  have hinfer : ∀ f, .infer f ∈ p.calls → ¬ f.Finished →
      (f.stage.selection = some .hashing → p.shared.lb.ringLocked = false) →
      ∃ (i : ℕ) (t : GatewayCall) (ns : ℕ) (c : InferChoice) (x : GatewayState × GatewayCall),
        p.calls[i]? = some t ∧
        (gatewayProgram hash).call { p.shared with now := p.shared.now + ns } t c = some x := by
    intro f hmem hfinished hfree
    obtain ⟨i, hi⟩ := List.mem_iff_getElem?.mp hmem
    obtain ⟨ns, c, x, hx⟩ := InferCall.enabled hash (h.fed f hmem) hfinished hfree
    exact ⟨i, .infer f, ns, c, (x.1, .infer x.2), hi, by simp only [gatewayProgram, hx]; rfl⟩
  cases hlocked : p.shared.lb.ringLocked with
  | true =>
    have hcount : p.calls.countP GatewayCall.holdsMutex = 1 := by
      rw [show p.calls.countP GatewayCall.holdsMutex = _ from h.held, hlocked]
      rfl
    obtain ⟨t, ht, hholds⟩ := List.countP_pos_iff.mp (hcount ▸ Nat.one_pos)
    cases t with
    | infer f =>
      have hwalks : f.stage.selection.any SelectStage.holdsMutex = true := hholds
      refine hinfer f ht ?_ fun hhash => ?_
      · rintro ⟨-, status, hstage | hstage⟩ <;> rw [hstage] at hwalks <;> cases hwalks
      · rw [hhash] at hwalks
        cases hwalks
    | rebuildRing b => cases hholds
  | false =>
    simp only [not_forall] at hopen
    obtain ⟨t, ht, hopen⟩ := hopen
    cases t with
    | infer f => exact hinfer f ht hopen fun _ => hlocked
    | rebuildRing b =>
      obtain ⟨i, hi⟩ := List.mem_iff_getElem?.mp ht
      cases b with
      | entered => exact ⟨i, _, 0, {}, _, hi, rfl⟩
      | replacing alive =>
        have hreplace : ∃ lb, p.shared.lb.replaceRing hash alive = some lb := by
          unfold LoadBalancer.replaceRing
          rw [hlocked]
          exact ⟨_, rfl⟩
        obtain ⟨lb, hlb⟩ := hreplace
        refine ⟨i, _, 0, {}, ({ p.shared with lb }, .rebuildRing .done), hi, ?_⟩
        simp only [gatewayProgram, RebuildCall.step, hlb]
        rfl
      | done => exact absurd rfl hopen

theorem Draining.step {V : ℤ} {n : ℕ} {p p' : GatewayPool} {l : GatewayLabel} (h : Draining V n p)
    (hl : Quiet l) (hs : (gatewayProgram hash).step p l = some p') : Draining V n p' := by
  refine ⟨h.held.step hs, ?_, h.bounded.step hs, ?_⟩
  · intro f hf
    cases Program.step_cases hs with
    | spawn x => cases hl
    | @call i c t t' g' hi ht =>
      rcases List.mem_or_eq_of_mem_set hf with hf | heq
      · exact h.fed f hf
      · rcases gatewayCall_cases ht with ⟨f₀, f', rfl, rfl, hstep⟩ | ⟨b, b', -, rfl, -⟩
        · cases heq
          exact (h.fed f₀ (List.mem_of_getElem? hi)).step hstep
        · cases heq
    | env henv => exact h.fed f hf
  · cases Program.step_cases hs with
    | spawn x => cases hl
    | call _ ht => exact (GatewayCall.step_size ht).trans h.size
    | @env d g' henv =>
      cases d with
      | tick ns =>
        cases henv
        exact h.size
      | _ => cases hl

/-- While a call has not returned, two quiet steps make the budgets smaller. -/
theorem Draining.progress (hash : List UInt8 → ℕ) {V : ℤ} {n : ℕ} {p : GatewayPool}
    (h : Draining V n p) (hopen : ¬ ∀ t ∈ p.calls, t.Returned) :
    ∃ fs q, (∀ l ∈ fs, Quiet l) ∧ Run (gatewayProgram hash).step p fs q ∧ Draining V n q ∧
      Program.totalBudget (GatewayCall.budget (V.toNat * n)) q <
        Program.totalBudget (GatewayCall.budget (V.toNat * n)) p := by
  obtain ⟨i, t, ns, c, ⟨g', t'⟩, hi, hcall⟩ := h.exists_enabled hash hopen
  have htick : (gatewayProgram hash).step p (.env (.tick ns)) =
      some ⟨{ p.shared with now := p.shared.now + ns }, p.calls⟩ := rfl
  have hstep : (gatewayProgram hash).step ⟨{ p.shared with now := p.shared.now + ns }, p.calls⟩
      (.call i c) = some ⟨g', p.calls.set i t'⟩ := Program.step_call hi hcall
  have hlater := h.step (l := .env (.tick ns)) trivial htick
  have hring : p.shared.lb.ring.entries.length ≤ V.toNat * n := by
    have hring := h.bounded.ring
    rwa [h.size] at hring
  refine ⟨[.env (.tick ns), .call i c], ⟨g', p.calls.set i t'⟩, ?_,
    (Run.snoc .nil htick).append (Run.snoc .nil hstep),
    hlater.step (l := .call i c) trivial hstep, ?_⟩
  · intro l hl
    rcases List.mem_cons.mp hl with rfl | hl
    · trivial
    · rw [List.mem_singleton.mp hl]
      trivial
  · -- the clock is no part of the budgets
    show Program.totalBudget _ _ < Program.totalBudget _
      (⟨{ p.shared with now := p.shared.now + ns }, p.calls⟩ : GatewayPool)
    exact Program.totalBudget_call (K := fun g => g.lb.ring.entries.length ≤ V.toNat * n)
      (fun _ _ _ _ _ hL hs => GatewayCall.budget_step hs hL) hring hstep

/-- **Every call can return.** From every reachable state of a gateway, the calls there are can all
be brought to their end by steps of their own while nothing but time passes: no call waits for one
that waits for it, and none waits for the gossip layer or for a new request. -/
theorem calls_drain (hash : List UInt8 → ℕ) (virtualNodes : ℤ) (config : CircuitBreaker.Config)
    (maxSize : ℤ) (es : List GatewayLabel) (p : GatewayPool)
    (hrun : Run (gatewayProgram hash).step (newGateway virtualNodes config maxSize) es p) :
    ∃ fs q, (∀ l ∈ fs, Quiet l) ∧ Run (gatewayProgram hash).step p fs q ∧
      ∀ t ∈ q.calls, t.Returned := by
  have hstart : Draining virtualNodes p.shared.registry.size p := by
    refine ⟨lockHeld_of_run rfl hrun, fun f hf => fed_of_run hrun hf, ?_, rfl⟩
    exact hrun.invariant (ringBounded_new virtualNodes config maxSize) fun _ _ _ h hs => h.step hs
  obtain ⟨fs, q, hfs, hq, -, hreturned⟩ := drain (A := Quiet)
    (I := Draining virtualNodes p.shared.registry.size)
    (G := fun q => ∀ t ∈ q.calls, t.Returned)
    (Program.totalBudget (GatewayCall.budget (virtualNodes.toNat * p.shared.registry.size)))
    (fun s h hopen => h.progress hash hopen) p hstart
  exact ⟨fs, q, hfs, hq, hreturned⟩

/-- A hedged call and one that waits in the queue behind a replica without capacity. -/
def waitingCalls : List GatewayLabel :=
  hedgedStart ++ [.env (.updateFromGossip "replica-1" ⟨"replica-1", "a:17001", .suspect, 0, "v1", 0, 1⟩),
    .env (.setDraining "replica-2" true), .spawn (.infer ⟨"client", "hello", 1, false⟩)] ++
  List.replicate 5 (.call 1 {})

theorem calls_drain_waiting :
    ∃ p, Run (gatewayProgram fun _ => 0).step (newGateway 150 {} 100) waitingCalls p ∧
      (p.calls.map fun t => t.budget 0) = [15, 41] ∧
      ∃ fs q, (∀ l ∈ fs, Quiet l) ∧ Run (gatewayProgram fun _ => 0).step p fs q ∧
        ∀ t ∈ q.calls, t.Returned := by
  have hrun : Run (gatewayProgram fun _ => 0).step (newGateway 150 {} 100) waitingCalls _ :=
    run_get (by decide +kernel)
  exact ⟨_, hrun, by decide +kernel, calls_drain _ 150 {} 100 waitingCalls _ hrun⟩

end LlmGateway.Gateway
