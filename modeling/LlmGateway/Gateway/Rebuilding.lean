import LlmGateway.Gateway.GatewayServer

/-!
# Rebuilding the ring on several threads

The gossip threads and the rolling updater change the registry and then call `RebuildRing`, which
takes its snapshot of the registry and later replaces the ring with it. In between others can change
the registry and replace the ring.

1. `rebuildProgram`: any number of threads, each with one change and one `RebuildRing`; walks of
   `SelectReplica` take and release the ring's mutex at any time.
2. `Covered`: the ring is current, or a `RebuildRing` is under way that will make it so.
3. `ring_current`: the ring is current when all calls have completed, as long as no stale snapshot
   is written that nobody comes after; otherwise it need not be.
-/

namespace LlmGateway.Gateway

open Gossip Transition

/-- What a thread does before it calls `RebuildRing`. -/
inductive RegistryChange
  | updateFromGossip (id : String) (u : MembershipUpdate)
  | setDraining (id : String) (draining : Bool)
  deriving DecidableEq, Repr

/-- An exception of `UpdateFromGossip` ends the process. -/
def RegistryChange.apply (r : ReplicaRegistry) : RegistryChange → Option ReplicaRegistry
  | .updateFromGossip id u =>
    match r.updateFromGossip id u with
    | (registry, none) => some registry
    | (_, some _) => none
  | .setDraining id draining => some (r.setDraining id draining)

/-- A thread: before its change, or in `RebuildRing`. -/
inductive RebuildThread
  | changing (change : RegistryChange)
  | rebuilding (b : RebuildCall)
  deriving DecidableEq, Repr

def RebuildThread.step (hash : List UInt8 → ℕ) (g : GatewayState) :
    RebuildThread → Option (GatewayState × RebuildThread)
  | .changing change =>
    (change.apply g.registry).map fun registry => ({ g with registry }, .rebuilding .entered)
  | .rebuilding b => (b.step hash g).map fun r => (r.1, .rebuilding r.2)

/-- The threads. The environment is the walks, which hold the mutex or do not. -/
def rebuildProgram (hash : List UInt8 → ℕ) :
    Program GatewayState RebuildThread RegistryChange Unit Bool where
  start := .changing
  call g t _ := t.step hash g
  env g locked := some { g with lb := { g.lb with ringLocked := locked } }

abbrev RebuildPool := Pool GatewayState RebuildThread

abbrev RebuildLabel := Program.Label RegistryChange Unit Bool

/-- The ring that `RebuildRing` builds from a snapshot. -/
def LoadBalancer.builtRing (hash : List UInt8 → ℕ) (lb : LoadBalancer)
    (alive : List (String × ReplicaInfo)) : OrderedMap ℕ String :=
  alive.foldl (fun ring e => lb.placeReplica hash ring e.1) .empty

/-- The ring of the registry's present alive replicas. -/
def GatewayState.freshRing (hash : List UInt8 → ℕ) (g : GatewayState) : OrderedMap ℕ String :=
  g.lb.builtRing hash g.registry.getAliveReplicas

/-- The ring is the one of the present alive replicas. -/
def GatewayState.RingCurrent (hash : List UInt8 → ℕ) (g : GatewayState) : Prop :=
  g.lb.ring = g.freshRing hash

/-- All calls have completed. -/
def Settled (p : RebuildPool) : Prop := ∀ t ∈ p.calls, t = .rebuilding .done

instance (p : RebuildPool) : Decidable (Settled p) :=
  inferInstanceAs (Decidable (∀ t ∈ p.calls, t = .rebuilding .done))

/-- The thread `i` holds a snapshot. -/
def HoldsSnapshot (p : RebuildPool) (i : ℕ) (alive : List (String × ReplicaInfo)) : Prop :=
  p.calls[i]? = some (.rebuilding (.replacing alive))

/-- The thread `i` will make the ring current if it is the last one: it has its snapshot still to
take, or holds one of the present alive replicas. -/
def Refreshes (hash : List UInt8 → ℕ) (p : RebuildPool) (i : ℕ) : Prop :=
  p.calls[i]? = some (.rebuilding .entered) ∨
    ∃ alive, HoldsSnapshot p i alive ∧ p.shared.lb.builtRing hash alive = p.shared.freshRing hash

/-- The step does not replace the ring with one of other replicas than the present ones, unless
another thread is to make it current again. -/
def ReplacesInTime (hash : List UInt8 → ℕ) (p : RebuildPool) (l : RebuildLabel) : Prop :=
  ∀ i alive, l = .call i () → HoldsSnapshot p i alive →
    p.shared.lb.builtRing hash alive ≠ p.shared.freshRing hash → ∃ j, j ≠ i ∧ Refreshes hash p j

/-- A gateway with no replica and no thread. -/
def newRebuild (virtualNodes : ℤ) : RebuildPool := ⟨{ lb := { virtualNodes } }, []⟩

variable {hash : List UInt8 → ℕ} {p p' : RebuildPool} {l : RebuildLabel} {g g' : GatewayState}
  {t t' : RebuildThread} {i : ℕ}

/-! ## One step -/

/-- **The steps of a thread.** -/
inductive RebuildStep (hash : List UInt8 → ℕ) (g : GatewayState) :
    RebuildThread → GatewayState → RebuildThread → Prop
  | changes (change : RegistryChange) (registry : ReplicaRegistry) :
      RebuildStep hash g (.changing change) { g with registry } (.rebuilding .entered)
  | snapshot : RebuildStep hash g (.rebuilding .entered) g
      (.rebuilding (.replacing g.registry.getAliveReplicas))
  | replaces (alive : List (String × ReplicaInfo)) : g.lb.ringLocked = false →
      RebuildStep hash g (.rebuilding (.replacing alive))
        { g with lb := { g.lb with ring := g.lb.builtRing hash alive } } (.rebuilding .done)

theorem rebuildStep (hs : t.step hash g = some (g', t')) : RebuildStep hash g t g' t' := by
  cases t with
  | changing change =>
    obtain ⟨registry, -, heq⟩ := Option.map_eq_some_iff.mp hs
    cases heq
    exact .changes change registry
  | rebuilding b =>
    obtain ⟨⟨g₁, b'⟩, hb, heq⟩ := Option.map_eq_some_iff.mp hs
    cases heq
    cases b with
    | entered =>
      cases hb
      exact .snapshot
    | replacing alive =>
      obtain ⟨lb, hlb, heq⟩ := Option.map_eq_some_iff.mp hb
      cases heq
      unfold LoadBalancer.replaceRing at hlb
      split_ifs at hlb with hlocked
      cases hlb
      exact .replaces alive (Bool.eq_false_iff.mpr hlocked)
    | done => cases hb

/-- The ring is current, or some thread is to make it so. -/
def Covered (hash : List UInt8 → ℕ) (p : RebuildPool) : Prop :=
  p.shared.RingCurrent hash ∨ ∃ i, Refreshes hash p i

theorem Refreshes.set {j : ℕ} (h : Refreshes hash p j) (hne : i ≠ j)
    (hfresh : g'.freshRing hash = p.shared.freshRing hash)
    (hbuilt : ∀ alive, g'.lb.builtRing hash alive = p.shared.lb.builtRing hash alive) :
    Refreshes hash ⟨g', p.calls.set i t'⟩ j := by
  unfold Refreshes HoldsSnapshot at h ⊢
  rw [List.getElem?_set_ne hne, hfresh]
  simp only [hbuilt]
  exact h

theorem covered_step (h : Covered hash p) (hs : (rebuildProgram hash).step p l = some p')
    (hl : ReplacesInTime hash p l) : Covered hash p' := by
  cases Program.step_cases hs with
  | spawn change =>
    refine h.imp_right fun ⟨i, hi⟩ => ⟨i, ?_⟩
    rcases hi with hi | ⟨alive, hi, hfresh⟩
    · have hlt := (List.getElem?_eq_some_iff.mp hi).1
      exact Or.inl ((List.getElem?_append_left hlt).trans hi)
    · have hlt := (List.getElem?_eq_some_iff.mp hi).1
      exact Or.inr ⟨alive, (List.getElem?_append_left hlt).trans hi, hfresh⟩
  | env henv =>
    cases henv
    exact h
  | @call i _ t t' g' hi ht =>
    have hlt := (List.getElem?_eq_some_iff.mp hi).1
    cases rebuildStep ht with
    | changes => exact Or.inr ⟨i, Or.inl (List.getElem?_set_self hlt)⟩
    | snapshot => exact Or.inr ⟨i, Or.inr ⟨_, List.getElem?_set_self hlt, rfl⟩⟩
    | replaces alive =>
      by_cases hfresh : p.shared.lb.builtRing hash alive = p.shared.freshRing hash
      · exact Or.inl hfresh
      · obtain ⟨j, hne, hj⟩ := hl i alive rfl hi hfresh
        exact Or.inr ⟨j, hj.set hne.symm rfl fun _ => rfl⟩

/-- When all calls have completed there is nobody left to make the ring current. -/
theorem Covered.current (h : Covered hash p) (hsettled : Settled p) : p.shared.RingCurrent hash := by
  refine h.resolve_right ?_
  rintro ⟨i, hi | ⟨alive, hi, -⟩⟩
  · cases hsettled _ (List.mem_of_getElem? hi)
  · cases hsettled _ (List.mem_of_getElem? hi)

/-! ## A stale ring that stays -/

/-- Everybody who is still to write the ring writes a stale one. -/
structure Doomed (hash : List UInt8 → ℕ) (p : RebuildPool) : Prop where
  stale : ¬ p.shared.RingCurrent hash
  unlocked : p.shared.lb.ringLocked = false
  calls : ∀ t ∈ p.calls, t = .rebuilding .done ∨ ∃ alive, t = .rebuilding (.replacing alive) ∧
    p.shared.lb.builtRing hash alive ≠ p.shared.freshRing hash

theorem Doomed.step {alive : List (String × ReplicaInfo)} (h : Doomed hash p)
    (hi : HoldsSnapshot p i alive) :
    ∃ p', (rebuildProgram hash).step p (.call i ()) = some p' ∧ Doomed hash p' ∧
      p'.calls = p.calls.set i (.rebuilding .done) := by
  have hstep : (rebuildProgram hash).call p.shared (.rebuilding (.replacing alive)) () =
      some ({ p.shared with lb := { p.shared.lb with ring := p.shared.lb.builtRing hash alive } },
        .rebuilding .done) := by
    have hreplace : p.shared.lb.replaceRing hash alive =
        some { p.shared.lb with ring := p.shared.lb.builtRing hash alive } :=
      if_neg (by rw [h.unlocked]; exact Bool.false_ne_true)
    show Option.map _ (Option.map _ (p.shared.lb.replaceRing hash alive)) = _
    rw [hreplace]
    rfl
  refine ⟨_, Program.step_call hi hstep, ⟨?_, h.unlocked, ?_⟩, rfl⟩
  · rcases h.calls _ (List.mem_of_getElem? hi) with hdone | ⟨alive', heq, hstale⟩
    · cases hdone
    · cases heq
      exact hstale
  · intro t ht
    rcases List.mem_or_eq_of_mem_set ht with ht | rfl
    · exact h.calls t ht
    · exact Or.inl rfl

def RebuildThread.completed : RebuildThread → Bool
  | .rebuilding .done => true
  | _ => false

/-- All calls can complete, and the ring is not current then. -/
theorem Doomed.settles (h : Doomed hash p) :
    ∃ es q, Run (rebuildProgram hash).step p es q ∧ Settled q ∧ ¬ q.shared.RingCurrent hash := by
  -- by the number of calls that have not completed
  obtain ⟨n, hn⟩ : ∃ n, p.calls.countP (fun t => !t.completed) = n := ⟨_, rfl⟩
  induction n generalizing p with
  | zero =>
    refine ⟨[], p, .nil, fun t ht => ?_, h.stale⟩
    rcases h.calls t ht with hdone | ⟨alive, rfl, -⟩
    · exact hdone
    · exact absurd rfl (List.countP_eq_zero.mp hn _ ht)
  | succ n ih =>
    have hpos : 0 < p.calls.countP (fun t => !t.completed) := by omega
    obtain ⟨t, ht, hopen⟩ := List.countP_pos_iff.mp hpos
    rcases h.calls t ht with rfl | ⟨alive, rfl, -⟩
    · cases hopen
    · obtain ⟨i, hi⟩ := List.mem_iff_getElem?.mp ht
      obtain ⟨p', hs, hp', hcalls⟩ := h.step hi
      have hcount : (p.calls.set i (.rebuilding .done)).countP (fun t => !t.completed) + 1 =
          p.calls.countP (fun t => !t.completed) + 0 := Program.countP_set hi
      rw [← hcalls] at hcount
      obtain ⟨es, q, hrun, hq⟩ := ih hp' (by omega)
      exact ⟨.call i () :: es, q, (Run.snoc .nil hs).append hrun, hq⟩

/-- **The ring after the last rebuild.** In a run that replaces the ring in time, the ring is the one
of the present alive replicas whenever all calls have completed. After a step that does not, with
nobody left to change the registry, all calls can complete with another ring. -/
theorem ring_current (hash : List UInt8 → ℕ) (virtualNodes : ℤ) (es : List RebuildLabel)
    (p : RebuildPool) (hrun : Run (rebuildProgram hash).step (newRebuild virtualNodes) es p) :
    (EveryStep (rebuildProgram hash).step (newRebuild virtualNodes) es
        (fun _ p l => ReplacesInTime hash p l) →
      Always (rebuildProgram hash).step (newRebuild virtualNodes) es
        fun _ p => Settled p → p.shared.RingCurrent hash) ∧
    ∀ l p', (rebuildProgram hash).step p l = some p' → ¬ ReplacesInTime hash p l →
      (∀ change, .changing change ∉ p.calls) →
      ∃ es' q, Run (rebuildProgram hash).step p' es' q ∧ Settled q ∧
        ¬ q.shared.RingCurrent hash := by
  constructor
  · intro hin
    have hcovered : Always (rebuildProgram hash).step (newRebuild virtualNodes) es
        fun _ p => Covered hash p :=
      always_of_everyStep hrun (Or.inl rfl) (fun _ _ _ _ _ h hl hs => covered_step h hs hl) hin
    exact hcovered.mono fun _ _ _ h hsettled => h.current hsettled
  · intro l p' hs hlate hunchanging
    simp only [ReplacesInTime, not_forall, not_exists, not_and] at hlate
    obtain ⟨i, alive, rfl, hi, hstale, hnobody⟩ := hlate
    refine Doomed.settles ?_
    cases Program.step_cases hs with
    | @call _ _ t t' g' hi' ht =>
      rw [show p.calls[i]? = _ from hi] at hi'
      cases hi'
      have hthread : RebuildThread.step hash p.shared (.rebuilding (.replacing alive)) =
          some (g', t') := ht
      cases rebuildStep hthread with
      | replaces _ hunlocked =>
        refine ⟨hstale, hunlocked, fun u hu => ?_⟩
        rcases List.mem_or_eq_of_mem_set hu with hu | rfl
        · obtain ⟨j, hj⟩ := List.mem_iff_getElem?.mp hu
          cases u with
          | changing change => exact absurd hu (hunchanging change)
          | rebuilding b =>
            cases b with
            | entered =>
              have hji : j ≠ i := by
                rintro rfl
                cases hi.symm.trans hj
              exact absurd (Or.inl hj) (hnobody j hji)
            | replacing alive' =>
              refine Or.inr ⟨alive', rfl, fun hfresh => ?_⟩
              by_cases hji : j = i
              · subst hji
                cases hi.symm.trans hj
                exact hstale hfresh
              · exact hnobody j hji (Or.inr ⟨alive', hj, hfresh⟩)
            | done => exact Or.inl rfl
        · exact Or.inl rfl

/-- A replica is announced, and put on the ring. -/
def joined : List RebuildLabel :=
  [.spawn (.updateFromGossip "replica-1" ⟨"replica-1", "a:17001", .alive, 0, "v1", 0, 4⟩),
    .call 0 (), .call 0 ()]

theorem ring_current_joined :
    ∃ p, Run (rebuildProgram fun _ => 0).step (newRebuild 150) (joined ++ [.call 0 ()]) p ∧
      p.shared.RingCurrent fun _ => 0 := by
  have hrun : Run (rebuildProgram fun _ => 0).step (newRebuild 150) (joined ++ [.call 0 ()]) _ :=
    run_get (by decide +kernel)
  refine ⟨_, hrun, ((ring_current _ _ _ _ hrun).1 ?_).last hrun (by decide +kernel)⟩
  refine (everyStep_cons rfl).mpr ⟨?_, ?_⟩
  · intro i alive hl
    cases hl
  refine (everyStep_cons rfl).mpr ⟨?_, ?_⟩
  · intro i alive hl hi
    cases hl
    cases hi
  refine (everyStep_cons rfl).mpr ⟨?_, ?_⟩
  · intro i alive hl hi
    cases hl
    cases hi
  refine (everyStep_cons rfl).mpr ⟨?_, everyStep_nil⟩
  intro i alive hl hi hstale
  cases hl
  cases hi
  exact absurd rfl hstale

/-- The rolling updater drains the replica and rebuilds the ring while the gossip thread still has
its snapshot. Then the gossip thread puts the drained replica back on the ring. -/
theorem not_ring_current_drained :
    let es : List RebuildLabel := joined ++ [.spawn (.setDraining "replica-1" true), .call 1 (),
      .call 1 (), .call 1 (), .call 0 ()]
    ∃ p, Run (rebuildProgram fun _ => 0).step (newRebuild 150) es p ∧ Settled p ∧
      p.shared.registry.getAliveReplicas = [] ∧ p.shared.lb.ring.entries = [(0, "replica-1")] ∧
      ¬ p.shared.RingCurrent fun _ => 0 := by
  intro es
  have hrun : Run (rebuildProgram fun _ => 0).step (newRebuild 150) es _ :=
    run_get (by decide +kernel)
  have halive : ((exec (rebuildProgram fun _ => 0).step (newRebuild 150) es).get
      (by decide +kernel)).shared.registry.getAliveReplicas = [] := by decide +kernel
  have hring : ((exec (rebuildProgram fun _ => 0).step (newRebuild 150) es).get
      (by decide +kernel)).shared.lb.ring.entries = [(0, "replica-1")] := by decide +kernel
  refine ⟨_, hrun, by decide +kernel, halive, hring, fun hcurrent => ?_⟩
  have hempty := congrArg OrderedMap.entries hcurrent
  rw [hring, GatewayState.freshRing, halive] at hempty
  cases hempty

end LlmGateway.Gateway
