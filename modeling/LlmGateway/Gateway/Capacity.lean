import LlmGateway.Gateway.GatewayServer

/-!
# Capacity

`SelectReplica` tests the capacity of a replica, and `IncrementActive` reserves it, some steps later
and without a second test. `within_capacity_iff`: with the capacities held fixed, no replica is ever
over its capacity exactly when the test still passes whenever a reservation is made.
-/

namespace LlmGateway.Gateway

open Transition

/-- A replica with a capacity is not over it. -/
def ReplicaInfo.Within (info : ReplicaInfo) : Prop :=
  0 < info.maxCapacity → info.activeRequests ≤ info.maxCapacity

def WithinCapacity (p : GatewayPool) : Prop :=
  ∀ id info, p.shared.registry.getReplica id = some info → info.Within

/-- The step `l` is the `IncrementActive(id)` of a call. -/
def Reserves (p : GatewayPool) (l : GatewayLabel) (id : String) : Prop :=
  ∃ i c f ops, l = .call i c ∧ p.calls[i]? = some (.infer f) ∧
    f.pending = .incrementActive id :: ops

/-- A reservation is made while the capacity test passes. -/
def ReservesInTime (p : GatewayPool) (l : GatewayLabel) : Prop :=
  ∀ id info, Reserves p l id → p.shared.registry.getReplica id = some info →
    0 < info.maxCapacity → info.activeRequests < info.maxCapacity

/-- An update of a known replica does not change its capacity. -/
def KeepsCapacity (p : GatewayPool) (l : GatewayLabel) : Prop :=
  ∀ id u info, l = .env (.updateFromGossip id u) →
    p.shared.registry.getReplica id = some info → u.maxCapacity = info.maxCapacity

/-! ## What a step does to an entry -/

/-- **The entry of a replica after a step**: that of a new replica, an entry with the same counter
and capacity, or one that a call has just reserved or released. -/
inductive EntryStep (p : GatewayPool) (l : GatewayLabel) (id : String) (info' : ReplicaInfo) : Prop
  | fresh : info'.activeRequests = 0 → EntryStep p l id info'
  | same {info : ReplicaInfo} : p.shared.registry.getReplica id = some info →
      info'.activeRequests = info.activeRequests →
      (KeepsCapacity p l → info'.maxCapacity = info.maxCapacity) → EntryStep p l id info'
  | reserved {info : ReplicaInfo} : p.shared.registry.getReplica id = some info → Reserves p l id →
      info' = { info with activeRequests := info.activeRequests + 1 } → EntryStep p l id info'
  | released {info : ReplicaInfo} : p.shared.registry.getReplica id = some info →
      info' = { info with activeRequests := info.activeRequests - 1 } → EntryStep p l id info'

variable {hash : List UInt8 → ℕ} {p p' : GatewayPool} {l : GatewayLabel} {id : String}
  {info' : ReplicaInfo}

theorem EntryStep.unchanged (h : p.shared.registry.getReplica id = some info') :
    EntryStep p l id info' := .same h rfl fun _ => rfl

theorem entryStep_modify {g : GatewayState} {id₀ : String} {f : ReplicaInfo → ReplicaInfo}
    (hg : g.registry = p.shared.registry.modify id₀ f)
    (h : g.registry.getReplica id = some info')
    (hf : ∀ info, p.shared.registry.getReplica id₀ = some info → id = id₀ →
      EntryStep p l id (f info)) : EntryStep p l id info' := by
  rw [hg] at h
  by_cases hid : id = id₀
  · subst hid
    rw [ReplicaRegistry.getReplica_modify, Option.map_eq_some_iff] at h
    obtain ⟨info, hinfo, rfl⟩ := h
    exact hf info hinfo rfl
  · rw [ReplicaRegistry.getReplica_modify_of_ne f hid] at h
    exact .unchanged h

theorem entryStep_event {e : GatewayEvent}
    (h : (e.apply p.shared).registry.getReplica id = some info') :
    EntryStep p (.env e) id info' := by
  cases e with
  | tick ns => exact .unchanged h
  | setDraining id₀ draining =>
    refine entryStep_modify rfl h ?_
    rintro info hinfo rfl
    exact .same hinfo rfl fun _ => rfl
  | setGrpcAddress id₀ address =>
    have h' : (p.shared.registry.set id₀
      { (p.shared.registry.getReplica id₀).getD {} with grpcAddress := address }).getReplica id =
        some info' := h
    by_cases hid : id = id₀
    · subst hid
      rw [ReplicaRegistry.getReplica_set] at h'
      cases h'
      cases hinfo : p.shared.registry.getReplica id with
      | none => exact .fresh rfl
      | some info => exact .same hinfo rfl fun _ => rfl
    · rw [ReplicaRegistry.getReplica_set_of_ne hid] at h'
      exact .unchanged h'
  | updateFromGossip id₀ u =>
    have h' : (p.shared.registry.updateFromGossip id₀ u).1.getReplica id = some info' := h
    by_cases hid : id = id₀
    · subst hid
      obtain ⟨info, hinfo, hactive, hcapacity⟩ :=
        p.shared.registry.getReplica_updateFromGossip id u
      rw [hinfo] at h'
      cases h'
      cases hold : p.shared.registry.getReplica id with
      | none =>
        rw [hold] at hactive
        exact .fresh hactive
      | some old =>
        rw [hold] at hactive
        exact .same hold hactive fun hkeep => hcapacity.trans (hkeep id u old rfl hold)
    · rw [ReplicaRegistry.getReplica_updateFromGossip_of_ne u hid] at h'
      exact .unchanged h'

theorem entryStep (hs : (gatewayProgram hash).step p l = some p')
    (h : p'.shared.registry.getReplica id = some info') : EntryStep p l id info' := by
  cases Program.step_cases hs with
  | spawn x => exact .unchanged h
  | env henv =>
    cases henv
    exact entryStep_event h
  | @call i c t t' g' hi ht =>
    cases t with
    | rebuildRing b =>
      obtain ⟨⟨g₁, b'⟩, hb, heq⟩ := Option.map_eq_some_iff.mp ht
      cases heq
      cases b with
      | entered => cases hb; exact .unchanged h
      | replacing alive =>
        obtain ⟨lb, -, heq⟩ := Option.map_eq_some_iff.mp hb
        cases heq
        exact .unchanged h
      | done => cases hb
    | infer f =>
      obtain ⟨⟨g₁, f'⟩, hf, heq⟩ := Option.map_eq_some_iff.mp ht
      cases heq
      rcases InferCall.step_effect hf with ⟨op, ops, hpending, rfl, -⟩ | ⟨-, -, hregistry⟩
      · cases op with
        | incrementActive id₀ =>
          refine entryStep_modify rfl h ?_
          rintro info hinfo rfl
          exact .reserved hinfo ⟨i, c, f, ops, rfl, hi, hpending⟩ rfl
        | decrementActive id₀ =>
          refine entryStep_modify rfl h ?_
          rintro info hinfo rfl
          exact .released hinfo rfl
        | notifyCapacityAvailable | recordSuccess | recordFailure => exact .unchanged h
      · dsimp only at h
        rw [hregistry] at h
        exact .unchanged h

/-- A reservation adds one to the counter of a known replica. -/
theorem Reserves.step {info : ReplicaInfo} (hl : Reserves p l id)
    (hs : (gatewayProgram hash).step p l = some p')
    (hinfo : p.shared.registry.getReplica id = some info) :
    p'.shared.registry.getReplica id =
      some { info with activeRequests := info.activeRequests + 1 } := by
  obtain ⟨i, c, f, ops, rfl, hi, hpending⟩ := hl
  have hf : f.step hash p.shared c =
      some ((Operation.incrementActive id).apply p.shared, { f with pending := ops }) := by
    unfold InferCall.step
    rw [hpending]
  have hstep := Program.step_call (P := gatewayProgram hash) (c := c) hi
    (show Option.map _ (f.step hash p.shared c) = _ by rw [hf]; rfl)
  rw [hstep] at hs
  cases hs
  show (p.shared.registry.modify id _).getReplica id = _
  rw [ReplicaRegistry.getReplica_modify, hinfo]
  rfl

/-- **Capacity.** In every run of a new gateway in which updates keep the capacities, no replica is
over its capacity in any state if and only if every reservation is made while the capacity test
passes. -/
theorem within_capacity_iff (hash : List UInt8 → ℕ) (virtualNodes : ℤ)
    (config : CircuitBreaker.Config) (maxSize : ℤ) (es : List GatewayLabel) (p : GatewayPool)
    (hrun : Run (gatewayProgram hash).step (newGateway virtualNodes config maxSize) es p)
    (hfixed : EveryStep (gatewayProgram hash).step (newGateway virtualNodes config maxSize) es
      fun _ p l => KeepsCapacity p l) :
    (Always (gatewayProgram hash).step (newGateway virtualNodes config maxSize) es
      fun _ p => WithinCapacity p) ↔
    EveryStep (gatewayProgram hash).step (newGateway virtualNodes config maxSize) es
      fun _ p l => ReservesInTime p l := by
  constructor
  · intro halways pre l q hpre hq id info hl hinfo hpos
    obtain ⟨q', _, hs, hq', _⟩ := hrun.step_of_prefix hpre hq
    have hwithin := halways _ q' hpre hq' id _ (hl.step hs hinfo) hpos
    exact Int.add_one_le_iff.mp hwithin
  · intro htime
    have hboth : EveryStep (gatewayProgram hash).step (newGateway virtualNodes config maxSize) es
        fun _ p l => KeepsCapacity p l ∧ ReservesInTime p l :=
      fun pre l q hpre hq => ⟨hfixed pre l q hpre hq, htime pre l q hpre hq⟩
    refine always_of_everyStep hrun ?_ ?_ hboth
    · intro id info hinfo
      cases hinfo
    · rintro pre q l q' - hwithin ⟨hkeep, htime⟩ hs id info' hinfo' hpos
      cases entryStep hs hinfo' with
      | fresh hactive => omega
      | @same info hinfo hactive hcapacity =>
        have hle := hwithin id info hinfo
        rw [ReplicaInfo.Within] at hle
        have hcapacity := hcapacity hkeep
        omega
      | reserved hinfo hl heq =>
        subst heq
        exact Int.add_one_le_iff.mpr (htime id _ hl hinfo hpos)
      | @released info hinfo heq =>
        subst heq
        have hle := hwithin id info hinfo hpos
        show info.activeRequests - 1 ≤ info.maxCapacity
        omega

/-- Whether a reservation is made in time, computed. -/
def reservesInTime (p : GatewayPool) : GatewayLabel → Bool
  | .call i _ =>
    match p.calls[i]? with
    | some (.infer { pending := .incrementActive id :: _, .. }) =>
      (p.shared.registry.getReplica id).all fun info =>
        info.maxCapacity ≤ 0 || info.activeRequests < info.maxCapacity
    | _ => true
  | _ => true

theorem reservesInTime_sound (h : reservesInTime p l = true) : ReservesInTime p l := by
  rintro id info ⟨i, c, ⟨request, stage, pending, _, _, _, _, _⟩, ops, rfl, hi, hpending⟩ hinfo hpos
  dsimp only at hpending
  subst hpending
  simp only [reservesInTime, hi, hinfo, Option.all_some, Bool.or_eq_true, decide_eq_true_eq] at h
  omega

/-- A replica for one request at a time, and the request of a client. -/
def oneSlot : List GatewayLabel :=
  [.env (.updateFromGossip "replica-1" ⟨"replica-1", "a:17001", .alive, 0, "v1", 0, 1⟩),
    .spawn (.infer ⟨"client", "hello", 2, false⟩)]

/-- The steps of the call `i` up to its reservation. -/
def toReservation (i : ℕ) : List GatewayLabel :=
  [.call i {}, .call i {}, .call i {}, .call i {}, .call i {}]

theorem oneSlot_keepsCapacity (rest : List GatewayLabel)
    (hrest : ∀ id u, .env (.updateFromGossip id u) ∉ rest) :
    EveryStep (gatewayProgram fun _ => 0).step (newGateway 150 {} 100) (oneSlot ++ rest)
      fun _ p l => KeepsCapacity p l := by
  refine (everyStep_cons rfl).mpr ⟨?_, (everyStep_cons rfl).mpr ⟨?_, ?_⟩⟩
  · intro id u info _ hinfo
    cases hinfo
  · intro id u info hl
    cases hl
  · intro pre l q hpre _ id u info hl
    subst hl
    exact absurd (hpre.subset (by simp)) (hrest id u)

/-- One call reserves the slot, and another one, which selects after that, waits in the queue. -/
theorem within_capacity_iff_overlapping :
    let es := oneSlot ++ (.spawn (.infer ⟨"client", "hello", 2, false⟩) :: toReservation 0 ++
      [.call 1 {}, .call 0 {}, .call 1 {}, .call 1 {}, .call 1 {}, .call 1 {}])
    ∃ p, Run (gatewayProgram fun _ => 0).step (newGateway 150 {} 100) es p ∧
      (p.shared.registry.getReplica "replica-1").map (·.activeRequests) = some 1 ∧
      p.shared.queue.waitingCount = 1 ∧
      Always (gatewayProgram fun _ => 0).step (newGateway 150 {} 100) es
        fun _ p => WithinCapacity p := by
  intro es
  have hrun : Run (gatewayProgram fun _ => 0).step (newGateway 150 {} 100) es _ :=
    run_get (by decide +kernel)
  refine ⟨_, hrun, by decide +kernel, by decide +kernel, (within_capacity_iff _ _ _ _ es _ hrun
    (oneSlot_keepsCapacity _ (by simp [toReservation]))).mpr ?_⟩
  have hcheck : checkSteps (gatewayProgram fun _ => 0).step reservesInTime
      (newGateway 150 {} 100) es = true := by decide +kernel
  exact fun pre l p hpre hp => reservesInTime_sound (everyStep_of_check hcheck pre l p hpre hp)

/-- Two calls select the last slot of a replica before either reserves it. -/
theorem not_within_capacity_race :
    let es := oneSlot ++ (.spawn (.infer ⟨"client", "hello", 2, false⟩) ::
      toReservation 0 ++ toReservation 1 ++ [.call 0 {}, .call 1 {}])
    ∃ p, Run (gatewayProgram fun _ => 0).step (newGateway 150 {} 100) es p ∧
      EveryStep (gatewayProgram fun _ => 0).step (newGateway 150 {} 100) es
        (fun _ p l => KeepsCapacity p l) ∧
      (p.shared.registry.getReplica "replica-1").map
        (fun info => (info.activeRequests, info.maxCapacity)) = some (2, 1) ∧
      ¬ WithinCapacity p := by
  intro es
  have hrun : Run (gatewayProgram fun _ => 0).step (newGateway 150 {} 100) es _ :=
    run_get (by decide +kernel)
  have hentry : (((exec (gatewayProgram fun _ => 0).step (newGateway 150 {} 100) es).get
      (by decide +kernel)).shared.registry.getReplica "replica-1").map
        (fun info => (info.activeRequests, info.maxCapacity)) = some (2, 1) := by decide +kernel
  refine ⟨_, hrun, oneSlot_keepsCapacity _ (by simp [toReservation]), hentry, fun hwithin => ?_⟩
  obtain ⟨info, hinfo, heq⟩ := Option.map_eq_some_iff.mp hentry
  obtain ⟨hactive, hcapacity⟩ := Prod.mk.inj heq
  have hle := hwithin "replica-1" info hinfo
  rw [ReplicaInfo.Within, hactive, hcapacity] at hle
  exact absurd (hle (by decide)) (by decide)

end LlmGateway.Gateway
