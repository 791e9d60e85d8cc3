import LlmGateway.Gateway.LoadBalancer

/-!
# What `SelectReplica` selects

The two tiers test different things of a replica: the walk asks neither for an address nor for the
kind of the id, and the second tier makes its own test of the capacity. `Eligible` is what a request
needs. The walk gets the rest from the ring: its ids were in `GetAliveReplicas` when it was built,
and no operation removes an entry or, with `keepsAddresses`, an address.

1. `candidate_eq_some_iff`, `selectByConsistentHash_eq`: the walk finds the first replica of the
   circle that passes its test.
2. `selectByLeastConnections_mem`, `selectByLeastConnections_isSome`: the second tier returns a
   replica of the snapshot that is open, if there is one with a finite score.
3. `SelectStage.finish_eq`: the steps of `SelectStage` come to the same.
4. `selectReplica_eligible`: the two tiers together, on a ring of any age.
-/

namespace LlmGateway.Gateway

open Gossip

/-! ## The life of a registry -/

/-- The operations that change a registry. -/
inductive RegistryOp
  | updateFromGossip (id : String) (u : MembershipUpdate)
  | incrementActive (id : String)
  | decrementActive (id : String)
  | setDraining (id : String) (draining : Bool)
  | setGrpcAddress (id : String) (grpcAddress : String)
  deriving DecidableEq, Repr

def RegistryOp.apply (r : ReplicaRegistry) : RegistryOp → ReplicaRegistry
  | .updateFromGossip id u => (r.updateFromGossip id u).1
  | .incrementActive id => r.incrementActive id
  | .decrementActive id => r.decrementActive id
  | .setDraining id draining => r.setDraining id draining
  | .setGrpcAddress id address => r.setGrpcAddress id address

/-- No address is cleared. -/
def RegistryOp.keepsAddresses : RegistryOp → Bool
  | .setGrpcAddress _ address => address ≠ ""
  | _ => true

/-- The registry has a gRPC address for the replica. -/
def ReplicaRegistry.Addressed (r : ReplicaRegistry) (id : String) : Prop :=
  ∃ info, r.getReplica id = some info ∧ info.grpcAddress ≠ ""

variable {r r₀ : ReplicaRegistry} {id : String} {info : ReplicaInfo} {op : RegistryOp}

theorem ReplicaRegistry.Addressed.set {id' : String} {new : ReplicaInfo} (h : r.Addressed id)
    (hnew : id = id' → new.grpcAddress ≠ "") : (r.set id' new).Addressed id := by
  by_cases hid : id = id'
  · subst hid
    exact ⟨new, ReplicaRegistry.getReplica_set, hnew rfl⟩
  · obtain ⟨info, hinfo, haddress⟩ := h
    exact ⟨info, (ReplicaRegistry.getReplica_set_of_ne hid).trans hinfo, haddress⟩

theorem ReplicaRegistry.Addressed.modify {id' : String} {f : ReplicaInfo → ReplicaInfo}
    (h : r.Addressed id) (hf : ∀ info, (f info).grpcAddress = info.grpcAddress) :
    (r.modify id' f).Addressed id := by
  unfold ReplicaRegistry.modify
  cases hid : r.getReplica id' with
  | none => exact h
  | some old =>
    refine h.set ?_
    rintro rfl
    obtain ⟨info, hinfo, haddress⟩ := h
    rw [hid] at hinfo
    cases hinfo
    rwa [hf]

theorem ReplicaRegistry.Addressed.apply (h : r.Addressed id) (hop : op.keepsAddresses = true) :
    (op.apply r).Addressed id := by
  cases op with
  | incrementActive id' | decrementActive id' | setDraining id' draining =>
    exact h.modify fun _ => rfl
  | setGrpcAddress id' address =>
    exact h.set fun _ => by simpa [RegistryOp.keepsAddresses] using hop
  | updateFromGossip id' u =>
    have hold : id = id' → ((r.getReplica id').getD {}).grpcAddress ≠ "" := by
      rintro rfl
      obtain ⟨info, hinfo, haddress⟩ := h
      rwa [hinfo]
    simp only [RegistryOp.apply, ReplicaRegistry.updateFromGossip]
    split_ifs with hempty
    · split <;> exact h.set fun hid => absurd hempty.1 (hold hid)
    · exact h.set fun hid => hold hid

theorem ReplicaRegistry.Addressed.foldl {ops : List RegistryOp} (h : r.Addressed id)
    (hops : ∀ op ∈ ops, op.keepsAddresses = true) : (ops.foldl RegistryOp.apply r).Addressed id := by
  induction ops generalizing r with
  | nil => exact h
  | cons op ops ih =>
    exact ih (h.apply (hops op List.mem_cons_self)) fun op' hop' =>
      hops op' (List.mem_cons_of_mem _ hop')

/-! ## Eligibility -/

/-- The replica can take a request, and these are its data. -/
structure ReplicaRegistry.Eligible (r : ReplicaRegistry) (excluded : List String) (id : String)
    (info : ReplicaInfo) : Prop where
  entry : r.getReplica id = some info
  notExcluded : id ∉ excluded
  notDead : info.gossipState ≠ .dead
  notDraining : info.draining = false
  addressed : info.grpcAddress ≠ ""
  isReplica : ReplicaRegistry.notAReplica id = false
  hasCapacity : info.maxCapacity = 0 ∨ info.activeRequests < info.maxCapacity

/-- The data of every replica make sense. -/
structure ReplicaRegistry.Valid (r : ReplicaRegistry) : Prop where
  id_ne : ∀ id info, r.getReplica id = some info → id ≠ ""
  capacity_nonneg : ∀ id info, r.getReplica id = some info → 0 ≤ info.maxCapacity
  weight_pos : ∀ id info, r.getReplica id = some info → 0 < info.weight

variable {excluded : List String} {selection : Selection}

theorem mem_getAliveReplicas : (id, info) ∈ r.getAliveReplicas ↔
    r.getReplica id = some info ∧ info.gossipState ≠ .dead ∧ info.draining = false ∧
      info.grpcAddress ≠ "" ∧ ReplicaRegistry.notAReplica id = false := by
  have hentry : (id, info) ∈ (r.replicas.entries.map fun e => (e.1, e.2)) ↔
      r.getReplica id = some info := by
    rw [ReplicaRegistry.getReplica, ← Option.mem_def, AList.mem_lookup_iff, List.mem_map]
    constructor
    · rintro ⟨⟨id', info'⟩, he, heq⟩
      cases heq
      exact he
    · intro h
      exact ⟨⟨id, info⟩, h, rfl⟩
  rw [ReplicaRegistry.getAliveReplicas, List.mem_filter, hentry]
  simp [and_assoc]

theorem candidate_eq_some_iff : r.candidate excluded id = some selection ↔
    id ∉ excluded ∧ ∃ info, r.getReplica id = some info ∧ info.accepts = true ∧
      selection = ⟨id, info.grpcAddress⟩ := by
  unfold ReplicaRegistry.candidate
  split_ifs with hexcluded
  · simp [hexcluded]
  · simp only [hexcluded, not_false_eq_true, true_and, Option.bind_eq_some_iff]
    refine exists_congr fun info => and_congr_right fun _ => ?_
    split_ifs with haccepts
    · simp [haccepts, eq_comm]
    · simp [haccepts]

/-! ## The ring -/

section

variable {hash : List UInt8 → ℕ} {lb lb' : LoadBalancer} {ring : OrderedMap ℕ String} {h : ℕ}

/-- The points of a replica are added, in place of others with the same hashes. -/
theorem mem_placeReplica_entries {owner : String}
    (hmem : (h, owner) ∈ (lb.placeReplica hash ring id).entries) :
    owner = id ∨ (h, owner) ∈ ring.entries := by
  unfold LoadBalancer.placeReplica at hmem
  generalize List.range lb.virtualNodes.toNat = nodes at hmem
  induction nodes generalizing ring with
  | nil => exact Or.inr hmem
  | cons i nodes ih =>
    refine (ih hmem).elim Or.inl fun hmem => ?_
    rcases OrderedMap.mem_insert.mp hmem with heq | ⟨-, hmem⟩
    · exact Or.inl (Prod.mk.inj heq).2
    · exact Or.inr hmem

theorem mem_foldl_placeReplica {alive : List (String × ReplicaInfo)}
    (hmem : (h, id) ∈
      (alive.foldl (fun ring e => lb.placeReplica hash ring e.1) ring).entries) :
    (∃ e ∈ alive, e.1 = id) ∨ (h, id) ∈ ring.entries := by
  induction alive generalizing ring with
  | nil => exact Or.inr hmem
  | cons e alive ih =>
    rcases ih hmem with ⟨e', he', heq⟩ | hmem
    · exact Or.inl ⟨e', List.mem_cons_of_mem _ he', heq⟩
    · rcases mem_placeReplica_entries hmem with rfl | hmem
      · exact Or.inl ⟨e, List.mem_cons_self, rfl⟩
      · exact Or.inr hmem

theorem mem_replaceRing {alive : List (String × ReplicaInfo)}
    (hring : lb.replaceRing hash alive = some lb') (hmem : (h, id) ∈ lb'.ring.entries) :
    ∃ e ∈ alive, e.1 = id := by
  unfold LoadBalancer.replaceRing at hring
  split_ifs at hring
  cases hring
  exact (mem_foldl_placeReplica hmem).resolve_right List.not_mem_nil

/-- The walk ends, and finds the first replica of the circle that it accepts. -/
theorem selectByConsistentHash_eq (hash : List UInt8 → ℕ) (lb : LoadBalancer)
    (r : ReplicaRegistry) (prompt : String) (excluded : List String) {fuel : ℕ}
    (hfuel : lb.ring.entries.length ≤ fuel) :
    lb.selectByConsistentHash hash r prompt excluded fuel =
      some ((lb.ring.clockwise (hash ((bytes prompt).take 64))).findSome?
        (r.candidate excluded)) :=
  OrderedMap.walk_eq hfuel

theorem mem_clockwise {k : ℕ} (hmem : id ∈ ring.clockwise k) : ∃ h, (h, id) ∈ ring.entries := by
  unfold OrderedMap.clockwise at hmem
  obtain ⟨⟨h, id'⟩, he, rfl⟩ := List.mem_map.mp hmem
  rcases List.mem_append.mp he with he | he <;> exact ⟨h, (List.mem_filter.mp he).1⟩

end

/-! ## The second tier -/

/-- The replica of the snapshot may be picked. -/
def Pickable (excluded : List String) (e : String × ReplicaInfo) : Prop :=
  e.1 ∉ excluded ∧ ¬(0 < e.2.maxCapacity ∧ e.2.maxCapacity ≤ e.2.activeRequests)

variable {p : Pick} {e : String × ReplicaInfo} {es : List (String × ReplicaInfo)}

/-- **One replica of the snapshot**: the best so far stays, or it is this one. -/
theorem Pick.consider_cases (excluded : List String) (p : Pick) (e : String × ReplicaInfo) :
    ((p.consider excluded e).id = p.id ∧ (p.consider excluded e).address = p.address) ∨
      Pickable excluded e ∧ (p.consider excluded e).id = e.1 ∧
        (p.consider excluded e).address = e.2.grpcAddress := by
  unfold Pick.consider
  split_ifs with hexcluded hfull
  · exact Or.inl ⟨rfl, rfl⟩
  · exact Or.inl ⟨rfl, rfl⟩
  · have hpickable : Pickable excluded e := ⟨hexcluded, hfull⟩
    split
    · exact Or.inl ⟨rfl, rfl⟩
    · dsimp only
      split_ifs
      · exact Or.inr ⟨hpickable, rfl, rfl⟩
      · exact Or.inr ⟨hpickable, rfl, rfl⟩
      · exact Or.inl ⟨rfl, rfl⟩
      · exact Or.inl ⟨rfl, rfl⟩

/-- The best of a snapshot is one of it, or the best from before. -/
theorem Pick.foldl_consider_mem (excluded : List String) (es : List (String × ReplicaInfo))
    (p : Pick) :
    ((es.foldl (Pick.consider excluded) p).id = p.id ∧
        (es.foldl (Pick.consider excluded) p).address = p.address) ∨
      ∃ e ∈ es, Pickable excluded e ∧ (es.foldl (Pick.consider excluded) p).id = e.1 ∧
        (es.foldl (Pick.consider excluded) p).address = e.2.grpcAddress := by
  induction es generalizing p with
  | nil => exact Or.inl ⟨rfl, rfl⟩
  | cons e es ih =>
    rw [List.foldl_cons]
    rcases ih (p.consider excluded e) with ⟨hid, haddress⟩ | ⟨e', he', hrest⟩
    · rw [hid, haddress]
      rcases p.consider_cases excluded e with h | ⟨hpickable, hid, haddress⟩
      · exact Or.inl h
      · exact Or.inr ⟨e, List.mem_cons_self, hpickable, hid, haddress⟩
    · exact Or.inr ⟨e', List.mem_cons_of_mem _ he', hrest⟩

/-- As long as there is no best replica, any finite score makes one. -/
def Pick.Ready (p : Pick) : Prop := p.id = "" → p.score = maxDouble ∧ p.tieCount = 0

theorem ReplicaInfo.score_le {score : ℚ} (h : info.score = some score) : score ≤ maxDouble := by
  unfold ReplicaInfo.score at h
  dsimp only at h
  split_ifs at h
  cases h
  exact min_le_right _ _

theorem Pick.Ready.consider (h : p.Ready) (he : e.1 ≠ "") : (p.consider excluded e).Ready := by
  unfold Pick.consider
  split_ifs
  · exact h
  · exact h
  · split
    · exact h
    · dsimp only
      split_ifs with hlt heq htie
      · exact fun hnone => absurd hnone he
      · exact fun hnone => absurd hnone he
      · exact fun hnone => absurd (Or.inl (by rw [(h hnone).2])) htie
      · exact h

theorem Pick.consider_id_ne (h : p.Ready) (he : e.1 ≠ "") (hpickable : Pickable excluded e)
    (hscore : e.2.score.isSome) : (p.consider excluded e).id ≠ "" := by
  obtain ⟨score, hscore⟩ := Option.isSome_iff_exists.mp hscore
  have hle := ReplicaInfo.score_le hscore
  unfold Pick.consider
  rw [if_neg hpickable.1, if_neg hpickable.2, hscore]
  dsimp only
  split_ifs with hlt heq htie
  · exact he
  · exact he
  · -- a tie that loses its draw is with a replica
    exact fun hnone => htie (Or.inl (by rw [(h hnone).2]))
  · intro hnone
    rw [(h hnone).1] at hlt heq
    exact heq (le_antisymm hle (not_lt.mp hlt))

theorem Pick.foldl_consider_id_ne (h : p.Ready) (hids : ∀ e ∈ es, e.1 ≠ "")
    (hsome : p.id ≠ "" ∨ ∃ e ∈ es, Pickable excluded e ∧ e.2.score.isSome) :
    (es.foldl (Pick.consider excluded) p).id ≠ "" := by
  induction es generalizing p with
  | nil => exact hsome.resolve_right fun ⟨_, he, _⟩ => List.not_mem_nil he
  | cons e es ih =>
    have he : e.1 ≠ "" := hids e List.mem_cons_self
    refine ih (h.consider he) (fun e' he' => hids e' (List.mem_cons_of_mem _ he')) ?_
    rcases hsome with hne | ⟨e', he', hpickable, hscore⟩
    · rcases p.consider_cases excluded e with ⟨hid, -⟩ | ⟨-, hid, -⟩
      · exact Or.inl (hid ▸ hne)
      · exact Or.inl (hid ▸ he)
    · rcases List.mem_cons.mp he' with rfl | he'
      · exact Or.inl (consider_id_ne h he hpickable hscore)
      · exact Or.inr ⟨e', he', hpickable, hscore⟩

section

variable {draws : List ℕ}

theorem selectByLeastConnections_mem
    (h : r.selectByLeastConnections excluded draws = some selection) :
    ∃ info, (selection.replicaId, info) ∈ r.getAliveReplicas ∧
      Pickable excluded (selection.replicaId, info) ∧
      selection.grpcAddress = info.grpcAddress := by
  unfold ReplicaRegistry.selectByLeastConnections at h
  dsimp only at h
  split_ifs at h with hnone
  cases h
  rcases Pick.foldl_consider_mem excluded r.getAliveReplicas { draws } with
    ⟨hid, -⟩ | ⟨⟨id, info⟩, he, hpickable, hid, haddress⟩
  · exact absurd hid hnone
  · rw [hid, haddress]
    exact ⟨info, he, hpickable, rfl⟩

theorem selectByLeastConnections_isSome (hids : ∀ e ∈ r.getAliveReplicas, e.1 ≠ "")
    (hmem : e ∈ r.getAliveReplicas) (hpickable : Pickable excluded e) (hscore : e.2.score.isSome) :
    (r.selectByLeastConnections excluded draws).isSome := by
  have hready : Pick.Ready { draws } := fun _ => ⟨rfl, rfl⟩
  have hne := Pick.foldl_consider_id_ne hready hids (Or.inr ⟨e, hmem, hpickable, hscore⟩)
  unfold ReplicaRegistry.selectByLeastConnections
  rw [if_neg hne]
  rfl

end

/-! ## The two tiers together -/

/-- The walk accepts a replica with an address on a ring of real replicas: it is eligible. -/
theorem ReplicaRegistry.Eligible.of_candidate (h : r.candidate excluded id = some selection)
    (haddressed : r.Addressed id) (hreplica : ReplicaRegistry.notAReplica id = false) :
    ∃ info, r.Eligible excluded selection.replicaId info ∧
      selection.grpcAddress = info.grpcAddress := by
  obtain ⟨hexcluded, info, hinfo, haccepts, rfl⟩ := candidate_eq_some_iff.mp h
  obtain ⟨info', hinfo', haddress⟩ := haddressed
  rw [hinfo] at hinfo'
  cases hinfo'
  simp only [ReplicaInfo.accepts, Bool.and_eq_true, Bool.not_eq_true', decide_eq_true_eq,
    Bool.or_eq_true] at haccepts
  exact ⟨info, ⟨hinfo, hexcluded, haccepts.1.2, haccepts.1.1, haddress, hreplica, haccepts.2⟩, rfl⟩

theorem ReplicaRegistry.Eligible.of_pickable (hr : r.Valid)
    (hmem : (id, info) ∈ r.getAliveReplicas) (hpickable : Pickable excluded (id, info)) :
    r.Eligible excluded id info := by
  obtain ⟨hinfo, hdead, hdraining, haddress, hreplica⟩ := mem_getAliveReplicas.mp hmem
  have hcapacity := hr.capacity_nonneg id info hinfo
  obtain ⟨hexcluded, hfull⟩ := hpickable
  dsimp only at hfull
  exact ⟨hinfo, hexcluded, hdead, hdraining, haddress, hreplica, by omega⟩

theorem ReplicaRegistry.Eligible.pickable (h : r.Eligible excluded id info) :
    (id, info) ∈ r.getAliveReplicas ∧ Pickable excluded (id, info) := by
  refine ⟨mem_getAliveReplicas.mpr
    ⟨h.entry, h.notDead, h.notDraining, h.addressed, h.isReplica⟩, h.notExcluded, ?_⟩
  rintro ⟨hpos, hfull⟩
  rcases h.hasCapacity with hzero | hlt
  · exact hpos.ne' hzero
  · exact not_lt.mpr hfull hlt

/-! ## The steps of `SelectReplica` on a registry that stands still -/

section

/-- The steps of `SelectReplica` taken in a row. There is no result without fuel. -/
def SelectStage.finish (hash : List UInt8 → ℕ) (r : ReplicaRegistry) (prompt : String)
    (excluded : List String) (draws : List ℕ) :
    ℕ → LoadBalancer → SelectStage → Option (LoadBalancer × Option Selection)
  | 0, _, _ => none
  | fuel + 1, lb, s =>
    (s.step hash r lb prompt excluded draws).bind fun (lb, next) =>
      match next with
      | .stage s => SelectStage.finish hash r prompt excluded draws fuel lb s
      | .selected selection => some (lb, selection)

variable {hash : List UInt8 → ℕ} {prompt : String} {draws : List ℕ}

theorem SelectStage.finish_walking (lb : LoadBalancer) (points : List String) (fuel : ℕ)
    (hfuel : points.length + 2 ≤ fuel) :
    SelectStage.finish hash r prompt excluded draws fuel lb (.walking points) =
      some ({ lb with ringLocked := false },
        match points.findSome? (r.candidate excluded) with
        | some selection => some selection
        | none => r.selectByLeastConnections excluded draws) := by
  induction points generalizing fuel with
  | nil =>
    obtain ⟨fuel, rfl⟩ := Nat.exists_eq_add_of_le' hfuel
    rfl
  | cons id points ih =>
    obtain ⟨fuel, rfl⟩ : ∃ n, fuel = n + 1 := ⟨fuel - 1, by omega⟩
    rw [finish, step, List.findSome?_cons]
    cases r.candidate excluded id with
    | some selection => rfl
    | none => exact ih fuel (by simpa using hfuel)

theorem SelectStage.finish_eq {lb : LoadBalancer} (hlb : lb.ringLocked = false) {fuel : ℕ}
    (hfuel : lb.ring.entries.length ≤ fuel) :
    SelectStage.finish hash r prompt excluded draws (fuel + 3) lb .hashing =
      (lb.selectReplica hash r prompt excluded draws fuel).map fun selection => (lb, selection) := by
  rw [LoadBalancer.selectReplica, selectByConsistentHash_eq hash lb r prompt excluded hfuel,
    finish, step, hlb, if_neg Bool.false_ne_true]
  by_cases hempty : lb.ring.entries = []
  · have hpoints : lb.ring.clockwise (hash ((bytes prompt).take 64)) = [] := by
      rw [OrderedMap.clockwise, hempty]
      rfl
    rw [if_pos hempty, hpoints]
    rfl
  · rw [if_neg hempty]
    have hwalk := @finish_walking r excluded hash prompt draws { lb with ringLocked := true }
      (lb.ring.clockwise (hash ((bytes prompt).take 64))) (fuel + 2)
      (by rw [OrderedMap.length_clockwise]; omega)
    have hlb' : { lb with ringLocked := false } = lb := by rw [← hlb]
    rw [Option.bind_some]
    dsimp only at hwalk ⊢
    rw [hwalk, hlb']
    rfl

end

/-- **`SelectReplica`** ends, returns only eligible replicas with their address, and returns one if
there is an eligible replica with a finite score; the ring may be that of any earlier registry. -/
theorem selectReplica_eligible (hash : List UInt8 → ℕ) (lb₀ lb : LoadBalancer)
    (r₀ : ReplicaRegistry) (ops : List RegistryOp) (prompt : String) (excluded : List String)
    (draws : List ℕ) (hring : lb₀.replaceRing hash r₀.getAliveReplicas = some lb)
    (hops : ∀ op ∈ ops, op.keepsAddresses = true) (hvalid : (ops.foldl RegistryOp.apply r₀).Valid) :
    let r := ops.foldl RegistryOp.apply r₀
    ∃ result : Option Selection,
      (∃ n, ∀ fuel, n ≤ fuel →
        lb.selectReplica hash r prompt excluded draws fuel = some result) ∧
      (∀ s, result = some s →
        ∃ info, r.Eligible excluded s.replicaId info ∧ s.grpcAddress = info.grpcAddress) ∧
      ((∃ id info, r.Eligible excluded id info ∧ info.score.isSome) → result.isSome) := by
  intro r
  have hwalk := @selectByConsistentHash_eq hash lb r prompt excluded
  generalize hpoints : lb.ring.clockwise (hash ((bytes prompt).take 64)) = points at hwalk
  have hids : ∀ e ∈ r.getAliveReplicas, e.1 ≠ "" := fun e he =>
    hvalid.id_ne e.1 e.2 (mem_getAliveReplicas.mp he).1
  cases hfound : points.findSome? (r.candidate excluded) with
  | some selection =>
    refine ⟨some selection, ⟨lb.ring.entries.length, fun fuel hfuel => ?_⟩, ?_, fun _ => rfl⟩
    · rw [LoadBalancer.selectReplica, hwalk hfuel, hfound]
      rfl
    · rintro s ⟨⟩
      obtain ⟨id, hid, hcandidate⟩ := List.exists_of_findSome?_eq_some hfound
      obtain ⟨h, hh⟩ := mem_clockwise (hpoints ▸ hid)
      obtain ⟨⟨id', info⟩, he, rfl⟩ := mem_replaceRing hring hh
      obtain ⟨hinfo, -, -, haddress, hreplica⟩ := mem_getAliveReplicas.mp he
      have haddressed : r.Addressed id' :=
        ReplicaRegistry.Addressed.foldl ⟨info, hinfo, haddress⟩ hops
      exact ReplicaRegistry.Eligible.of_candidate hcandidate haddressed hreplica
  | none =>
    refine ⟨r.selectByLeastConnections excluded draws,
      ⟨lb.ring.entries.length, fun fuel hfuel => ?_⟩, ?_, ?_⟩
    · rw [LoadBalancer.selectReplica, hwalk hfuel, hfound]
      rfl
    · intro s hs
      obtain ⟨info, hmem, hpickable, haddress⟩ := selectByLeastConnections_mem hs
      exact ⟨info, .of_pickable hvalid hmem hpickable, haddress⟩
    · rintro ⟨id, info, helig, hscore⟩
      obtain ⟨hmem, hpickable⟩ := helig.pickable
      exact selectByLeastConnections_isSome hids hmem hpickable hscore

theorem ReplicaRegistry.valid_of_entries
    (h : ∀ e ∈ r.replicas.entries, e.1 ≠ "" ∧ 0 ≤ e.2.maxCapacity ∧ 0 < e.2.weight) : r.Valid := by
  have hentry : ∀ id info, r.getReplica id = some info → ⟨id, info⟩ ∈ r.replicas.entries :=
    fun id info hinfo => AList.mem_lookup_iff.mp hinfo
  exact ⟨fun id info hinfo => (h _ (hentry id info hinfo)).1,
    fun id info hinfo => (h _ (hentry id info hinfo)).2.1,
    fun id info hinfo => (h _ (hentry id info hinfo)).2.2⟩

/-- The registry when the first replica is known, and what happens to it then: a second one joins,
and the first one dies. -/
def oneReplica : ReplicaRegistry := ReplicaRegistry.set {} "replica-1" { grpcAddress := "a:7001" }

def replacement : List RegistryOp :=
  [.updateFromGossip "replica-2" ⟨"replica-2", "b:17002", .alive, 0, "v1", 0, 4⟩,
    .updateFromGossip "replica-1" ⟨"replica-1", "a:17001", .dead, 0, "v1", 0, 4⟩]

/-- The ring knows the first replica only, which has died since. -/
theorem selectReplica_eligible_stale :
    let hash : List UInt8 → ℕ := fun s => s.length
    let r := replacement.foldl RegistryOp.apply oneReplica
    ∃ (lb : LoadBalancer) (n : ℕ),
      ({} : LoadBalancer).replaceRing hash oneReplica.getAliveReplicas = some lb ∧
      ∀ fuel, n ≤ fuel →
        lb.selectReplica hash r "hello" [] [] fuel = some (some ⟨"replica-2", "b:7002"⟩) := by
  intro hash r
  have hring : ({} : LoadBalancer).replaceRing hash oneReplica.getAliveReplicas = some _ := rfl
  obtain ⟨result, ⟨n, hn⟩, heligible, hsome⟩ := selectReplica_eligible hash {} _ oneReplica
    replacement "hello" [] [] hring (by decide) (ReplicaRegistry.valid_of_entries (by decide +kernel))
  have hlive : ∀ e ∈ r.replicas.entries, e.2.gossipState ≠ .dead →
      e.1 = "replica-2" ∧ e.2.grpcAddress = "b:7002" := by decide +kernel
  have hsecond : r.Eligible [] "replica-2" ((r.getReplica "replica-2").get (by decide +kernel)) :=
    ⟨(Option.some_get _).symm, List.not_mem_nil, by decide +kernel, by decide +kernel,
      by decide +kernel, by decide, by decide +kernel⟩
  obtain ⟨⟨id, address⟩, rfl⟩ :=
    Option.isSome_iff_exists.mp (hsome ⟨_, _, hsecond, by decide +kernel⟩)
  obtain ⟨info, helig, rfl⟩ := heligible _ rfl
  obtain ⟨rfl, haddress⟩ := hlive _ (AList.mem_lookup_iff.mp helig.entry) helig.notDead
  have haddress : info.grpcAddress = "b:7002" := haddress
  exact ⟨_, n, hring, fun fuel hfuel => by rw [hn fuel hfuel, haddress]⟩

/-- A replica whose score overflows, draining until after the ring is built. -/
def lightReplica : ReplicaInfo :=
  { grpcAddress := "a:7001", weight := 1 / 2 ^ 1074, activeRequests := 1, draining := true }

/-- An eligible replica that neither tier returns: the ring does not know it, and its score is
infinite. -/
theorem selectReplica_infinite_score :
    let hash : List UInt8 → ℕ := fun s => s.length
    let r₀ := ReplicaRegistry.set {} "replica-1" lightReplica
    let r := [RegistryOp.setDraining "replica-1" false].foldl RegistryOp.apply r₀
    ∃ lb : LoadBalancer,
      ({} : LoadBalancer).replaceRing hash r₀.getAliveReplicas = some lb ∧ r.Valid ∧
      r.Eligible [] "replica-1" { lightReplica with draining := false } ∧
      ∀ fuel, lb.selectReplica hash r "hello" [] [] fuel = some none := by
  intro hash r₀ r
  refine ⟨{}, rfl, ReplicaRegistry.valid_of_entries (by decide +kernel), ?_, fun fuel => ?_⟩
  · exact ⟨rfl, List.not_mem_nil, by decide, rfl, by decide, by decide, Or.inr (by decide)⟩
  · have hring : (({} : LoadBalancer).ring).entries = [] := rfl
    have hempty : r.selectByLeastConnections [] [] = none := by decide +kernel
    rw [LoadBalancer.selectReplica, LoadBalancer.selectByConsistentHash, OrderedMap.walk,
      if_pos hring, Option.map_some]
    exact congrArg some hempty

end LlmGateway.Gateway
