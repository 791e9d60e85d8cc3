import LlmGateway.Gateway.Remapping
import LlmGateway.Lib.Successive

/-!
# Prompt affinity

Where the hash has no collisions, a ring is determined by the replicas it was built from
(`replaceRing_ring_eq`): neither the order of the snapshot nor the ring before it matters, nor the
load or the address of a replica. So gateways that know the same replicas send a prompt the same way,
and the replicas a prompt turns to as one after the other fails are one fixed order, in which every
replica of the ring stands once (`affinityOrder`).
-/

namespace LlmGateway.Gateway

variable {hash : List UInt8 → ℕ} {lb lb₁ lb₂ lb₁' lb₂' : LoadBalancer}
  {alive alive₁ alive₂ : List (String × ReplicaInfo)} {r r₁ r₂ : ReplicaRegistry}
  {prompt : String} {excluded : List String} {id : String}

/-- The replicas around the ring from the hash of the prompt, each at its first point. -/
def affinityOrder (hash : List UInt8 → ℕ) (lb : LoadBalancer) (prompt : String) : List String :=
  (lb.ring.clockwise (hash ((bytes prompt).take 64))).eraseDups

/-- What the walk returns, none while it goes on. -/
def LoadBalancer.walked (hash : List UInt8 → ℕ) (lb : LoadBalancer) (r : ReplicaRegistry)
    (prompt : String) (fuel : ℕ) (excluded : List String) : Option Selection :=
  (lb.selectByConsistentHash hash r prompt excluded fuel).join

/-- The selections for a prompt, one after the other, when what has been selected is excluded from
then on. -/
def failovers (hash : List UInt8 → ℕ) (lb : LoadBalancer) (r : ReplicaRegistry) (prompt : String)
    (fuel : ℕ) (retries : ℕ) : List Selection :=
  Successive.picks (lb.walked hash r prompt fuel) Selection.replicaId retries []

theorem candidate_excluded (r : ReplicaRegistry) (excluded : List String) (id : String) :
    r.candidate excluded id = if id ∈ excluded then none else r.candidate [] id := by
  unfold ReplicaRegistry.candidate
  rw [if_neg (show id ∉ [] from List.not_mem_nil)]

/-- The walk chooses the first replica around the ring that accepts and is not excluded. -/
theorem walked_eq {fuel : ℕ} (hfuel : lb.ring.entries.length ≤ fuel) :
    lb.walked hash r prompt fuel = Successive.first (r.candidate [])
      (lb.ring.clockwise (hash ((bytes prompt).take 64))) := by
  funext excluded
  unfold LoadBalancer.walked
  rw [selectByConsistentHash_eq hash lb r prompt excluded hfuel]
  show List.findSome? (r.candidate excluded) _ = _
  unfold Successive.first
  exact congrArg (List.findSome? · _) (funext fun id => candidate_excluded r excluded id)

/-- **A ring is determined by its replicas.** -/
theorem replaceRing_ring_eq (hnodes : lb₁.virtualNodes = lb₂.virtualNodes)
    (hids : ∀ id, id ∈ alive₁.map Prod.fst ↔ id ∈ alive₂.map Prod.fst)
    (hhash : CollisionFree hash lb₁.virtualNodes (alive₁.map Prod.fst))
    (hring₁ : lb₁.replaceRing hash alive₁ = some lb₁')
    (hring₂ : lb₂.replaceRing hash alive₂ = some lb₂') : lb₁'.ring = lb₂'.ring := by
  have hhash₂ : CollisionFree hash lb₂.virtualNodes (alive₂.map Prod.fst) := by
    rw [← hnodes]
    exact fun id hid id' hid' => hhash id ((hids id).mpr hid) id' ((hids id').mpr hid')
  have hentries : lb₁'.ring.entries = lb₂'.ring.entries := by
    refine OrderedMap.entries_ext lb₁'.ring.sorted lb₂'.ring.sorted ?_
    rintro ⟨h, id⟩
    rw [mem_replaceRing_iff hhash hring₁, mem_replaceRing_iff hhash₂ hring₂, hids, hnodes]
  cases hr₁ : lb₁'.ring
  cases hr₂ : lb₂'.ring
  rw [hr₁, hr₂] at hentries
  cases hentries
  rfl

theorem mem_affinityOrder (hnodes : 0 < lb.virtualNodes)
    (hhash : CollisionFree hash lb.virtualNodes (alive.map Prod.fst))
    (hring : lb.replaceRing hash alive = some lb₁') :
    id ∈ affinityOrder hash lb₁' prompt ↔ id ∈ alive.map Prod.fst := by
  unfold affinityOrder
  rw [List.mem_eraseDups]
  constructor
  · intro hmem
    obtain ⟨h, hh⟩ := mem_clockwise hmem
    exact ((mem_replaceRing_iff hhash hring).mp hh).1
  · intro hid
    have hpoint := (mem_replaceRing_iff hhash hring).mpr ⟨hid, 0, by omega, rfl⟩
    unfold OrderedMap.clockwise
    refine List.mem_map.mpr ⟨(hash (bytes (virtualNodeKey id 0)), id), List.mem_append.mpr ?_, rfl⟩
    rcases le_or_gt (hash ((bytes prompt).take 64)) (hash (bytes (virtualNodeKey id 0))) with hle | hlt
    · exact Or.inl (List.mem_filter.mpr ⟨hpoint, decide_eq_true hle⟩)
    · exact Or.inr (List.mem_filter.mpr ⟨hpoint, decide_eq_true hlt⟩)

/-- **Prompt affinity.** Two gateways with rings built from the same replicas, whatever the order of
their snapshots and their rings before, and with the same replicas open at the same addresses, find
the same replica on the ring for prompts with the same first 64 bytes, whatever is excluded. As what
was selected is excluded, they turn to the same replicas in the same order: all replicas of the ring
that are open, each once. -/
theorem routing_agrees (hash : List UInt8 → ℕ) (lb₁ lb₂ lb₁' lb₂' : LoadBalancer)
    (alive₁ alive₂ : List (String × ReplicaInfo)) (r₁ r₂ : ReplicaRegistry)
    (prompt₁ prompt₂ : String) (hnodes : lb₁.virtualNodes = lb₂.virtualNodes)
    (hpos : 0 < lb₁.virtualNodes)
    (hids : ∀ id, id ∈ alive₁.map Prod.fst ↔ id ∈ alive₂.map Prod.fst)
    (hhash : CollisionFree hash lb₁.virtualNodes (alive₁.map Prod.fst))
    (hring₁ : lb₁.replaceRing hash alive₁ = some lb₁')
    (hring₂ : lb₂.replaceRing hash alive₂ = some lb₂')
    (hsame : ∀ id ∈ alive₁.map Prod.fst, r₁.candidate [] id = r₂.candidate [] id)
    (hprompt : (bytes prompt₁).take 64 = (bytes prompt₂).take 64) :
    ∃ n, ∀ fuel, n ≤ fuel →
      (∀ excluded, ∃ result, lb₁'.selectByConsistentHash hash r₁ prompt₁ excluded fuel = some result ∧
        lb₂'.selectByConsistentHash hash r₂ prompt₂ excluded fuel = some result) ∧
      ∃ order : List String, order.Nodup ∧ (∀ id, id ∈ order ↔ id ∈ alive₁.map Prod.fst) ∧
        ∀ retries,
          failovers hash lb₁' r₁ prompt₁ fuel retries =
            (order.filterMap (r₁.candidate [])).take retries ∧
          failovers hash lb₂' r₂ prompt₂ fuel retries =
            (order.filterMap (r₁.candidate [])).take retries := by
  have hring := replaceRing_ring_eq hnodes hids hhash hring₁ hring₂
  have horder : affinityOrder hash lb₁' prompt₁ = affinityOrder hash lb₂' prompt₂ := by
    unfold affinityOrder
    rw [hring, hprompt]
  have hmem : ∀ id, id ∈ affinityOrder hash lb₁' prompt₁ ↔ id ∈ alive₁.map Prod.fst :=
    fun id => mem_affinityOrder hpos hhash hring₁
  refine ⟨lb₁'.ring.entries.length, fun fuel hfuel => ⟨fun excluded => ?_, ?_⟩⟩
  · have hfuel₂ : lb₂'.ring.entries.length ≤ fuel := hring ▸ hfuel
    refine ⟨_, selectByConsistentHash_eq hash lb₁' r₁ prompt₁ excluded hfuel, ?_⟩
    rw [selectByConsistentHash_eq hash lb₂' r₂ prompt₂ excluded hfuel₂, ← hring, ← hprompt]
    congr 1
    have hcongr : ∀ id ∈ lb₁'.ring.clockwise (hash ((bytes prompt₁).take 64)),
        r₂.candidate excluded id = r₁.candidate excluded id := by
      intro id hid
      obtain ⟨h, hh⟩ := mem_clockwise hid
      rw [candidate_excluded r₁, candidate_excluded r₂,
        hsame id ((mem_replaceRing_iff hhash hring₁).mp hh).1]
    generalize lb₁'.ring.clockwise (hash ((bytes prompt₁).take 64)) = points at hcongr
    induction points with
    | nil => rfl
    | cons id points ih =>
      rw [List.findSome?_cons, List.findSome?_cons, hcongr id List.mem_cons_self,
        ih fun id' hid' => hcongr id' (List.mem_cons_of_mem _ hid')]
  · have hkey : ∀ (r : ReplicaRegistry) (id : String) (s : Selection),
        r.candidate [] id = some s → s.replicaId = id := fun _ _ _ h => candidate_replicaId h
    have hall : ∀ xs : List String, xs.filter (· ∉ ([] : List String)) = xs :=
      fun xs => List.filter_eq_self.mpr fun _ _ => by simp
    refine ⟨affinityOrder hash lb₁' prompt₁, Successive.nodup_eraseDups _, hmem, fun retries => ?_⟩
    constructor
    · unfold failovers
      rw [walked_eq hfuel, Successive.picks_findSome (hkey r₁), hall]
      rfl
    · unfold failovers
      rw [walked_eq (hring ▸ hfuel), Successive.picks_findSome (hkey r₂), hall]
      show ((affinityOrder hash lb₂' prompt₂).filterMap (r₂.candidate [])).take retries = _
      rw [← horder]
      congr 1
      exact (List.filterMap_congr fun id hid => hsame id ((hmem id).mp hid)).symm

/-- Two gateways list the same two replicas in different orders. -/
theorem routing_agrees_pair :
    let r := (replacement.take 1).foldl RegistryOp.apply oneReplica
    ∃ (lb₁ lb₂ : LoadBalancer) (n : ℕ),
      ({ virtualNodes := 3 } : LoadBalancer).replaceRing digits r.getAliveReplicas = some lb₁ ∧
      ({ virtualNodes := 3 } : LoadBalancer).replaceRing digits r.getAliveReplicas.reverse =
        some lb₂ ∧
      failovers digits lb₁ r "hello" n 3 = failovers digits lb₂ r "hello" n 3 := by
  intro r
  have hids : r.getAliveReplicas.map Prod.fst = ["replica-2", "replica-1"] := by decide +kernel
  obtain ⟨n, hn⟩ := routing_agrees digits { virtualNodes := 3 } { virtualNodes := 3 } _ _
    r.getAliveReplicas r.getAliveReplicas.reverse r r "hello" "hello" rfl (by decide)
    (fun id => by rw [List.map_reverse, List.mem_reverse]) (by rw [hids]; decide +kernel) rfl rfl
    (fun _ _ => rfl) rfl
  obtain ⟨-, order, -, -, hfailovers⟩ := hn n le_rfl
  exact ⟨_, _, n, rfl, rfl, (hfailovers 3).1.trans (hfailovers 3).2.symm⟩

end LlmGateway.Gateway
