import LlmGateway.Gateway.Selection
import Mathlib.Data.List.Basic

/-!
# Minimal remapping

With a hash that has no collisions, the ring of `R` is the ring of `R` and `v` without the points of
`v` (`mem_replaceRing_iff`). So a walk on the larger ring that does not end at `v` passes the same
points (`find_without`), and `minimal_remapping` compares the two selections.
-/

namespace LlmGateway.Gateway

/-- The key of a virtual node. -/
def virtualNodeKey (id : String) (i : ℕ) : String := id ++ "#" ++ toString i

theorem hash_notMem_toString (i : ℕ) : '#' ∉ (toString i).toList := by
  have hrepr : (toString i).toList = Nat.toDigits 10 i := Nat.toList_repr
  intro h
  rw [hrepr] at h
  exact absurd (Nat.isDigit_of_mem_toDigits (by decide) (by decide) h) (by decide)

/-- The replica of a virtual node is what comes before the last `#` of its key. -/
theorem id_of_virtualNodeKey (id : String) (i : ℕ) :
    (virtualNodeKey id i).toList.reverse.dropWhile (· ≠ '#') = '#' :: id.toList.reverse := by
  have hdigits : ∀ c ∈ (toString i).toList.reverse, (decide (c ≠ '#')) = true := by
    intro c hc
    have hne : c ≠ '#' := fun heq => hash_notMem_toString i (heq ▸ List.mem_reverse.mp hc)
    exact decide_eq_true hne
  have hsharp : ("#" : String).toList.reverse = ['#'] := rfl
  rw [virtualNodeKey, String.toList_append, String.toList_append, List.reverse_append,
    List.reverse_append, hsharp, List.dropWhile_append_of_pos hdigits]
  rfl

theorem virtualNodeKey_injective {id id' : String} {i j : ℕ}
    (h : virtualNodeKey id i = virtualNodeKey id' j) : id = id' := by
  have hid := id_of_virtualNodeKey id i
  rw [h, id_of_virtualNodeKey] at hid
  exact String.ext (List.reverse_injective (List.cons.inj hid).2.symm)

/-- The hash has no collisions among the keys of the virtual nodes of some replicas. -/
def CollisionFree (hash : List UInt8 → ℕ) (virtualNodes : ℤ) (ids : List String) : Prop :=
  ∀ id ∈ ids, ∀ id' ∈ ids, ∀ i < virtualNodes.toNat, ∀ j < virtualNodes.toNat,
    hash (bytes (virtualNodeKey id i)) = hash (bytes (virtualNodeKey id' j)) →
    virtualNodeKey id i = virtualNodeKey id' j

instance (hash : List UInt8 → ℕ) (virtualNodes : ℤ) (ids : List String) :
    Decidable (CollisionFree hash virtualNodes ids) :=
  inferInstanceAs (Decidable (∀ id ∈ ids, ∀ id' ∈ ids, ∀ i < virtualNodes.toNat,
    ∀ j < virtualNodes.toNat, hash (bytes (virtualNodeKey id i)) =
      hash (bytes (virtualNodeKey id' j)) → virtualNodeKey id i = virtualNodeKey id' j))

variable {hash : List UInt8 → ℕ} {lb lb' : LoadBalancer} {alive : List (String × ReplicaInfo)}
  {h : ℕ} {id v : String}

/-- **The points of a ring** built without collisions. -/
theorem mem_replaceRing_iff (hhash : CollisionFree hash lb.virtualNodes (alive.map Prod.fst))
    (hring : lb.replaceRing hash alive = some lb') :
    (h, id) ∈ lb'.ring.entries ↔ id ∈ alive.map Prod.fst ∧
      ∃ i < lb.virtualNodes.toNat, h = hash (bytes (virtualNodeKey id i)) := by
  unfold LoadBalancer.replaceRing at hring
  split_ifs at hring
  cases hring
  -- the insertions in a row
  have hfold : (alive.foldl (fun ring e => lb.placeReplica hash ring e.1) .empty) =
      (alive.flatMap fun e => (List.range lb.virtualNodes.toNat).map fun i =>
        (hash (bytes (virtualNodeKey e.1 i)), e.1)).foldl
          (fun m y => m.insert y.1 y.2) .empty := by
    rw [List.foldl_flatMap]
    simp only [List.foldl_map]
    rfl
  have hmem : ∀ x : ℕ × String, (x ∈ alive.flatMap fun e =>
      (List.range lb.virtualNodes.toNat).map fun i =>
        (hash (bytes (virtualNodeKey e.1 i)), e.1)) ↔
      x.2 ∈ alive.map Prod.fst ∧
        ∃ i < lb.virtualNodes.toNat, x.1 = hash (bytes (virtualNodeKey x.2 i)) := by
    rintro ⟨h, id⟩
    simp only [List.mem_flatMap, List.mem_map, List.mem_range, Prod.mk.injEq]
    constructor
    · rintro ⟨e, he, i, hi, rfl, rfl⟩
      exact ⟨⟨e, he, rfl⟩, i, hi, rfl⟩
    · rintro ⟨⟨e, he, rfl⟩, i, hi, rfl⟩
      exact ⟨e, he, i, hi, rfl, rfl⟩
  dsimp only
  rw [hfold, OrderedMap.mem_foldl_insert ?_, hmem]
  · constructor
    · rintro (hx | ⟨-, hx⟩)
      · exact hx
      · exact absurd hx List.not_mem_nil
    · exact Or.inl
  · rintro ⟨h₁, id₁⟩ hx₁ ⟨h₂, id₂⟩ hx₂ rfl
    obtain ⟨hid₁, i, hi, heq₁⟩ := (hmem _).mp hx₁
    obtain ⟨hid₂, j, hj, heq₂⟩ := (hmem _).mp hx₂
    dsimp only at hid₁ heq₁ hid₂ heq₂
    have hkeys := hhash id₁ hid₁ id₂ hid₂ i hi j hj (heq₁.symm.trans heq₂)
    rw [virtualNodeKey_injective hkeys]

/-! ## Two walks -/

variable {excluded : List String} {r r' : ReplicaRegistry}

theorem candidate_replicaId {selection : Selection} (h : r.candidate excluded id = some selection) :
    selection.replicaId = id := by
  obtain ⟨-, info, -, -, rfl⟩ := candidate_eq_some_iff.mp h
  rfl

/-- A walk that passes the points of `v` as well ends at `v` or where the other one ends. -/
theorem find_without {points : List String}
    (hsame : ∀ id ∈ points, id ≠ v →
      ((r'.candidate excluded id).isSome ↔ (r.candidate excluded id).isSome)) :
    (points.findSome? (r'.candidate excluded)).map (·.replicaId) = some v ∨
      (points.findSome? (r'.candidate excluded)).map (·.replicaId) =
        ((points.filter (· ≠ v)).findSome? (r.candidate excluded)).map (·.replicaId) := by
  induction points with
  | nil => exact Or.inr rfl
  | cons id points ih =>
    have ih := ih fun id' hid' => hsame id' (List.mem_cons_of_mem _ hid')
    rw [List.findSome?_cons]
    by_cases hid : id = v
    · subst hid
      cases hcandidate : r'.candidate excluded id with
      | some selection => exact Or.inl (congrArg some (candidate_replicaId hcandidate))
      | none => simpa using ih
    · have hiff := hsame id List.mem_cons_self hid
      rw [List.filter_cons_of_pos (by simpa using hid), List.findSome?_cons]
      cases hcandidate : r'.candidate excluded id with
      | some selection =>
        rw [hcandidate] at hiff
        obtain ⟨selection', hselection'⟩ := Option.isSome_iff_exists.mp (hiff.mp rfl)
        rw [hselection']
        exact Or.inr (congrArg some
          ((candidate_replicaId hcandidate).trans (candidate_replicaId hselection').symm))
      | none =>
        rw [hcandidate] at hiff
        have hnone : r.candidate excluded id = none := by
          cases hother : r.candidate excluded id with
          | none => rfl
          | some selection => exact absurd (hiff.mpr (by rw [hother]; rfl)) Bool.false_ne_true
        rw [hnone]
        exact ih

/-- **Minimal remapping.** On the ring built from the replicas `R` with one more, `v`, the walk
selects `v` or the replica that it selects on the ring built from `R`. -/
theorem minimal_remapping (hash : List UInt8 → ℕ) (lb₀ lb lb' : LoadBalancer)
    (alive alive' : List (String × ReplicaInfo)) (v : String) (r r' : ReplicaRegistry)
    (prompt : String) (excluded : List String)
    (hnew : v ∉ alive.map Prod.fst)
    (hadded : ∀ id, id ∈ alive'.map Prod.fst ↔ id = v ∨ id ∈ alive.map Prod.fst)
    (hhash : CollisionFree hash lb₀.virtualNodes (alive'.map Prod.fst))
    (hring : lb₀.replaceRing hash alive = some lb)
    (hring' : lb₀.replaceRing hash alive' = some lb')
    (hsame : ∀ id ∈ alive.map Prod.fst,
      ((r'.candidate excluded id).isSome ↔ (r.candidate excluded id).isSome)) :
    ∃ result result' : Option Selection,
      (∃ n, ∀ fuel, n ≤ fuel →
        lb.selectByConsistentHash hash r prompt excluded fuel = some result ∧
        lb'.selectByConsistentHash hash r' prompt excluded fuel = some result') ∧
      (result'.map (·.replicaId) = some v ∨
        result'.map (·.replicaId) = result.map (·.replicaId)) := by
  have hhash₀ : CollisionFree hash lb₀.virtualNodes (alive.map Prod.fst) :=
    fun id hid id' hid' => hhash id ((hadded id).mpr (Or.inr hid)) id'
      ((hadded id').mpr (Or.inr hid'))
  have hpoints : ∀ x, x ∈ lb.ring.entries ↔ x ∈ lb'.ring.entries ∧ (decide (x.2 ≠ v)) = true := by
    rintro ⟨h, id⟩
    rw [mem_replaceRing_iff hhash₀ hring, mem_replaceRing_iff hhash hring', hadded,
      decide_eq_true_eq]
    constructor
    · rintro ⟨hid, hkey⟩
      exact ⟨⟨Or.inr hid, hkey⟩, fun heq => hnew (heq ▸ hid)⟩
    · rintro ⟨⟨hid, hkey⟩, hne⟩
      exact ⟨hid.resolve_left hne, hkey⟩
  have hcircle := @OrderedMap.clockwise_filter _ _ _ lb'.ring lb.ring (fun id => decide (id ≠ v))
    (hash ((bytes prompt).take 64)) hpoints
  refine ⟨_, _, ⟨max lb.ring.entries.length lb'.ring.entries.length, fun fuel hfuel =>
    ⟨selectByConsistentHash_eq hash lb r prompt excluded (le_of_max_le_left hfuel),
      selectByConsistentHash_eq hash lb' r' prompt excluded (le_of_max_le_right hfuel)⟩⟩, ?_⟩
  rw [hcircle]
  refine find_without fun id hid hne => hsame id ?_
  obtain ⟨h, hh⟩ := mem_clockwise hid
  exact ((hadded id).mp ((mem_replaceRing_iff hhash hring').mp hh).1).resolve_left hne

/-- The bytes as the digits of a number: this hash has no collisions. -/
def digits (s : List UInt8) : ℕ := s.foldl (fun n b => 256 * n + b.toNat) 1

/-- A second replica joins a ring of one. -/
theorem minimal_remapping_pair :
    let r := (replacement.take 1).foldl RegistryOp.apply oneReplica
    ∃ (lb lb' : LoadBalancer) (result result' : Option Selection) (n : ℕ),
      ({ virtualNodes := 3 } : LoadBalancer).replaceRing digits oneReplica.getAliveReplicas =
        some lb ∧
      ({ virtualNodes := 3 } : LoadBalancer).replaceRing digits r.getAliveReplicas = some lb' ∧
      (∀ fuel, n ≤ fuel → lb.selectByConsistentHash digits r "hello" [] fuel = some result ∧
        lb'.selectByConsistentHash digits r "hello" [] fuel = some result') ∧
      (result'.map (·.replicaId) = some "replica-2" ∨
        result'.map (·.replicaId) = result.map (·.replicaId)) := by
  intro r
  have hids : r.getAliveReplicas.map Prod.fst = ["replica-2", "replica-1"] := by decide +kernel
  obtain ⟨result, result', ⟨n, hn⟩, hor⟩ := minimal_remapping digits { virtualNodes := 3 } _ _
    oneReplica.getAliveReplicas r.getAliveReplicas "replica-2" r r "hello" [] (by decide +kernel)
    (fun id => by
      have hold : oneReplica.getAliveReplicas.map Prod.fst = ["replica-1"] := by decide +kernel
      simp [hids, hold])
    (by rw [hids]; decide +kernel) rfl rfl (fun _ _ => Iff.rfl)
  exact ⟨_, _, result, result', n, rfl, rfl, hn, hor⟩

end LlmGateway.Gateway
