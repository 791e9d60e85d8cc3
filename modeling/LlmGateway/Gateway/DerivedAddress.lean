import LlmGateway.Gossip.AddressSyntax
import LlmGateway.Gateway.Selection
import Mathlib.Data.List.Induction

/-!
# The gRPC address a gossip address stands for

`UpdateFromGossip` overwrites the gossip address of a replica with every update, and derives the
gRPC address from it only while there is none. A derived address counts as there, as one set by
`SetGrpcAddress` does, so of all the gossip addresses of a replica the first one that an endpoint
can be derived from decides for good.

1. `addresses_foldl`: the two addresses of a replica after any operations.
2. `follows_iff`: when the endpoint is always the one of the latest gossip address.
-/

namespace LlmGateway.Gateway

open Gossip

/-- The endpoint of a replica with this gossip address. -/
def endpoint (a : Address) : String := a.host ++ ":" ++ toString ((a.port.toNat : ℤ) - 10000)

/-- What `UpdateFromGossip` derives from a gossip address, if anything. -/
def derived (gossipAddress : String) : Option String :=
  (deriveGrpcAddress gossipAddress).toOption.join

/-- The gossip address of the replica that an operation brings. -/
def RegistryOp.told (id : String) : RegistryOp → Option String
  | .updateFromGossip id' u => if id' = id then some u.address else none
  | _ => none

/-- The gossip addresses of the replica, oldest first. -/
def gossipAddresses (id : String) (ops : List RegistryOp) : List String :=
  ops.filterMap (RegistryOp.told id)

/-- The first endpoint that can be derived from a gossip address of the replica. -/
def firstDerived (id : String) (ops : List RegistryOp) : Option String :=
  (gossipAddresses id ops).findSome? derived

/-- The gossip address and the gRPC address in the entry of the replica. -/
def ReplicaRegistry.addresses (r : ReplicaRegistry) (id : String) : Option (String × String) :=
  (r.getReplica id).map fun info => (info.gossipAddress, info.grpcAddress)

/-- Where the latest gossip address of the replica is well formed, with a port above 10000, the
registry has the endpoint that it stands for. -/
def Follows (id : String) (ops : List RegistryOp) (r : ReplicaRegistry) : Prop :=
  ∀ address, (gossipAddresses id ops).getLast? = some address →
    ∀ a, Spells address a → 10000 < a.port.toNat →
      r.addresses id = some (address, endpoint a)

variable {r : ReplicaRegistry} {id id' address g : String} {u : MembershipUpdate} {a : Address}
  {op : RegistryOp} {ops pre : List RegistryOp}

/-! ## Deriving an endpoint -/

theorem derived_of_spells (h : Spells address a) : derived address = some (endpoint a) := by
  obtain ⟨digits, hs, hne, hdigits, hport⟩ := spells_iff.mp h
  have hlt := a.port.toNat_lt
  unfold derived deriveGrpcAddress
  rw [hs]
  dsimp only
  rw [stoi_of_digits hne hdigits (by omega), hport, String.ofList_toList]
  rfl

theorem derived_ne_empty (h : derived address = some g) : g ≠ "" := by
  unfold derived deriveGrpcAddress at h
  cases hs : rfindSplit ':' address.toList with
  | none => rw [hs] at h; cases h
  | some parts =>
    obtain ⟨host, port⟩ := parts
    rw [hs] at h
    dsimp only at h
    cases hport : stoi port with
    | error e => rw [hport] at h; cases h
    | ok n =>
      rw [hport] at h
      cases h
      intro hempty
      have hchars := congrArg String.toList hempty
      simp at hchars

/-- The address that is kept or derived, in the words of the code. -/
theorem grpcAddress_updateFromGossip (r : ReplicaRegistry) (id : String) (u : MembershipUpdate) :
    ∃ info, (r.updateFromGossip id u).1.getReplica id = some info ∧
      info.gossipAddress = u.address ∧
      info.grpcAddress = if ((r.getReplica id).getD {}).grpcAddress = ""
        then (derived u.address).getD "" else ((r.getReplica id).getD {}).grpcAddress := by
  generalize hold : (r.getReplica id).getD {} = old
  have haddress : (old.refresh u).gossipAddress = u.address := rfl
  have hgrpc : (old.refresh u).grpcAddress = old.grpcAddress := rfl
  unfold ReplicaRegistry.updateFromGossip
  rw [hold]
  dsimp only
  rw [haddress, hgrpc]
  by_cases hempty : old.grpcAddress = ""
  · rw [if_pos hempty]
    by_cases hnone : u.address = ""
    · rw [if_neg fun h => h.2 hnone]
      exact ⟨_, ReplicaRegistry.getReplica_set, rfl, by rw [hgrpc, hempty, hnone]; rfl⟩
    · rw [if_pos ⟨hempty, hnone⟩]
      unfold derived
      cases deriveGrpcAddress u.address with
      | error e => exact ⟨_, ReplicaRegistry.getReplica_set, rfl, hempty⟩
      | ok address =>
        cases address with
        | none => exact ⟨_, ReplicaRegistry.getReplica_set, rfl, hempty⟩
        | some g => exact ⟨_, ReplicaRegistry.getReplica_set, rfl, rfl⟩
  · rw [if_neg hempty, if_neg fun h => hempty h.1]
    exact ⟨_, ReplicaRegistry.getReplica_set, rfl, rfl⟩

/-! ## The addresses of a replica over the operations -/

/-- An operation that brings no gossip address of the replica leaves both its addresses. -/
theorem addresses_apply_of_not_told (htold : op.told id = none)
    (hop : ∀ address, op ≠ .setGrpcAddress id address) :
    (op.apply r).addresses id = r.addresses id := by
  have hmodify : ∀ (id' : String) (f : ReplicaInfo → ReplicaInfo),
      (∀ info, ((f info).gossipAddress, (f info).grpcAddress) =
        (info.gossipAddress, info.grpcAddress)) →
      (r.modify id' f).addresses id = r.addresses id := by
    intro id' f hf
    unfold ReplicaRegistry.addresses
    by_cases hid : id = id'
    · subst hid
      rw [ReplicaRegistry.getReplica_modify, Option.map_map]
      exact congrArg (Option.map · _) (funext hf)
    · rw [ReplicaRegistry.getReplica_modify_of_ne f hid]
  cases op with
  | updateFromGossip id' u =>
    have hid : id ≠ id' := by
      rintro rfl
      rw [RegistryOp.told, if_pos rfl] at htold
      cases htold
    show ((r.updateFromGossip id' u).1.getReplica id).map _ = _
    rw [ReplicaRegistry.getReplica_updateFromGossip_of_ne u hid]
    rfl
  | incrementActive id' => exact hmodify id' _ fun info => rfl
  | decrementActive id' => exact hmodify id' _ fun info => rfl
  | setDraining id' draining => exact hmodify id' _ fun info => rfl
  | setGrpcAddress id' address =>
    have hid : id ≠ id' := by
      rintro rfl
      exact hop address rfl
    show ((r.set id' _).getReplica id).map _ = _
    rw [ReplicaRegistry.getReplica_set_of_ne hid]
    rfl

theorem addresses_apply_of_told (htold : op.told id = some address) :
    (op.apply r).addresses id = some (address,
      if ((r.addresses id).elim "" Prod.snd) = "" then (derived address).getD ""
      else (r.addresses id).elim "" Prod.snd) := by
  cases op with
  | updateFromGossip id' u =>
    rw [RegistryOp.told] at htold
    split_ifs at htold with hid
    cases htold
    subst hid
    have hold : (r.addresses id').elim "" Prod.snd = ((r.getReplica id').getD {}).grpcAddress := by
      unfold ReplicaRegistry.addresses
      cases r.getReplica id' <;> rfl
    obtain ⟨info, hinfo, haddress, hgrpc⟩ := grpcAddress_updateFromGossip r id' u
    rw [hold]
    show ((r.updateFromGossip id' u).1.getReplica id').map _ = _
    rw [hinfo, Option.map_some, haddress, hgrpc]
  | incrementActive id' => cases htold
  | decrementActive id' => cases htold
  | setDraining id' draining => cases htold
  | setGrpcAddress id' address => cases htold

theorem gossipAddresses_snoc :
    gossipAddresses id (ops ++ [op]) = gossipAddresses id ops ++ (op.told id).toList := by
  unfold gossipAddresses
  rw [List.filterMap_append]
  cases h : op.told id with
  | none => rw [List.filterMap_cons_none h]; rfl
  | some address => rw [List.filterMap_cons_some h]; rfl

theorem firstDerived_ne_empty (h : firstDerived id ops = some g) : g ≠ "" := by
  obtain ⟨address, -, hderived⟩ := List.exists_of_findSome?_eq_some h
  exact derived_ne_empty hderived

/-- **The addresses of a replica.** The gossip address is the latest one, and the gRPC address the
first one that could be derived. -/
theorem addresses_foldl (hops : ∀ op ∈ ops, ∀ address, op ≠ .setGrpcAddress id address) :
    (ops.foldl RegistryOp.apply {}).addresses id =
      (gossipAddresses id ops).getLast?.map fun address =>
        (address, (firstDerived id ops).getD "") := by
  induction ops using List.reverseRecOn with
  | nil => rfl
  | append_singleton ops op ih =>
    have hih := ih fun op' hop' => hops op' (List.mem_append_left _ hop')
    have hop := hops op (List.mem_append_right _ (List.mem_singleton_self op))
    rw [List.foldl_append, List.foldl_cons, List.foldl_nil]
    unfold firstDerived
    rw [gossipAddresses_snoc]
    cases htold : op.told id with
    | none =>
      rw [addresses_apply_of_not_told htold hop, hih, Option.toList_none, List.append_nil]
      rfl
    | some address =>
      have hkept : ((gossipAddresses id ops).getLast?.map fun address =>
          (address, (firstDerived id ops).getD "")).elim "" Prod.snd =
          (firstDerived id ops).getD "" := by
        unfold firstDerived
        cases hlast : (gossipAddresses id ops).getLast? with
        | none => rw [List.getLast?_eq_none_iff.mp hlast]; rfl
        | some address => rfl
      rw [addresses_apply_of_told htold, hih, hkept, Option.toList_some, List.getLast?_concat,
        List.findSome?_append]
      refine congrArg some (Prod.ext rfl ?_)
      show _ = ((firstDerived id ops).or _).getD ""
      cases hfirst : firstDerived id ops with
      | none =>
        rw [Option.getD_none, if_pos rfl, Option.none_or]
        cases hderived : derived address with
        | none => rw [List.findSome?_cons_of_isNone (by rw [hderived]; rfl)]; rfl
        | some g => rw [List.findSome?_cons_of_isSome (by rw [hderived]; rfl), hderived]
      | some g => rw [Option.getD_some, if_neg (firstDerived_ne_empty hfirst)]; rfl

/-! ## When the endpoint follows -/

theorem gossipAddresses_mono (h : pre <+: ops) :
    gossipAddresses id pre <+: gossipAddresses id ops :=
  h.filterMap _

theorem firstDerived_of_mem (h : address ∈ gossipAddresses id ops) (hspells : Spells address a) :
    ∃ g, firstDerived id ops = some g := by
  refine Option.isSome_iff_exists.mp (List.findSome?_isSome_iff.mpr ⟨address, h, ?_⟩)
  rw [derived_of_spells hspells]
  rfl

/-- The endpoint derived first stays the first. -/
theorem firstDerived_mono (h : pre <+: ops) (hpre : firstDerived id pre = some g) :
    firstDerived id ops = some g := by
  have hmono : gossipAddresses id pre <+: gossipAddresses id ops := gossipAddresses_mono h
  obtain ⟨rest, hrest⟩ := hmono
  unfold firstDerived at hpre ⊢
  rw [← hrest, List.findSome?_append, hpre, Option.some_or]

/-- **When the endpoint follows the gossip address.** For a replica whose endpoint is not set
explicitly: exactly if all its well-formed gossip addresses with a port above 10000 stand for the
endpoint that was derived first. -/
theorem follows_iff (id : String) (ops : List RegistryOp)
    (hops : ∀ op ∈ ops, ∀ address, op ≠ .setGrpcAddress id address) :
    (∀ pre, pre <+: ops → Follows id pre (pre.foldl RegistryOp.apply {})) ↔
      ∀ address ∈ gossipAddresses id ops, ∀ a, Spells address a → 10000 < a.port.toNat →
        firstDerived id ops = some (endpoint a) := by
  have hexact : ∀ pre, pre <+: ops → (pre.foldl RegistryOp.apply {}).addresses id =
      (gossipAddresses id pre).getLast?.map fun address =>
        (address, (firstDerived id pre).getD "") :=
    fun pre hpre => addresses_foldl fun op hop => hops op (hpre.subset hop)
  constructor
  · intro h address haddress a hspells hport
    -- the moment the registry was told of this address
    obtain ⟨op, hop, htold⟩ := List.mem_filterMap.mp haddress
    obtain ⟨before, after, rfl⟩ := List.append_of_mem hop
    have hpre : before ++ [op] <+: before ++ op :: after := ⟨after, by simp⟩
    have hlast : (gossipAddresses id (before ++ [op])).getLast? = some address := by
      rw [gossipAddresses_snoc, htold, Option.toList_some, List.getLast?_concat]
    have hfollows := h _ hpre address hlast a hspells hport
    rw [hexact _ hpre, hlast] at hfollows
    have hfirst : (firstDerived id (before ++ [op])).getD "" = endpoint a :=
      congrArg Prod.snd (Option.some.inj hfollows)
    obtain ⟨g, hg⟩ := firstDerived_of_mem (List.mem_of_getLast? hlast) hspells
    rw [hg, Option.getD_some] at hfirst
    exact firstDerived_mono hpre (hfirst ▸ hg)
  · intro h pre hpre address hlast a hspells hport
    have hmem := List.mem_of_getLast? hlast
    obtain ⟨g, hg⟩ := firstDerived_of_mem hmem hspells
    have hsame := h address ((gossipAddresses_mono hpre).subset hmem) a hspells hport
    rw [firstDerived_mono hpre hg] at hsame
    rw [hexact pre hpre, hlast, hg, hsame]
    rfl

/-- A replica that is replaced by another process under its id. -/
def restarted (before after : String) : List RegistryOp :=
  [.updateFromGossip "replica-1" ⟨"replica-1", before, .alive, 0, "v1", 0, 4⟩,
    .incrementActive "replica-1", .decrementActive "replica-1",
    .updateFromGossip "replica-1" ⟨"replica-1", before, .dead, 0, "v1", 0, 4⟩,
    .updateFromGossip "replica-1" ⟨"replica-1", after, .alive, 1, "v1", 0, 4⟩]

/-- On the same port the endpoint is right. -/
theorem follows_samePort :
    ((restarted "10.0.0.1:17001" "10.0.0.1:17001").foldl RegistryOp.apply {}).addresses "replica-1" =
        some ("10.0.0.1:17001", "10.0.0.1:7001") ∧
      ∀ pre, pre <+: restarted "10.0.0.1:17001" "10.0.0.1:17001" →
        Follows "replica-1" pre (pre.foldl RegistryOp.apply {}) := by
  have hops : ∀ op ∈ restarted "10.0.0.1:17001" "10.0.0.1:17001",
      ∀ address, op ≠ .setGrpcAddress "replica-1" address := by
    simp [restarted]
  refine ⟨by decide +kernel,
    (follows_iff "replica-1" _ hops).mpr fun address haddress a hspells _ => ?_⟩
  have hsame : gossipAddresses "replica-1" (restarted "10.0.0.1:17001" "10.0.0.1:17001") =
      List.replicate 3 "10.0.0.1:17001" := by decide
  rw [hsame] at haddress
  obtain rfl := List.eq_of_mem_replicate haddress
  rw [← derived_of_spells hspells]
  decide

/-- On another machine the gateway keeps calling the endpoint of before. -/
theorem not_follows_otherMachine :
    let ops := restarted "10.0.0.1:17001" "10.0.0.2:17005"
    (∀ op ∈ ops, ∀ address, op ≠ .setGrpcAddress "replica-1" address) ∧
    (ops.foldl RegistryOp.apply {}).getAliveReplicas.map
      (fun e => (e.1, e.2.gossipAddress, e.2.grpcAddress)) =
        [("replica-1", "10.0.0.2:17005", "10.0.0.1:7001")] ∧
    ¬ ∀ pre, pre <+: ops → Follows "replica-1" pre (pre.foldl RegistryOp.apply {}) := by
  intro ops
  refine ⟨by simp [ops, restarted], by decide +kernel, fun h => ?_⟩
  have hspells : Spells "10.0.0.2:17005" ⟨"10.0.0.2", 17005⟩ :=
    ⟨"17005".toList, by decide, by decide, List.all_eq_true.mp (by decide), by decide⟩
  have hfollows := h ops (List.prefix_refl _) "10.0.0.2:17005" (by decide) _ hspells (by decide)
  exact absurd hfollows (by decide +kernel)

end LlmGateway.Gateway
