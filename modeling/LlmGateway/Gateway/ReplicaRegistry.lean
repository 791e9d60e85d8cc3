import LlmGateway.Gossip.MembershipList
import LlmGateway.Gossip.UdpTransport
import Mathlib.Algebra.Order.Ring.Unbundled.Rat

/-!
# The replica registry

`ReplicaRegistry` is the gateway's table of replicas. Every operation takes its lock, so each is one
function of the state here. The order of the association list stands for the order in which the
`unordered_map` is walked, which the code leaves open.

The lemmas of the last sections say which operation changes `active_requests` and `max_capacity`,
and that no operation removes an entry.
-/

namespace LlmGateway.Gateway

open Gossip

structure ReplicaInfo where
  grpcAddress : String := ""
  gossipAddress : String := ""
  gossipState : MemberState := .alive
  weight : ℚ := 1
  activeRequests : ℤ := 0
  reportedActiveRequests : ℤ := 0
  maxCapacity : ℤ := 4
  modelVersion : String := ""
  draining : Bool := false
  deriving DecidableEq, Repr

structure ReplicaRegistry where
  replicas : UnorderedMap String ReplicaInfo := ∅
  deriving DecidableEq

/-- The gRPC address derived from a gossip address: its port less 10000. There is none without a
colon, and `std::stoi` can throw. -/
def deriveGrpcAddress (gossipAddress : String) : Except StdException (Option String) :=
  match rfindSplit ':' gossipAddress.toList with
  | none => .ok none
  | some (host, port) =>
    (stoi port).map fun gossipPort =>
      some (String.ofList host ++ ":" ++ toString (gossipPort - 10000))

/-- The fields of an entry that an update overwrites. -/
def ReplicaInfo.refresh (info : ReplicaInfo) (u : MembershipUpdate) : ReplicaInfo :=
  { info with
    gossipAddress := u.address
    gossipState := u.state
    reportedActiveRequests := u.activeRequests
    maxCapacity := u.maxCapacity
    modelVersion := if u.modelVersion ≠ "" then u.modelVersion else info.modelVersion }

namespace ReplicaRegistry

variable (r : ReplicaRegistry)

/-- `replicas_[id] = info`. -/
def set (id : String) (info : ReplicaInfo) : ReplicaRegistry := ⟨r.replicas.insert id info⟩

/-- `GetReplica`. -/
def getReplica (id : String) : Option ReplicaInfo := r.replicas.lookup id

/-- Change the entry of a known replica. -/
def modify (id : String) (f : ReplicaInfo → ReplicaInfo) : ReplicaRegistry :=
  match r.getReplica id with
  | some info => r.set id (f info)
  | none => r

/-- `UpdateFromGossip`: the registry it leaves, and the exception it ends with. -/
def updateFromGossip (id : String) (u : MembershipUpdate) :
    ReplicaRegistry × Option StdException :=
  let info := ((r.getReplica id).getD {}).refresh u
  if info.grpcAddress = "" ∧ info.gossipAddress ≠ "" then
    match deriveGrpcAddress info.gossipAddress with
    | .ok (some address) => (r.set id { info with grpcAddress := address }, none)
    | .ok none => (r.set id info, none)
    | .error e => (r.set id info, some e)
  else (r.set id info, none)

/-- A `seed-` entry or a gateway, by the beginning of its id. -/
def notAReplica (id : String) : Bool :=
  "seed-".toList.isPrefixOf id.toList || "gateway".toList.isPrefixOf id.toList

/-- `GetAliveReplicas`. -/
def getAliveReplicas : List (String × ReplicaInfo) :=
  (r.replicas.entries.map fun e => (e.1, e.2)).filter fun e =>
    e.2.gossipState ≠ .dead && !e.2.draining && e.2.grpcAddress ≠ "" && !notAReplica e.1

/-- `IncrementActive`. -/
def incrementActive (id : String) : ReplicaRegistry :=
  r.modify id fun info => { info with activeRequests := info.activeRequests + 1 }

/-- `DecrementActive`. -/
def decrementActive (id : String) : ReplicaRegistry :=
  r.modify id fun info => { info with activeRequests := info.activeRequests - 1 }

/-- `SetDraining`. -/
def setDraining (id : String) (draining : Bool) : ReplicaRegistry :=
  r.modify id fun info => { info with draining }

/-- `SetGrpcAddress`. -/
def setGrpcAddress (id : String) (grpcAddress : String) : ReplicaRegistry :=
  r.set id { (r.getReplica id).getD {} with grpcAddress }

/-- `Size`. -/
def size : ℕ := r.replicas.entries.length

example : deriveGrpcAddress "10.0.0.1:17001" = .ok (some "10.0.0.1:7001") := by decide

/-! ## What the operations do to an entry -/

variable {r} {id id' : String} {info : ReplicaInfo}

@[simp] theorem getReplica_set : (r.set id info).getReplica id = some info :=
  AList.lookup_insert _

theorem getReplica_set_of_ne (h : id' ≠ id) : (r.set id info).getReplica id' = r.getReplica id' :=
  AList.lookup_insert_ne h

theorem getReplica_modify (f : ReplicaInfo → ReplicaInfo) :
    (r.modify id f).getReplica id = (r.getReplica id).map f := by
  unfold modify
  cases hid : r.getReplica id with
  | none => exact hid
  | some info => exact getReplica_set

theorem getReplica_modify_of_ne (f : ReplicaInfo → ReplicaInfo) (h : id' ≠ id) :
    (r.modify id f).getReplica id' = r.getReplica id' := by
  unfold modify
  cases r.getReplica id with
  | none => rfl
  | some info => exact getReplica_set_of_ne h

theorem getReplica_updateFromGossip_of_ne (u : MembershipUpdate) (h : id' ≠ id) :
    (r.updateFromGossip id u).1.getReplica id' = r.getReplica id' := by
  simp only [updateFromGossip]
  split_ifs
  · split <;> exact getReplica_set_of_ne h
  · exact getReplica_set_of_ne h

/-- An update leaves the counter of its replica as it was, 0 if the replica is new, and takes over
the capacity. -/
theorem getReplica_updateFromGossip (r : ReplicaRegistry) (id : String) (u : MembershipUpdate) :
    ∃ info, (r.updateFromGossip id u).1.getReplica id = some info ∧
      info.activeRequests = ((r.getReplica id).getD {}).activeRequests ∧
      info.maxCapacity = u.maxCapacity := by
  simp only [updateFromGossip]
  split_ifs
  · split <;> exact ⟨_, getReplica_set, rfl, rfl⟩
  · exact ⟨_, getReplica_set, rfl, rfl⟩

theorem size_set (r : ReplicaRegistry) (id : String) (info : ReplicaInfo) :
    (r.set id info).size = if id ∈ r.replicas then r.size else r.size + 1 := by
  have hkeys : ∀ m : UnorderedMap String ReplicaInfo, m.entries.length = m.keys.length :=
    fun m => (List.length_map _).symm
  unfold size set
  dsimp only
  rw [hkeys, hkeys, AList.keys_insert, List.length_cons, List.length_erase]
  split_ifs with hmem hid hid
  · have hpos := List.length_pos_of_mem hmem
    omega
  · exact absurd hmem hid
  · exact absurd hid hmem
  · rfl

theorem size_le_set : r.size ≤ (r.set id info).size := by
  rw [size_set]
  split_ifs
  · exact le_rfl
  · exact Nat.le_succ _

theorem size_modify (f : ReplicaInfo → ReplicaInfo) : (r.modify id f).size = r.size := by
  unfold modify
  cases hid : r.getReplica id with
  | none => rfl
  | some info =>
    have hmem : id ∈ r.replicas := AList.lookup_isSome.mp (Option.isSome_of_eq_some hid)
    dsimp only
    rw [size_set, if_pos hmem]

theorem size_le_updateFromGossip (u : MembershipUpdate) :
    r.size ≤ (r.updateFromGossip id u).1.size := by
  simp only [updateFromGossip]
  split_ifs
  · split <;> exact size_le_set
  · exact size_le_set

theorem length_getAliveReplicas_le (r : ReplicaRegistry) : r.getAliveReplicas.length ≤ r.size := by
  unfold getAliveReplicas
  exact (List.length_filter_le _ _).trans (List.length_map _).le

/-- The counter of a replica; that of an unknown one is 0. -/
def active (r : ReplicaRegistry) (id : String) : ℤ := ((r.getReplica id).getD {}).activeRequests

/-- The registry has an entry for the replica. -/
def Known (r : ReplicaRegistry) (id : String) : Prop := (r.getReplica id).isSome

theorem active_eq (h : r.getReplica id = some info) : r.active id = info.activeRequests := by
  rw [active, h, Option.getD_some]

theorem Known.set (h : r.Known id) : (r.set id' info).Known id := by
  by_cases hid : id = id'
  · subst hid
    rw [Known, getReplica_set]
    rfl
  · rw [Known, getReplica_set_of_ne hid]
    exact h

theorem Known.modify (h : r.Known id) (f : ReplicaInfo → ReplicaInfo) :
    (r.modify id' f).Known id := by
  unfold ReplicaRegistry.modify
  cases r.getReplica id' with
  | none => exact h
  | some info => exact h.set

theorem Known.updateFromGossip (h : r.Known id) (u : MembershipUpdate) :
    (r.updateFromGossip id' u).1.Known id := by
  simp only [ReplicaRegistry.updateFromGossip]
  split_ifs
  · split <;> exact h.set
  · exact h.set

theorem active_set (h : info.activeRequests = r.active id') :
    (r.set id' info).active id = r.active id := by
  by_cases hid : id = id'
  · subst hid
    rw [active_eq getReplica_set, h]
  · rw [active, active, getReplica_set_of_ne hid]

theorem active_updateFromGossip (u : MembershipUpdate) :
    (r.updateFromGossip id' u).1.active id = r.active id := by
  simp only [updateFromGossip]
  split_ifs
  · split <;> exact active_set rfl
  · exact active_set rfl

theorem active_modify {f : ReplicaInfo → ReplicaInfo} {n : ℤ} (h : r.Known id')
    (hf : ∀ info, (f info).activeRequests = info.activeRequests + n) :
    (r.modify id' f).active id = r.active id + if id = id' then n else 0 := by
  obtain ⟨info, hinfo⟩ := Option.isSome_iff_exists.mp h
  split_ifs with hid
  · subst hid
    rw [active, getReplica_modify, hinfo, active_eq hinfo]
    exact hf info
  · rw [active, getReplica_modify_of_ne f hid, active, add_zero]

theorem active_setDraining {draining : Bool} :
    (r.setDraining id' draining).active id = r.active id := by
  unfold setDraining modify
  cases hid : r.getReplica id' with
  | none => rfl
  | some info => exact active_set (active_eq hid).symm

theorem active_setGrpcAddress {address : String} :
    (r.setGrpcAddress id' address).active id = r.active id :=
  active_set rfl

end ReplicaRegistry

end LlmGateway.Gateway
