import LlmGateway.Gateway.ReplicaRegistry
import LlmGateway.Lib.OrderedMap

/-!
# The load balancer

`LoadBalancer` selects in two tiers: a walk around the hash ring, then weighted least connections.
`std::hash<std::string>` is the parameter `hash`, on the bytes of a string.

`LoadBalancer.selectReplica` is `SelectReplica` on a registry that stands still. Beside other
threads the walk holds `ring_mutex_` and reads the registry once for each point of the ring, so
`SelectStage` moves from one read to the next; the second tier works on one snapshot of the
registry. `RebuildRing` is the snapshot and, later, `replaceRing`.
-/

namespace LlmGateway.Gateway

open Gossip

structure Selection where
  replicaId : String
  grpcAddress : String
  deriving DecidableEq, Repr

/-- `ringLocked` is `ring_mutex_`, held by a walk. -/
structure LoadBalancer where
  virtualNodes : ℤ := 150
  ring : OrderedMap ℕ String := .empty
  ringLocked : Bool := false

/-- The bytes of a string. -/
def bytes (s : String) : List UInt8 := s.toUTF8.toList

namespace LoadBalancer

variable (hash : List UInt8 → ℕ) (lb : LoadBalancer)

/-- The virtual nodes of one replica. -/
def placeReplica (ring : OrderedMap ℕ String) (id : String) : OrderedMap ℕ String :=
  (List.range lb.virtualNodes.toNat).foldl
    (fun ring i => ring.insert (hash (bytes (id ++ "#" ++ toString i))) id) ring

/-- `RebuildRing` after its snapshot of the alive replicas: it waits for the mutex. -/
def replaceRing (alive : List (String × ReplicaInfo)) : Option LoadBalancer :=
  if lb.ringLocked then none
  else
    some { lb with ring := alive.foldl (fun ring e => lb.placeReplica hash ring e.1) .empty }

end LoadBalancer

/-! ## The first tier -/

/-- What the walk asks of a replica. A `max_capacity` of 0 means unlimited. -/
def ReplicaInfo.accepts (info : ReplicaInfo) : Bool :=
  !info.draining && info.gossipState ≠ .dead &&
    (info.maxCapacity = 0 || info.activeRequests < info.maxCapacity)

/-- The selection the walk makes at a point of the ring. -/
def ReplicaRegistry.candidate (r : ReplicaRegistry) (excluded : List String) (id : String) :
    Option Selection :=
  if id ∈ excluded then none
  else (r.getReplica id).bind fun info =>
    if info.accepts then some ⟨id, info.grpcAddress⟩ else none

/-! ## The second tier -/

/-- The largest `double`. -/
def maxDouble : ℚ := 2 ^ 1024 - 2 ^ 971

/-- From here on a quotient is rounded to infinity; below it, to `maxDouble` at most. -/
def doubleOverflow : ℚ := 2 ^ 1024 - 2 ^ 970

/-- `score(r)`: none if it is infinite. Apart from that it is exact. -/
def ReplicaInfo.score (info : ReplicaInfo) : Option ℚ :=
  let quotient := (info.activeRequests : ℚ) / info.weight
  if doubleOverflow ≤ quotient then none else some (min quotient maxDouble)

/-- The best replica so far, with its score and the number of ties; the draws still to come. -/
structure Pick where
  id : String := ""
  address : String := ""
  score : ℚ := maxDouble
  tieCount : ℕ := 0
  draws : List ℕ
  deriving DecidableEq, Repr

/-- One replica of the snapshot. A draw of 1 lets a tied replica replace the best so far; between
1 and 1 the draw is 1. -/
def Pick.consider (excluded : List String) (p : Pick) (e : String × ReplicaInfo) : Pick :=
  if e.1 ∈ excluded then p
  else if 0 < e.2.maxCapacity ∧ e.2.maxCapacity ≤ e.2.activeRequests then p
  else
    match e.2.score with
    -- infinity is neither below the best score nor equal to it
    | none => p
    | some score =>
      if score < p.score then
        { p with id := e.1, address := e.2.grpcAddress, score, tieCount := 1 }
      else if score = p.score then
        let tied := { p with tieCount := p.tieCount + 1, draws := p.draws.tail }
        if tied.tieCount = 1 ∨ p.draws.headD 1 = 1 then
          { tied with id := e.1, address := e.2.grpcAddress }
        else tied
      else p

/-- `SelectByLeastConnections`, with the draws of `uniform_int_distribution`. -/
def ReplicaRegistry.selectByLeastConnections (r : ReplicaRegistry) (excluded : List String)
    (draws : List ℕ) : Option Selection :=
  let best := r.getAliveReplicas.foldl (Pick.consider excluded) { draws }
  if best.id = "" then none else some ⟨best.id, best.address⟩

/-! ## `SelectReplica` alone -/

namespace LoadBalancer

variable (hash : List UInt8 → ℕ) (lb : LoadBalancer) (r : ReplicaRegistry) (prompt : String)
  (excluded : List String) (draws : List ℕ) (fuel : ℕ)

/-- `SelectByConsistentHash`, with the hash of the first 64 bytes. There is no result without
fuel. -/
def selectByConsistentHash : Option (Option Selection) :=
  lb.ring.walk (r.candidate excluded) (hash ((bytes prompt).take 64)) fuel

/-- `SelectReplica`. -/
def selectReplica : Option (Option Selection) :=
  (lb.selectByConsistentHash hash r prompt excluded fuel).map fun
    | some selection => some selection
    | none => r.selectByLeastConnections excluded draws

end LoadBalancer

/-! ## `SelectReplica` beside other threads -/

/-- The stages of `SelectReplica`: before the mutex, at a point of the ring with the mutex held, and
in the second tier. -/
inductive SelectStage
  | hashing
  | walking (points : List String)
  | leastConnections
  deriving DecidableEq, Repr

/-- What a step of `SelectReplica` leads to. -/
inductive SelectNext
  | stage (s : SelectStage)
  | selected (selection : Option Selection)
  deriving DecidableEq, Repr

/-- One step of `SelectReplica`. -/
def SelectStage.step (hash : List UInt8 → ℕ) (r : ReplicaRegistry) (lb : LoadBalancer)
    (prompt : String) (excluded : List String) (draws : List ℕ) :
    SelectStage → Option (LoadBalancer × SelectNext)
  | .hashing =>
    if lb.ringLocked then none
    else if lb.ring.entries = [] then some (lb, .stage .leastConnections)
    else
      -- the hash is that of the first 64 bytes
      let points := lb.ring.clockwise (hash ((bytes prompt).take 64))
      some ({ lb with ringLocked := true }, .stage (.walking points))
  | .walking [] => some ({ lb with ringLocked := false }, .stage .leastConnections)
  | .walking (id :: points) =>
    match r.candidate excluded id with
    | some selection => some ({ lb with ringLocked := false }, .selected (some selection))
    | none => some (lb, .stage (.walking points))
  | .leastConnections => some (lb, .selected (r.selectByLeastConnections excluded draws))

end LlmGateway.Gateway
