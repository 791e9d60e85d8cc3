import LlmGateway.Gateway.DerivedAddress
import LlmGateway.Gossip.OwnAddress

/-!
# The ports of a replica

`main` of the replica reads two ports as `int`. Without `--gossip-port` the gossip port is the gRPC
port plus 10000. The number is used twice: printed into the address that the node gossips of
itself, and cut to the `uint16_t` that the UDP socket is bound to. Peers read the address with
`ParseAddress`, which cuts in the same way; the registry of the gateway subtracts the 10000 from
the printed number.

1. `derives_grpcPort_iff`: which gossip port lets the registry find the gRPC port.
2. `default_reached`: with the default gossip port both readers reach the replica.
3. `bindPort_inj`, `bindPort_eq_zero_iff`: the ports that default replicas are bound to.
4. `sent_reached`, `addresses_of_told`: what holds over a run of the node, and of the registry.
-/

namespace LlmGateway.Replica

open Gossip Gateway Transition

/-- The options of `main` that the gossip of the replica depends on. The gossip port 0 stands for
the default. -/
structure Options where
  id : String := "replica-1"
  grpcPort : ℤ := 50051
  gossipPort : ℤ := 0
  maxCapacity : ℤ := 4
  modelVersion : String := "v1"
  seedsStr : String := ""
  deriving DecidableEq, Repr

/-- `ParseSeeds`. -/
def parseSeeds (seedsStr : String) : List String :=
  ((seedsStr.toList.splitOn ',').filter (· ≠ [])).map String.ofList

/-- What `main` starts: the SWIM node, and the port its UDP socket is bound to. -/
structure Gossiper where
  swim : Node
  bindPort : UInt16

namespace Options

variable (o : Options)

/-- `if (gossip_port == 0) gossip_port = grpc_port + 10000`. -/
def effectivePort : ℤ := if o.gossipPort = 0 then o.grpcPort + 10000 else o.gossipPort

/-- `my_gossip_addr`. The host is `127.0.0.1` in the source. -/
def myGossipAddr (host : String) : String := host ++ ":" ++ toString o.effectivePort

/-- `main`, as far as `swim.Start()`. The constructor of `SwimProtocol` takes the port as a
`uint16_t` and hands it to `UdpTransport`. -/
def start (host : String) : Gossiper where
  swim := Node.joinCluster
    { Node.create o.id (o.myGossipAddr host) {} with
      myActiveRequests := 0
      myMaxCapacity := o.maxCapacity
      myModelVersion := o.modelVersion }
    (parseSeeds o.seedsStr)
  bindPort := UInt16.ofInt o.effectivePort

end Options

example : parseSeeds "127.0.0.1:17001,,127.0.0.1:17002" = ["127.0.0.1:17001", "127.0.0.1:17002"] := by
  decide

variable {o o' : Options} {host host' id address g : String} {r : ReplicaRegistry}
  {u : MembershipUpdate} {es : List Act} {n : Node} {ops : List RegistryOp}

/-! ## Reading the address -/

/-- The registry computes with the number as it was printed, before any cut. -/
theorem deriveGrpcAddress_print (host : String) {p : ℤ} (hlo : -2 ^ 31 ≤ p) (hhi : p < 2 ^ 31) :
    deriveGrpcAddress (host ++ ":" ++ toString p) =
      .ok (some (host ++ ":" ++ toString (p - 10000))) := by
  unfold deriveGrpcAddress
  rw [rfindSplit_print]
  dsimp only
  rw [stoi_toString hlo hhi]
  simp only [Except.map, String.ofList_toList]

theorem start_myAddress (o : Options) (host : String) :
    (o.start host).swim.myAddress = o.myGossipAddr host := rfl

theorem parseAddress_start (hlo : -2 ^ 31 ≤ o.effectivePort) (hhi : o.effectivePort < 2 ^ 31) :
    parseAddress (o.myGossipAddr host) = .ok ⟨host, (o.start host).bindPort⟩ :=
  parseAddress_print host hlo hhi

theorem effectivePort_default (h : o.gossipPort = 0) : o.effectivePort = o.grpcPort + 10000 :=
  if_pos h

theorem toNat_bindPort : ((o.start host).bindPort.toNat : ℤ) = o.effectivePort % 65536 := by
  have hcut : (o.start host).bindPort.toNat = (o.effectivePort % 2 ^ 16).toNat % 2 ^ 16 := rfl
  rw [hcut]
  omega

/-- **Other gossip ports.** The registry derives the gRPC port of the replica only from the default
gossip port. -/
theorem derives_grpcPort_iff (hgrpc : -2 ^ 31 ≤ o.grpcPort ∧ o.grpcPort < 2 ^ 31)
    (hgossip : -2 ^ 31 + 10000 ≤ o.effectivePort ∧ o.effectivePort < 2 ^ 31) :
    deriveGrpcAddress (o.myGossipAddr host) = .ok (some (host ++ ":" ++ toString o.grpcPort)) ↔
      o.effectivePort = o.grpcPort + 10000 := by
  have hinj := toString_inj (m := o.effectivePort - 10000) (n := o.grpcPort) (by omega) hgrpc
  unfold Options.myGossipAddr
  rw [deriveGrpcAddress_print host (by omega) (by omega)]
  constructor
  · intro h
    have hstring := Option.some.inj (Except.ok.inj h)
    have hport := hinj.mp ((String.append_right_inj _).mp hstring)
    omega
  · intro h
    rw [hinj.mpr (by omega)]

/-! ## The default -/

theorem parseAddress_default (hdefault : o.gossipPort = 0)
    (hport : 1 ≤ o.grpcPort ∧ o.grpcPort ≤ 65535) :
    parseAddress (o.myGossipAddr host) = .ok ⟨host, (o.start host).bindPort⟩ := by
  have heffective := effectivePort_default hdefault
  exact parseAddress_start (by omega) (by omega)

theorem deriveGrpcAddress_default (hdefault : o.gossipPort = 0)
    (hport : 1 ≤ o.grpcPort ∧ o.grpcPort ≤ 65535) :
    deriveGrpcAddress (o.myGossipAddr host) = .ok (some (host ++ ":" ++ toString o.grpcPort)) := by
  have heffective := effectivePort_default hdefault
  exact (derives_grpcPort_iff (by omega) (by omega)).mpr heffective

theorem derived_of_derives (h : deriveGrpcAddress address = .ok (some g)) :
    derived address = some g := by
  unfold derived
  rw [h]
  rfl

theorem updateFromGossip_derived (h : deriveGrpcAddress u.address = .ok (some g)) :
    (r.updateFromGossip id u).2 = none := by
  have haddress : (((r.getReplica id).getD {}).refresh u).gossipAddress = u.address := rfl
  unfold ReplicaRegistry.updateFromGossip
  dsimp only
  rw [haddress, h]
  split_ifs <;> rfl

/-- **The port convention.** With the default gossip port both readers of the address that the
replica gossips reach it: `ParseAddress` finds the host and the port that the socket is bound to,
and the registry, if the entry has no gRPC address yet, the host and the gRPC port. -/
theorem default_reached (o : Options) (host : String) (hdefault : o.gossipPort = 0)
    (hport : 1 ≤ o.grpcPort ∧ o.grpcPort ≤ 65535) :
    let address := host ++ ":" ++ toString (o.grpcPort + 10000)
    let endpoint := host ++ ":" ++ toString o.grpcPort
    (o.start host).swim.myAddress = address ∧
      ((o.start host).bindPort.toNat : ℤ) = (o.grpcPort + 10000) % 65536 ∧
      parseAddress address = .ok ⟨host, (o.start host).bindPort⟩ ∧
      deriveGrpcAddress address = .ok (some endpoint) ∧
      ∀ (r : ReplicaRegistry) (id : String) (u : MembershipUpdate), u.address = address →
        (r.updateFromGossip id u).2 = none ∧
          ∃ info, (r.updateFromGossip id u).1.getReplica id = some info ∧
            info.gossipAddress = address ∧
            info.grpcAddress = if ((r.getReplica id).getD {}).grpcAddress = "" then endpoint
              else ((r.getReplica id).getD {}).grpcAddress := by
  intro address endpoint
  have haddress : o.myGossipAddr host = address := by
    unfold Options.myGossipAddr
    rw [effectivePort_default hdefault]
  have hderive : deriveGrpcAddress address = .ok (some endpoint) :=
    haddress ▸ deriveGrpcAddress_default hdefault hport
  have hbind : ((o.start host).bindPort.toNat : ℤ) = (o.grpcPort + 10000) % 65536 := by
    rw [toNat_bindPort, effectivePort_default hdefault]
  refine ⟨(start_myAddress o host).trans haddress, hbind,
    haddress ▸ parseAddress_default hdefault hport, hderive, ?_⟩
  intro r id u hu
  rw [← hu] at hderive
  obtain ⟨info, hinfo, hgossip, hgrpc⟩ := grpcAddress_updateFromGossip r id u
  rw [derived_of_derives hderive, Option.getD_some] at hgrpc
  exact ⟨updateFromGossip_derived hderive, info, hinfo, hgossip.trans hu, hgrpc⟩

/-- A host with colons, and a gossip port that does not fit into sixteen bits. -/
theorem default_reached_above :
    (Options.start { grpcPort := 60000 } "::1").bindPort = 4464 ∧
      parseAddress "::1:70000" = .ok ⟨"::1", 4464⟩ ∧
      deriveGrpcAddress "::1:70000" = .ok (some "::1:60000") ∧
      (ReplicaRegistry.updateFromGossip {} "replica-1"
        ⟨"replica-1", "::1:70000", .alive, 0, "v1", 0, 4⟩).1.addresses "replica-1" =
          some ("::1:70000", "::1:60000") := by
  have haddress : "::1" ++ ":" ++ toString ((60000 : ℤ) + 10000) = "::1:70000" := by decide
  have hendpoint : "::1" ++ ":" ++ toString (60000 : ℤ) = "::1:60000" := by decide
  obtain ⟨-, -, hparse, hderive, hupdate⟩ :=
    default_reached { grpcPort := 60000 } "::1" rfl ⟨by decide, by decide⟩
  dsimp only at hparse hderive hupdate
  rw [haddress] at hparse hderive hupdate
  rw [hendpoint] at hderive hupdate
  obtain ⟨-, info, hinfo, hgossip, hgrpc⟩ := hupdate {} "replica-1"
    ⟨"replica-1", "::1:70000", .alive, 0, "v1", 0, 4⟩ rfl
  refine ⟨by decide, hparse, hderive, ?_⟩
  unfold ReplicaRegistry.addresses
  rw [hinfo, Option.map_some, hgossip, hgrpc]
  rfl

/-! ## The ports that are bound -/

theorem bindPort_inj (hdefault : o.gossipPort = 0) (hdefault' : o'.gossipPort = 0)
    (hport : 1 ≤ o.grpcPort ∧ o.grpcPort ≤ 65535)
    (hport' : 1 ≤ o'.grpcPort ∧ o'.grpcPort ≤ 65535) :
    (o.start host).bindPort = (o'.start host').bindPort ↔ o.grpcPort = o'.grpcPort := by
  rw [← UInt16.toNat_inj, ← Int.natCast_inj, toNat_bindPort, toNat_bindPort,
    effectivePort_default hdefault, effectivePort_default hdefault']
  omega

/-- For one gRPC port the cut leaves 0, for which the system binds the socket to any free port. -/
theorem bindPort_eq_zero_iff (hdefault : o.gossipPort = 0)
    (hport : 1 ≤ o.grpcPort ∧ o.grpcPort ≤ 65535) :
    (o.start host).bindPort = 0 ↔ o.grpcPort = 55536 := by
  rw [← UInt16.toNat_inj, ← Int.natCast_inj, toNat_bindPort, effectivePort_default hdefault]
  have hzero : (((0 : UInt16).toNat : ℕ) : ℤ) = 0 := rfl
  rw [hzero]
  omega

/-! ## Runs -/

/-- What `main` starts has been reached from the constructor, so that all that holds of its runs
holds of the runs of a replica. -/
theorem start_run (o : Options) (host : String) :
    Run Node.step (Node.create o.id (o.myGossipAddr host) {})
      [.setMyLoad 0 o.maxCapacity o.modelVersion, .joinCluster (parseSeeds o.seedsStr)]
      (o.start host).swim :=
  (Run.nil.snoc rfl).snoc rfl

/-- **All messages.** In every run of the node of a default replica, each message it has sent ends
with an update about the replica from which both readers reach it. -/
theorem sent_reached (hdefault : o.gossipPort = 0)
    (hport : 1 ≤ o.grpcPort ∧ o.grpcPort ≤ 65535)
    (hrun : Run Node.step (o.start host).swim es n) {d : Datagram} (hd : d ∈ n.sent) :
    ∃ u, d.msg.updates.getLast? = some u ∧ u.memberId = o.id ∧
      parseAddress u.address = .ok ⟨host, (o.start host).bindPort⟩ ∧
      deriveGrpcAddress u.address = .ok (some (host ++ ":" ++ toString o.grpcPort)) := by
  have hall := Node.advertises_of_run ((start_run o host).append hrun)
  obtain ⟨u, hlast, hid, haddress⟩ := hall d hd
  refine ⟨u, hlast, hid, ?_, ?_⟩ <;> rw [haddress]
  · exact parseAddress_default hdefault hport
  · exact deriveGrpcAddress_default hdefault hport

/-- **The registry.** Told of no other address of the replica, and with none set explicitly, it has
the endpoint of a default replica after any operations. -/
theorem addresses_of_told (hdefault : o.gossipPort = 0)
    (hport : 1 ≤ o.grpcPort ∧ o.grpcPort ≤ 65535)
    (hops : ∀ op ∈ ops, ∀ address, op ≠ .setGrpcAddress id address)
    (htold : ∀ address ∈ gossipAddresses id ops, address = o.myGossipAddr host)
    (hne : gossipAddresses id ops ≠ []) :
    (ops.foldl RegistryOp.apply {}).addresses id =
      some (o.myGossipAddr host, host ++ ":" ++ toString o.grpcPort) := by
  have hderived : derived (o.myGossipAddr host) = some (host ++ ":" ++ toString o.grpcPort) :=
    derived_of_derives (deriveGrpcAddress_default hdefault hport)
  rw [addresses_foldl hops]
  unfold firstDerived
  rw [List.eq_replicate_of_mem htold]
  obtain ⟨k, hk⟩ := Nat.exists_eq_succ_of_ne_zero (mt List.length_eq_zero_iff.mp hne)
  rw [hk, List.getLast?_replicate, List.replicate_succ,
    List.findSome?_cons_of_isSome (by rw [hderived]; rfl), hderived]
  rfl

end LlmGateway.Replica
