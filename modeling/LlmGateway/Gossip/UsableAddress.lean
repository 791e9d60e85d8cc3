import LlmGateway.Gossip.Refutation

/-!
# Addresses that cannot be parsed

An address arrives as a string in an update, is stored as it is, and is parsed when a thread is to
send to the member: `DoPingRound`, `HandlePingReq` and `LeaveCluster` call `ParseAddress`, whose
exception ends the process. `Usable` says that it parses.

1. `ignores_iff`: the updates that `ApplyUpdate` leaves without effect.
2. `MembershipList.AddressesUsable`: every operation keeps the stored addresses usable, `ApplyUpdate`
   unless it takes over an address that is not.
3. `Node.Steady`: no thread of the node raises an exception, and none is about to (`Steady.step`).
-/

namespace LlmGateway.Gossip

/-- `ParseAddress` reads the string. -/
def Usable (address : String) : Prop := ∃ a, parseAddress address = .ok a

theorem usable_toString (a : Address) : Usable a.toString := ⟨a, parseAddress_toString a⟩

/-- The update reports no load and no version, or those that the entry has. -/
structure MemberInfo.SameLoad (e : MemberInfo) (u : MembershipUpdate) : Prop where
  load : (u.activeRequests = 0 ∧ u.maxCapacity = 0) ∨
    (u.activeRequests = e.activeRequests ∧ u.maxCapacity = e.maxCapacity)
  version : u.modelVersion = "" ∨ u.modelVersion = e.modelVersion

namespace MembershipList

variable {L L' : MembershipList} {now m : ℕ} {u : MembershipUpdate} {e : MemberInfo}
  {id address : String}

/-! ## Updates without effect -/

/-- The update is stale, or it is no stronger than the entry at the same incarnation and brings no
news of the load. -/
def Ignores (L : MembershipList) (u : MembershipUpdate) : Prop :=
  ∃ e, L.getMember u.memberId = some e ∧ (u.incarnation < e.incarnation ∨
    (u.incarnation = e.incarnation ∧ u.state ≤ e.state ∧ e.SameLoad u))

/-- The same list; the order in which the map is walked may differ. -/
structure Same (L L' : MembershipList) : Prop where
  myId : L'.myId = L.myId
  myIncarnation : L'.myIncarnation = L.myIncarnation
  members : ∀ id, L'.getMember id = L.getMember id
  buffer : L'.piggybackBuffer = L.piggybackBuffer

theorem refreshLoad_of_sameLoad (h : e.SameLoad u) : e.refreshLoad u = (e, false) := by
  obtain ⟨hload, hversion⟩ := h
  unfold MemberInfo.refreshLoad
  rcases hload with ⟨hr, hc⟩ | ⟨hr, hc⟩ <;> rcases hversion with hv | hv <;>
    simp [hr, hc, hv]

theorem sameLoad_of_refreshLoad (h : (e.refreshLoad u).1 = e) : e.SameLoad u := by
  have hr := congrArg MemberInfo.activeRequests h
  have hc := congrArg MemberInfo.maxCapacity h
  have hv := congrArg MemberInfo.modelVersion h
  simp only [MemberInfo.refreshLoad, decide_eq_true_eq] at hr hc hv
  constructor
  · by_cases hreported : u.activeRequests ≠ 0 ∨ u.maxCapacity ≠ 0
    · rw [if_pos hreported] at hr hc
      exact Or.inr ⟨hr, hc⟩
    · obtain ⟨hr, hc⟩ := not_or.mp hreported
      exact Or.inl ⟨not_not.mp hr, not_not.mp hc⟩
  · by_cases hrenamed : u.modelVersion ≠ "" ∧ e.modelVersion ≠ u.modelVersion
    · rw [if_pos hrenamed] at hv
      exact Or.inr hv
    · rcases not_and_or.mp hrenamed with h | h
      · exact Or.inl (not_not.mp h)
      · exact Or.inr (not_not.mp h).symm

theorem applyUpdate_of_ignores (h : L.Ignores u) :
    Same L (L.applyUpdate now u).list ∧ (L.applyUpdate now u).callback = none := by
  obtain ⟨e, he, hlt | ⟨hinc, hst, hload⟩⟩ := h
  · rw [applyUpdate_of_stale he hlt]
    exact ⟨⟨rfl, rfl, fun _ => rfl, rfl⟩, rfl⟩
  · have he : L.members.lookup u.memberId = some e := he
    have hnlt : ¬ u.incarnation < e.incarnation := by omega
    have heq : L.applyUpdate now u = ⟨L.setMember u.memberId e, false, none⟩ := by
      unfold applyUpdate
      rw [he]
      dsimp only
      rw [if_neg hnlt, if_pos ⟨hinc, hst⟩, refreshLoad_of_sameLoad hload]
      rfl
    rw [heq]
    refine ⟨⟨rfl, rfl, fun id => ?_, rfl⟩, rfl⟩
    by_cases hid : id = u.memberId
    · subst hid
      exact (AList.lookup_insert _).trans he.symm
    · exact lookup_insert_of_ne hid

/-- **Updates without effect.** `ApplyUpdate` leaves the list as it is exactly when it ignores the
update. -/
theorem ignores_iff : Same L (L.applyUpdate now u).list ↔ L.Ignores u := by
  constructor
  · intro h
    have hself := h.members u.memberId
    rcases applyUpdate_cases L now u with
      ⟨hnone, heq⟩ | ⟨e, he, ⟨hr, heq⟩ | ⟨hinc, hst, heq, -⟩ | ⟨hlt, -⟩⟩
    · rw [heq, show L.getMember u.memberId = none from hnone] at hself
      exact absurd ((AList.lookup_insert L.members).symm.trans hself) (by exact nofun)
    · rw [heq, show L.getMember u.memberId = some e from he] at hself
      have hself := Option.some.inj ((AList.lookup_insert L.members).symm.trans hself)
      exact absurd (congrArg MemberInfo.rank hself) hr.ne'
    · rw [heq, show L.getMember u.memberId = some e from he] at hself
      have hself := Option.some.inj ((AList.lookup_insert L.members).symm.trans hself)
      exact ⟨e, he, Or.inr ⟨hinc, hst, sameLoad_of_refreshLoad hself⟩⟩
    · exact ⟨e, he, Or.inl hlt⟩
  · exact fun h => (applyUpdate_of_ignores h).1

/-! ## The stored addresses -/

/-- Every stored address is usable. -/
def AddressesUsable (L : MembershipList) : Prop :=
  ∀ id e, L.members.lookup id = some e → Usable e.address

namespace AddressesUsable

theorem setMember (h : L.AddressesUsable) (he : Usable e.address) :
    (L.setMember id e).AddressesUsable := by
  intro id' e' hl
  by_cases hid : id' = id
  · subst hid
    rw [setMember_members, AList.lookup_insert] at hl
    cases hl
    exact he
  · rw [setMember_members, lookup_insert_of_ne hid] at hl
    exact h id' e' hl

theorem record (h : L.AddressesUsable) (he : Usable e.address) :
    (L.record id e).AddressesUsable := h.setMember he

theorem applyUpdate (h : L.AddressesUsable) (hu : Usable u.address ∨ L.Ignores u) :
    (L.applyUpdate now u).list.AddressesUsable := by
  rcases hu with hu | hu
  · rcases applyUpdate_list L now u with hl | ⟨e, he, hl⟩ | ⟨e, hl⟩ <;> rw [hl]
    · exact h
    · exact h.setMember (h _ e he)
    · exact h.record hu
  · intro id e he
    exact h id e (((applyUpdate_of_ignores hu).1.members id).symm.trans he)

theorem markSuspect (h : L.AddressesUsable) : (L.markSuspect now id).list.AddressesUsable := by
  unfold MembershipList.markSuspect
  cases he : L.members.lookup id with
  | none => exact h
  | some e =>
    dsimp only
    split_ifs
    · exact h
    · exact h.record (h id e he)

theorem markDead (h : L.AddressesUsable) : (L.markDead id).list.AddressesUsable := by
  unfold MembershipList.markDead
  cases he : L.members.lookup id with
  | none => exact h
  | some e =>
    dsimp only
    split_ifs
    · exact h
    · exact h.record (h id e he)

theorem addMember (h : L.AddressesUsable) (ha : Usable address) :
    (L.addMember id address).AddressesUsable := by
  unfold MembershipList.addMember
  cases L.members.lookup id with
  | some _ => exact h
  | none => exact h.record ha

theorem incrementMyIncarnation (h : L.AddressesUsable) (hown : L.myId ∈ L.members) :
    L.incrementMyIncarnation.AddressesUsable := by
  obtain ⟨self, hself⟩ := Option.isSome_iff_exists.mp (AList.lookup_isSome.mpr hown)
  refine record (L := { L with myIncarnation := _ }) h ?_
  rw [hself]
  exact h _ self hself

end AddressesUsable

end MembershipList

/-! ## The addresses the threads are to parse -/

def ReceiverPc.addresses : ReceiverPc → List String
  | .relayProbe _ _ target => [target.address]
  | _ => []

def LeaverPc.addresses : LeaverPc → List String
  | .idle => []
  | .readIncarnation peers => peers.map fun p => p.2.address
  | .announce _ peers => peers.map fun p => p.2.address

namespace Node

open MembershipList

variable {n n' : Node} {a : Act} {c : Choice} {peer : Peer} {exclude : List String}

/-- No exception has been raised, and all addresses that are stored or about to be parsed are
usable. -/
structure Steady (n : Node) : Prop where
  alive : n.crashed = false
  config : 0 ≤ n.config.maxPiggybackUpdates
  members : n.list.AddressesUsable
  sender : ∀ s ∈ n.sender.addresses, Usable s
  receiver : ∀ s ∈ n.receiver.addresses, Usable s
  leaver : ∀ s ∈ n.leaver.addresses, Usable s

theorem lookup_of_mem_alivePeers {L : MembershipList} (h : peer ∈ L.alivePeers exclude) :
    L.members.lookup peer.1 = some peer.2 := by
  obtain ⟨e, he, rfl⟩ := List.mem_map.mp (List.mem_filter.mp h).1
  exact AList.mem_lookup_iff.mpr he

theorem lookup_of_mem_getMembersByState {L : MembershipList} {state : MemberState}
    (h : peer ∈ L.getMembersByState state) : L.members.lookup peer.1 = some peer.2 := by
  obtain ⟨e, he, rfl⟩ := List.mem_map.mp (List.mem_filter.mp h).1
  exact AList.mem_lookup_iff.mpr he

namespace Steady

theorem withSender (h : n.Steady) {pc : SenderPc} (hpc : ∀ s ∈ pc.addresses, Usable s) :
    Steady { n with sender := pc } := { h with sender := hpc }

theorem withReceiver (h : n.Steady) {pc : ReceiverPc} (hpc : ∀ s ∈ pc.addresses, Usable s) :
    Steady { n with receiver := pc } := { h with receiver := hpc }

theorem idleSender (h : n.Steady) {pc : SenderPc} (hpc : pc.addresses = []) :
    Steady { n with sender := pc } := h.withSender (by rw [hpc]; simp)

theorem idleReceiver (h : n.Steady) {pc : ReceiverPc} (hpc : pc.addresses = []) :
    Steady { n with receiver := pc } := h.withReceiver (by rw [hpc]; simp)

theorem withList (h : n.Steady) {L : MembershipList} (hL : L.AddressesUsable) :
    Steady { n with list := L } := { h with members := hL }

theorem register (h : n.Steady) : n.register.Steady := { h with }

theorem eraseAcks (h : n.Steady) (seqs : List ℕ) : (n.eraseAcks seqs).Steady := { h with }

theorem withAddress {s : String} {k : Address → Node} (hs : Usable s) (hk : ∀ a, (k a).Steady) :
    (n.withAddress s k).Steady := by
  obtain ⟨a, ha⟩ := hs
  unfold Node.withAddress
  rw [ha]
  exact hk a

theorem sendStep (h : n.Steady) (m : Sending) : (n.sendStep m).1.Steady := by
  cases m with
  | collect o =>
    unfold Node.sendStep MembershipList.getUpdatesForPiggyback
    rw [if_neg (not_lt.mpr h.config)]
    exact h.withList h.members
  | transmit o updates => exact { h with }

/-- A `SendMessage` step of a thread that goes on parsing no address. -/
theorem sending (h : n.Steady) (m : Sending) {more : Node → Sending → Node} {done : Node → Node}
    (hmore : ∀ n' m', n'.Steady → (more n' m').Steady) (hdone : ∀ n', n'.Steady → (done n').Steady) :
    (match n.sendStep m with
      | (n', some m') => more n' m'
      | (n', none) => done n').Steady := by
  have hn := h.sendStep m
  refine sendStep_elim (fun n' m' hr => ?_) fun n' hr => ?_ <;> rw [hr] at hn
  · exact hmore n' m' hn
  · exact hdone n' hn

theorem senderStep (h : n.Steady) (hs : n.senderStep c = some n') : n'.Steady := by
  have hsender := h.sender
  cases senderStep_move hs with
  | goto seqs hpc => exact (h.eraseAcks seqs).idleSender hpc.2
  | pick hpeer _ hpc =>
    have hlookup := lookup_of_mem_alivePeers (mem_of_randomAlivePeer hpeer)
    exact h.withSender (hpc ▸ List.forall_mem_singleton.mpr (h.members _ _ hlookup))
  | probe haddress _ _ hpc =>
    rw [haddress] at hsender
    exact withAddress (List.forall_mem_singleton.mp hsender) fun a => h.register.idleSender (hpc a)
  | send _ _ hmore _ hdone =>
    exact h.sending _ (fun n' m' hn => hn.idleSender (hmore m')) fun n' hn => hn.idleSender hdone.2
  | suspect => exact (h.withList h.members.markSuspect).idleSender rfl
  | expire => exact (h.withList h.members.markDead).idleSender rfl

theorem receiverStep (h : n.Steady) (hown : n.list.myId ∈ n.list.members)
    (hupdate : ∀ msg src u rest, n.receiver = .apply msg src u rest →
      Usable u.address ∨ n.list.Ignores u)
    (hs : n.receiverStep = some n') : n'.Steady := by
  cases receiverStep_move hs with
  | refute => exact (h.withList (h.members.incrementMyIncarnation hown)).idleReceiver rfl
  | apply hpc =>
    exact (h.withList (h.members.applyUpdate (hupdate _ _ _ _ hpc))).idleReceiver rfl
  | @ping msg src =>
    have hmembers : AddressesUsable
        (if msg.senderId ≠ "" then n.list.addMember msg.senderId src.toString else n.list) := by
      split_ifs
      · exact h.members.addMember (usable_toString src)
      · exact h.members
    exact { h with members := hmembers, receiver := by intro s hs; cases hs }
  | pingReq _ _ hmember =>
    exact h.withReceiver (List.forall_mem_singleton.mpr (h.members _ _ hmember))
  | relayProbe hpc =>
    have hreceiver := h.receiver
    rw [hpc] at hreceiver
    exact withAddress (List.forall_mem_singleton.mp hreceiver) fun a =>
      h.register.idleReceiver rfl
  | ackPing | relayPing | relayAck =>
    exact h.sending _ (fun _ _ hn => hn.idleReceiver rfl) fun _ hn => hn.idleReceiver rfl
  | receive | handled | toRefute | toApply | unknown | ack | waiting | answered | timedOut
  | relayForget => exact { h with receiver := by intro s hs; cases hs }

theorem leaverStep (h : n.Steady) (hs : n.leaverStep = some n') : n'.Steady := by
  have hleaver := h.leaver
  cases leaverStep_move hs with
  | snapshot =>
    refine { h with leaver := ?_ }
    intro s hs
    obtain ⟨p, hp, rfl⟩ := List.mem_map.mp hs
    exact h.members _ _ (lookup_of_mem_getMembersByState hp)
  | readIncarnation hpc =>
    rw [hpc] at hleaver
    exact { h with leaver := hleaver }
  | done => exact { h with leaver := by intro s hs; cases hs }
  | announce hpc =>
    rw [hpc] at hleaver
    refine withAddress (hleaver _ (List.mem_map_of_mem List.mem_cons_self)) fun a => ?_
    refine { h with leaver := ?_ }
    intro s hs
    obtain ⟨p, hp, rfl⟩ := List.mem_map.mp hs
    exact hleaver _ (List.mem_map_of_mem (List.mem_cons_of_mem _ hp))

theorem joinCluster (h : n.Steady) {seeds : List String} (hseeds : ∀ s ∈ seeds, Usable s) :
    (n.joinCluster seeds).Steady := by
  refine h.withList ?_
  have hl : ∀ L : MembershipList, L.AddressesUsable →
      (seeds.foldl (fun list addr => if addr = n.myAddress then list
        else list.addMember ("seed-" ++ addr) addr) L).AddressesUsable := by
    induction seeds with
    | nil => exact fun L hL => hL
    | cons addr seeds ih =>
      intro L hL
      rw [List.foldl_cons]
      refine ih (fun s hs => hseeds s (List.mem_cons_of_mem _ hs)) _ ?_
      split_ifs
      · exact hL
      · exact hL.addMember (hseeds addr List.mem_cons_self)
  exact hl n.list h.members

end Steady

/-- The seeds of a `JoinCluster` call are usable addresses, and so is the address of an update that
`ApplyUpdate` is called with, unless the update has no effect. -/
structure Harmless (n : Node) (a : Act) : Prop where
  seeds : ∀ seeds, a = .joinCluster seeds → ∀ s ∈ seeds, Usable s
  updates : ∀ msg src u rest, a = .receiver → n.receiver = .apply msg src u rest →
    Usable u.address ∨ n.list.Ignores u

/-- **No exception.** -/
theorem Steady.step (h : n.Steady) (hown : n.list.myId ∈ n.list.members) (ha : n.Harmless a)
    (hs : n.step a = some n') : n'.Steady := by
  cases step_move hs with
  | tick | setMyLoad | arrive => exact { h with }
  | joinCluster seeds => exact h.joinCluster (ha.seeds seeds rfl)
  | sender _ hs => exact h.senderStep hs
  | receiver _ hs => exact h.receiverStep hown (fun msg src u rest => ha.updates msg src u rest rfl) hs
  | leaver _ hs => exact h.leaverStep hs

theorem create_steady {myId myAddress : String} {config : SwimConfig} (haddress : Usable myAddress)
    (hconfig : 0 ≤ config.maxPiggybackUpdates) : (create myId myAddress config).Steady where
  alive := rfl
  config := hconfig
  members := by
    have hempty : AddressesUsable { myId := myId } := by intro id e he; cases he
    exact hempty.addMember haddress
  sender := by intro s hs; cases hs
  receiver := by intro s hs; cases hs
  leaver := by intro s hs; cases hs

end Node

end LlmGateway.Gossip
