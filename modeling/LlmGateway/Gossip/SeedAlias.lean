import LlmGateway.Gossip.Refutation

/-!
# The temporary id of a seed

`JoinCluster` enters a seed under the id `seed-<address>`; the comment of `HandlePing` has the
sender's real id replace it. `AddMember` only adds, and no operation of the list removes an entry.

1. `mem_step`: a step brings in the ids in `introduces`, and loses none.
2. `mem_run`: so the list holds the node itself and what the run has brought in.
3. `noAlias_iff`: so a temporary id stands beside the real one as soon as both have come in, in
   whatever order.
-/

namespace LlmGateway.Gossip

open Transition

/-- The id under which `JoinCluster` enters a seed. -/
def seedId (addr : String) : String := "seed-" ++ addr

/-- An id that a node gives itself: not empty, and not a temporary one. -/
def IsReal (id : String) : Prop := id ≠ "" ∧ ¬ "seed-".toList <+: id.toList

instance : DecidablePred IsReal := fun _ => inferInstanceAs (Decidable (_ ∧ _))

/-! ## The keys of the list -/

namespace MembershipList

variable {L : MembershipList} {id id' address : String} {now m : ℕ} {u : MembershipUpdate}
  {info : MemberInfo}

theorem mem_record : id ∈ (L.record id' info).members ↔ id = id' ∨ id ∈ L.members :=
  AList.mem_insert L.members

theorem mem_record_of_mem (h : id' ∈ L.members) :
    id ∈ (L.record id' info).members ↔ id ∈ L.members := by
  rw [mem_record]
  constructor
  · rintro (rfl | hid)
    · exact h
    · exact hid
  · exact Or.inr

theorem mem_of_lookup (h : L.members.lookup id = some info) : id ∈ L.members := by
  rw [← AList.lookup_isSome, h]
  rfl

theorem mem_addMember : id ∈ (L.addMember id' address).members ↔ id = id' ∨ id ∈ L.members := by
  unfold addMember
  cases h : L.members.lookup id' with
  | none => exact mem_record
  | some info =>
    constructor
    · exact Or.inr
    · rintro (rfl | hid)
      · exact mem_of_lookup h
      · exact hid

theorem mem_addMembers {members : List (String × String)} :
    id ∈ (L.addMembers members).members ↔ id ∈ L.members ∨ id ∈ members.map Prod.fst := by
  unfold addMembers
  induction members generalizing L with
  | nil => simp
  | cons p members ih =>
    rw [List.foldl_cons, ih, mem_addMember, List.map_cons, List.mem_cons]
    tauto

theorem mem_markSuspect : id ∈ (L.markSuspect now id').list.members ↔ id ∈ L.members := by
  unfold markSuspect
  cases h : L.members.lookup id' with
  | none => rfl
  | some info =>
    dsimp only
    split_ifs
    · rfl
    · exact mem_record_of_mem (mem_of_lookup h)

theorem mem_markDead : id ∈ (L.markDead id').list.members ↔ id ∈ L.members := by
  unfold markDead
  cases h : L.members.lookup id' with
  | none => rfl
  | some info =>
    dsimp only
    split_ifs
    · rfl
    · exact mem_record_of_mem (mem_of_lookup h)

theorem mem_applyUpdate_iff :
    id ∈ (L.applyUpdate now u).list.members ↔ id = u.memberId ∨ id ∈ L.members := by
  rcases applyUpdate_cases L now u with ⟨-, h⟩ | ⟨e, he, ⟨-, h⟩ | ⟨-, -, h, -⟩ | ⟨-, h⟩⟩ <;> rw [h]
  · exact mem_record
  · exact mem_record
  · exact AList.mem_insert L.members
  · constructor
    · exact Or.inr
    · rintro (rfl | hid)
      · exact mem_of_lookup he
      · exact hid

theorem mem_incrementMyIncarnation (h : L.myId ∈ L.members) :
    id ∈ L.incrementMyIncarnation.members ↔ id ∈ L.members :=
  mem_record_of_mem h

end MembershipList

namespace Node

open MembershipList

variable {n n' s : Node} {a : Act} {c : Choice} {id myId myAddress : String} {config : SwimConfig}
  {es fs : List Act}

/-! ## What a step brings in -/

/-- The ids that a step enters: the seeds of `JoinCluster`, the member of an update, the sender of
a PING. -/
def introduces (n : Node) : Act → List String
  | .joinCluster seeds => (seeds.filter fun addr => addr ≠ n.myAddress).map seedId
  | .receiver =>
    match n.receiver with
    | .apply _ _ u _ => [u.memberId]
    | .dispatch msg _ => if msg.type = .ping ∧ msg.senderId ≠ "" then [msg.senderId] else []
    | _ => []
  | _ => []

/-- The sender and the source address of the PING that a step handles, if its id is a real one. -/
def greets (n : Node) : Act → List (String × Address)
  | .receiver =>
    match n.receiver with
    | .dispatch msg src => if msg.type = .ping ∧ IsReal msg.senderId then [(msg.senderId, src)] else []
    | _ => []
  | _ => []

/-- A greeting brings in the sender. -/
theorem introduces_of_greets {g : String × Address} (h : g ∈ n.greets a) : g.1 ∈ n.introduces a := by
  unfold greets at h
  unfold introduces
  cases a <;> try cases h
  cases hpc : n.receiver <;> rw [hpc] at h <;> dsimp only at h ⊢ <;> try cases h
  split_ifs at h with hping
  · rw [List.mem_singleton.mp h, if_pos ⟨hping.1, hping.2.1⟩]
    exact List.mem_singleton_self _
  · cases h

theorem members_sendStep (n : Node) (m : Sending) : (n.sendStep m).1.list.members = n.list.members := by
  rcases (n.sendStep_spec m).1.list with h | ⟨k, h⟩
  · rw [h]
  · rw [h, takeUpdates_members]

theorem mem_sendStep {m : Sending} {r : Option Sending} (h : n.sendStep m = (n', r)) :
    id ∈ n'.list.members ↔ id ∈ n.list.members := by
  rw [← members_sendStep n m, h]

theorem mem_senderMove (h : SenderMove c n n') : id ∈ n'.list.members ↔ id ∈ n.list.members := by
  cases h with
  | goto seqs => rfl
  | pick => rfl
  | @probe addr pc o =>
    unfold withAddress
    cases parseAddress addr <;> rfl
  | @send m more done =>
    cases hr : n.sendStep m with
    | mk t r => cases r <;> exact (mem_sendStep hr :)
  | suspect => exact mem_markSuspect
  | expire => exact mem_markDead

theorem mem_receiverSend (m : Sending) (more : Sending → ReceiverPc) (done : ReceiverPc) :
    id ∈ (match n.sendStep m with
      | (n', some m') => { n' with receiver := more m' }
      | (n', none) => { n' with receiver := done } : Node).list.members ↔ id ∈ n.list.members := by
  cases hr : n.sendStep m with
  | mk t r => cases r <;> exact (mem_sendStep hr :)

theorem mem_receiverStep (hown : n.list.myId ∈ n.list.members) (hs : n.receiverStep = some n') :
    id ∈ n'.list.members ↔ id ∈ n.list.members ∨ id ∈ n.introduces .receiver := by
  unfold introduces
  cases receiverStep_move hs with
  | apply hpc =>
    rw [hpc, List.mem_singleton, or_comm]
    exact mem_applyUpdate_iff
  | @ping msg src hpc htype =>
    rw [hpc]
    by_cases hid : msg.senderId = ""
    · simp [htype, hid]
    · simp [htype, hid, mem_addMember, or_comm]
  | @unknown msg src hpc htype | @pingReq msg src _ hpc htype | @ack msg src hpc htype =>
    rw [hpc]
    simp [htype]
  | refute hpc =>
    rw [hpc]
    exact (mem_incrementMyIncarnation hown).trans (or_iff_left List.not_mem_nil).symm
  | relayProbe hpc =>
    rw [hpc]
    unfold withAddress
    split <;> exact (or_iff_left List.not_mem_nil).symm
  | ackPing hpc | relayPing hpc | relayAck hpc =>
    rw [hpc]
    exact (mem_receiverSend ..).trans (or_iff_left List.not_mem_nil).symm
  | receive hpc | handled hpc | toRefute hpc | toApply hpc | waiting hpc | answered hpc
  | timedOut hpc | relayForget hpc =>
    rw [hpc]
    exact (or_iff_left List.not_mem_nil).symm

theorem members_leaverStep (hs : n.leaverStep = some n') : n'.list.members = n.list.members := by
  cases leaverStep_move hs with
  | snapshot | readIncarnation | done => rfl
  | announce =>
    unfold withAddress
    split <;> rfl

/-- **One step of the node.** No step removes an entry. -/
theorem mem_step (hown : n.list.myId ∈ n.list.members) (hs : n.step a = some n') :
    id ∈ n'.list.members ↔ id ∈ n.list.members ∨ id ∈ n.introduces a := by
  cases step_move hs with
  | receiver _ hs => exact mem_receiverStep hown hs
  | joinCluster seeds =>
    rw [joinCluster_list, mem_addMembers, List.map_map]
    rfl
  | sender _ hs =>
    rw [mem_senderMove (senderStep_move hs)]
    exact (or_iff_left List.not_mem_nil).symm
  | leaver _ hs =>
    rw [members_leaverStep hs]
    exact (or_iff_left List.not_mem_nil).symm
  | tick | setMyLoad | arrive => exact (or_iff_left List.not_mem_nil).symm

/-! ## The runs -/

/-- What a run has brought into the list. -/
def introduced (n₀ : Node) (es : List Act) : List String := trace step introduces n₀ es

/-- The PINGs from a real id that a run has handled, with their source addresses. -/
def greeted (n₀ : Node) (es : List Act) : List (String × Address) := trace step greets n₀ es

theorem mem_run (hrun : Run step (create myId myAddress config) es n) :
    id ∈ n.list.members ↔ id = myId ∨ id ∈ introduced (create myId myAddress config) es := by
  induction hrun with
  | nil => exact mem_record
  | snoc hrun hs ih =>
    unfold introduced at ih ⊢
    rw [mem_step (ownKnown_of_run hrun).1.known hs, ih, trace_snoc hrun, List.mem_append, or_assoc]

theorem introduced_of_greeted {n₀ : Node} {g : String × Address} (h : g ∈ greeted n₀ es) :
    g.1 ∈ introduced n₀ es :=
  mem_trace_of_mem (f := Prod.fst) (fun _ _ _ hg => introduces_of_greets hg) h

/-- No peer stands in the list under its real id and under the temporary id of an address from
which a PING of it was handled. -/
def NoAlias (n₀ : Node) (es : List Act) (n : Node) : Prop :=
  ∀ g ∈ greeted n₀ es, ¬ (g.1 ∈ n.list.members ∧ seedId g.2.toString ∈ n.list.members)

/-- Nothing of the run brings in the temporary id of an address from which it handles a PING. -/
def Unseeded (n₀ : Node) (es : List Act) : Prop :=
  ∀ g ∈ greeted n₀ es, seedId g.2.toString ≠ n₀.list.myId ∧ seedId g.2.toString ∉ introduced n₀ es

instance {n₀ : Node} : Decidable (NoAlias n₀ es n) := by unfold NoAlias; infer_instance

instance {n₀ : Node} : Decidable (Unseeded n₀ es) := by unfold Unseeded; infer_instance

/-- **Temporary ids.** In every run of a node, no peer is ever listed under its real id and its
temporary one exactly if no temporary id of a peer that pings is ever brought in: the real id does
not replace the temporary one, and a temporary one that comes later, by gossip too, is added. -/
theorem noAlias_iff (hrun : Run step (create myId myAddress config) es n) :
    Always step (create myId myAddress config) es (NoAlias (create myId myAddress config)) ↔
      Unseeded (create myId myAddress config) es := by
  have hmyId : (create myId myAddress config).list.myId = myId := rfl
  unfold Unseeded
  rw [hmyId]
  constructor
  · intro hno g hg
    have hboth := hno.last hrun g hg
    rw [mem_run hrun, mem_run hrun, not_and, not_or] at hboth
    exact hboth (Or.inr (introduced_of_greeted hg))
  · rintro hun pre s ⟨rest, rfl⟩ hpre g hg ⟨-, hseed⟩
    -- what has happened so far has happened at the end
    have hgreeted : g ∈ greeted (create myId myAddress config) (pre ++ rest) :=
      mem_trace_append hpre hg rest
    obtain ⟨hown, hintro⟩ := hun g hgreeted
    rcases (mem_run hpre).mp hseed with hid | hid
    · exact hown hid
    · exact hintro (mem_trace_append hpre hid rest)

/-- A seed answers with a PING of its own. -/
def seededRun : List Act :=
  [.joinCluster ["127.0.0.1:18002"], .arrive ⟨.ping, "node-2", "", 1, []⟩ ⟨"127.0.0.1", 18002⟩,
    .receiver, .receiver, .receiver]

/-- A node that pings without having been a seed. -/
theorem noAlias_stranger :
    Always step (create "node-1" "127.0.0.1:18001" {}) (seededRun.drop 1)
      (NoAlias (create "node-1" "127.0.0.1:18001" {})) :=
  (noAlias_iff (run_get (by decide +kernel))).mpr (by decide +kernel)

/-- The seed is in the list under both ids from its first PING on, and both may be probed. -/
theorem not_noAlias_seed :
    ∃ n, Run step (create "node-1" "127.0.0.1:18001" {}) seededRun n ∧
      ¬ NoAlias (create "node-1" "127.0.0.1:18001" {}) seededRun n ∧
      "node-2" ∈ (n.list.alivePeers []).map Prod.fst ∧
      seedId "127.0.0.1:18002" ∈ (n.list.alivePeers []).map Prod.fst := by
  refine ⟨_, run_get (by decide +kernel), ?_⟩
  decide +kernel

end Node

end LlmGateway.Gossip
