import LlmGateway.Gossip.Effects

/-!
# When the membership callback is fired

An operation of the membership list runs under the lock, and fires the callback after it has
released the lock, on the thread that called it.

1. `MembershipList.Announces`: an operation that changes the state of a known member fires the
   callback for it.
2. `Node.ListEffect.announces`: the same for one step of a node, its own entry apart.
-/

namespace LlmGateway.Gossip

/-- The threads that run the membership callback. -/
inductive GossipThread
  | sender
  | receiver
  deriving DecidableEq, Repr

def GossipThread.other : GossipThread → GossipThread
  | .sender => .receiver
  | .receiver => .sender

/-- The thread that takes a step. -/
def Act.thread : Act → Option GossipThread
  | .sender _ => some .sender
  | .receiver => some .receiver
  | _ => none

namespace MembershipList

variable {L : MembershipList} {now : ℕ} {u : MembershipUpdate} {id id' : String} {e : MemberInfo}

@[simp] theorem getMember_setMember {info : MemberInfo} :
    (L.setMember id info).getMember id = some info := AList.lookup_insert L.members

@[simp] theorem getMember_record {info : MemberInfo} :
    (L.record id info).getMember id = some info := AList.lookup_insert L.members

/-- A known member stays known, and keeps its state unless the callback is fired for it. -/
def Announces (L : MembershipList) (o : Outcome) : Prop :=
  ∀ id e, L.getMember id = some e → ∃ e', o.list.getMember id = some e' ∧
    (e'.state = e.state ∨ ∃ call, o.callback = some call ∧ call.memberId = id)

theorem announces_refl (L : MembershipList) (changed : Bool) (callback : Option CallbackCall) :
    L.Announces ⟨L, changed, callback⟩ :=
  fun _ e he => ⟨e, he, Or.inl rfl⟩

/-- An operation on one entry that keeps its state or fires the callback for it. -/
theorem announces_of_ne (id : String) {o : Outcome}
    (hne : ∀ id', id' ≠ id → o.list.getMember id' = L.getMember id')
    (hself : ∀ e, L.getMember id = some e → ∃ e', o.list.getMember id = some e' ∧
      (e'.state = e.state ∨ ∃ call, o.callback = some call ∧ call.memberId = id)) :
    L.Announces o := by
  intro id' e he
  by_cases hid : id' = id
  · subst hid
    exact hself e he
  · exact ⟨e, (hne id' hid).trans he, Or.inl rfl⟩

theorem install_announces (he : L.getMember u.memberId = some e) :
    L.Announces (L.install now u e e.state) := by
  refine announces_of_ne u.memberId (fun id' hid => lookup_insert_of_ne hid) fun e' he' => ?_
  obtain rfl := Option.some.inj (he.symm.trans he')
  refine ⟨_, getMember_record, ?_⟩
  by_cases hst : u.state = e.state
  · exact Or.inl hst
  · exact Or.inr ⟨⟨u.memberId, e.state, u.state⟩, if_pos hst, rfl⟩

theorem applyUpdate_announces (L : MembershipList) (now : ℕ) (u : MembershipUpdate) :
    L.Announces (L.applyUpdate now u) := by
  rcases applyUpdate_cases L now u with ⟨hnone, h⟩ | ⟨e, he, ⟨-, h⟩ | ⟨-, -, h, -⟩ | ⟨-, h⟩⟩
  · rw [h]
    refine announces_of_ne u.memberId (fun id' hid => lookup_insert_of_ne hid) fun e' he' => ?_
    rw [getMember, hnone] at he'
    cases he'
  · rw [h]
    exact install_announces he
  · refine announces_of_ne u.memberId (fun id' hid => applyUpdate_lookup_of_ne hid) fun e' he' => ?_
    obtain rfl := Option.some.inj (he.symm.trans he')
    exact ⟨(e.refreshLoad u).1, by rw [h]; exact getMember_setMember, Or.inl rfl⟩
  · rw [h]
    exact announces_refl L false none

theorem markSuspect_announces (L : MembershipList) (now : ℕ) (id : String) :
    L.Announces (L.markSuspect now id) := by
  refine announces_of_ne id (fun id' hid => markSuspect_lookup_of_ne hid) fun e he => ?_
  have he : L.members.lookup id = some e := he
  unfold markSuspect
  rw [he]
  dsimp only
  split_ifs with hst
  · exact ⟨e, he, Or.inl rfl⟩
  · exact ⟨_, getMember_record, Or.inr ⟨_, rfl, rfl⟩⟩

theorem markDead_announces (L : MembershipList) (id : String) : L.Announces (L.markDead id) := by
  refine announces_of_ne id (fun id' hid => markDead_lookup_of_ne hid) fun e he => ?_
  have he : L.members.lookup id = some e := he
  unfold markDead
  rw [he]
  dsimp only
  split_ifs with hst
  · exact ⟨e, he, Or.inl rfl⟩
  · exact ⟨_, getMember_record, Or.inr ⟨_, rfl, rfl⟩⟩

theorem addMembers_getMember {members : List (String × String)} (he : L.getMember id = some e) :
    (L.addMembers members).getMember id = some e := by
  unfold addMembers
  induction members generalizing L with
  | nil => exact he
  | cons m members ih => exact ih (addMember_lookup_of_some he)

end MembershipList

namespace Node

open MembershipList

variable {n n' : Node} {a : Act} {L' : MembershipList}

/-- The callback that the list operation of a step fires. -/
def fires (n : Node) : Act → Option CallbackCall
  | .sender _ =>
    match n.sender with
    | .suspect peer => (n.list.markSuspect n.clock peer.1).callback
    | .expire now ((id, info) :: _) =>
      if n.expired now info then (n.list.markDead id).callback else none
    | _ => none
  | .receiver =>
    match n.receiver with
    | .apply _ _ u _ => (n.list.applyUpdate n.clock u).callback
    | _ => none
  | _ => none

theorem fires_of_thread (h : a.thread = none) : n.fires a = none := by
  cases a with
  | sender c => cases h
  | receiver => cases h
  | _ => rfl

/-- A step tells of every other member whose state it changes. -/
theorem ListEffect.announces {id : String} {e : MemberInfo} (he : ListEffect n a L')
    (hid : id ≠ n.list.myId) (hmember : n.list.getMember id = some e) :
    ∃ e', L'.getMember id = some e' ∧
      (e'.state = e.state ∨ ∃ call, n.fires a = some call ∧ call.memberId = id) := by
  cases he with
  | keep => exact ⟨e, hmember, Or.inl rfl⟩
  | collect m => exact ⟨e, hmember, Or.inl rfl⟩
  | suspect hpc =>
    unfold fires
    rw [hpc]
    exact markSuspect_announces _ _ _ id e hmember
  | expire hpc hexp =>
    unfold fires
    rw [hpc]
    dsimp only
    rw [if_pos hexp]
    exact markDead_announces _ _ id e hmember
  | add members => exact ⟨e, addMembers_getMember hmember, Or.inl rfl⟩
  | refute hpc =>
    exact ⟨e, (incrementMyIncarnation_lookup_of_ne hid).trans hmember, Or.inl rfl⟩
  | apply hpc =>
    unfold fires
    rw [hpc]
    exact applyUpdate_announces _ _ _ id e hmember

theorem ListEffect.myId (he : ListEffect n a L') : L'.myId = n.list.myId := by
  cases he with
  | keep => rfl
  | collect m => rfl
  | suspect hpc => exact markSuspect_own.2
  | expire hpc hexp => exact markDead_own.2
  | add members =>
    unfold addMembers
    generalize n.list = L
    induction members generalizing L with
    | nil => rfl
    | cons m members ih => exact (ih _).trans addMember_own.2
  | refute hpc => rfl
  | apply hpc => exact applyUpdate_own.2

end Node

end LlmGateway.Gossip
