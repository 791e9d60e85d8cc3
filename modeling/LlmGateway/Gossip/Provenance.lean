import LlmGateway.Gossip.Held

/-!
# Where incarnations come from

An entry, a buffered update or a message makes a claim `(id, incarnation)` about a member. No
operation of the membership list invents one: a claim made after it was made before, or is the
claim of the update applied, `0` for a member added by address, or the node's own incarnation.

`Reports U`: all that a list says, in its table and in its buffer, satisfies `U`. `ClaimsIn P` says
that all claims a list or a node makes, in its table, in its buffer, in the locals of its threads, in
its socket and in what it has sent, satisfy `P`. `Sound.step` is the rule for one step of a node: what
arrives, `0` and the node's own incarnation are the only sources.
-/

namespace LlmGateway.Gossip

namespace MembershipList

/-- What the list says, in its table and in its buffer, satisfies `U`. -/
structure Reports (U : MembershipUpdate → Prop) (L : MembershipList) : Prop where
  members : ∀ id e, L.members.lookup id = some e → U (e.toUpdate id)
  buffer : ∀ q ∈ L.piggybackBuffer, U q.update

section Reports

variable {U : MembershipUpdate → Prop} {L : MembershipList} {id address : String} {e : MemberInfo}
  {now : ℕ}

theorem reports_empty : Reports U { myId := id } where
  members := by intro id' e he; cases he
  buffer := by intro q hq; cases hq

theorem Reports.setMember (h : L.Reports U) (he : U (e.toUpdate id)) : (L.setMember id e).Reports U where
  members := by
    intro id' e' hl
    by_cases hid : id' = id
    · subst hid
      rw [setMember_members, AList.lookup_insert] at hl
      cases hl
      exact he
    · rw [setMember_members, lookup_insert_of_ne hid] at hl
      exact h.members id' e' hl
  buffer := h.buffer

theorem Reports.record (h : L.Reports U) (he : U (e.toUpdate id)) : (L.record id e).Reports U where
  members := (h.setMember he).members
  buffer := forall_record_buffer h.buffer he

theorem Reports.markSuspect (h : L.Reports U)
    (hmark : ∀ e, L.members.lookup id = some e → e.state = .alive →
      U (MemberInfo.toUpdate id { e with state := .suspect, suspectTime := now })) :
    (L.markSuspect now id).list.Reports U := by
  unfold MembershipList.markSuspect
  cases he : L.members.lookup id with
  | none => exact h
  | some e =>
    dsimp only
    split_ifs with hst
    · exact h
    · exact h.record (hmark e he (not_not.mp hst))

theorem Reports.markDead (h : L.Reports U)
    (hmark : ∀ e, L.members.lookup id = some e → U (MemberInfo.toUpdate id { e with state := .dead })) :
    (L.markDead id).list.Reports U := by
  unfold MembershipList.markDead
  cases he : L.members.lookup id with
  | none => exact h
  | some e =>
    dsimp only
    split_ifs
    · exact h
    · exact h.record (hmark e he)

theorem Reports.addMember (h : L.Reports U) (hnew : U (MemberInfo.toUpdate id { address })) :
    (L.addMember id address).Reports U := by
  unfold MembershipList.addMember
  cases L.members.lookup id with
  | some _ => exact h
  | none => exact h.record hnew

theorem Reports.addMembers (h : L.Reports U) {members : List (String × String)}
    (hnew : ∀ m ∈ members, U (MemberInfo.toUpdate m.1 { address := m.2 })) :
    (L.addMembers members).Reports U := by
  unfold MembershipList.addMembers
  induction members generalizing L with
  | nil => exact h
  | cons m members ih =>
    obtain ⟨hm, hmembers⟩ := List.forall_mem_cons.mp hnew
    exact ih (h.addMember hm) hmembers

theorem Reports.takeUpdates (h : L.Reports U) (m : ℕ) : (L.takeUpdates m).2.Reports U where
  members := h.members
  buffer := by
    intro q hq
    obtain ⟨p, hp, heq⟩ := mem_takeUpdates_buffer hq
    rw [← heq]
    exact h.buffer p hp

end Reports

end MembershipList

/-- A predicate on claims: the member and the incarnation claimed for it. -/
abbrev ClaimPred := String → ℕ → Prop

/-- The claim of an update satisfies `P`. -/
def MembershipUpdate.In (P : ClaimPred) (u : MembershipUpdate) : Prop := P u.memberId u.incarnation

namespace MembershipList

structure ClaimsIn (P : ClaimPred) (L : MembershipList) : Prop where
  members : ∀ id e, L.members.lookup id = some e → P id e.incarnation
  buffer : ∀ p ∈ L.piggybackBuffer, p.update.In P

variable {P Q : ClaimPred} {L : MembershipList} {now : ℕ} {id address : String} {e : MemberInfo}
  {u : MembershipUpdate}

theorem ClaimsIn.mono (h : L.ClaimsIn P) (hPQ : ∀ id i, P id i → Q id i) : L.ClaimsIn Q where
  members id e he := hPQ _ _ (h.members id e he)
  buffer p hp := hPQ _ _ (h.buffer p hp)

theorem claimsIn_iff_reports : L.ClaimsIn P ↔ L.Reports (MembershipUpdate.In P) :=
  ⟨fun h => ⟨h.members, h.buffer⟩, fun h => ⟨h.members, h.buffer⟩⟩

theorem ClaimsIn.setMember (h : L.ClaimsIn P) (he : P id e.incarnation) :
    (L.setMember id e).ClaimsIn P :=
  claimsIn_iff_reports.mpr ((claimsIn_iff_reports.mp h).setMember he)

theorem ClaimsIn.record (h : L.ClaimsIn P) (he : P id e.incarnation) : (L.record id e).ClaimsIn P :=
  claimsIn_iff_reports.mpr ((claimsIn_iff_reports.mp h).record he)

theorem ClaimsIn.applyUpdate (h : L.ClaimsIn P) (hu : u.In P) :
    (L.applyUpdate now u).list.ClaimsIn P := by
  rcases applyUpdate_list L now u with hl | ⟨e, he, hl⟩ | ⟨e, hl⟩ <;> rw [hl]
  · exact h
  · exact h.setMember (h.members _ e he)
  · exact h.record hu

theorem ClaimsIn.incrementMyIncarnation (h : L.ClaimsIn P)
    (hown : P L.myId L.incrementMyIncarnation.myIncarnation) :
    L.incrementMyIncarnation.ClaimsIn P :=
  ClaimsIn.record (L := { L with myIncarnation := _ }) ⟨h.members, h.buffer⟩ hown

end MembershipList

/-! ## The claims of a node -/

namespace Node

structure ClaimsIn (P : ClaimPred) (n : Node) : Prop where
  list : n.list.ClaimsIn P
  sender : ∀ u ∈ n.sender.held, u.In P
  receiver : ∀ u ∈ n.receiver.held, u.In P
  leaver : ∀ u ∈ n.leaver.held, u.In P
  socket : ∀ d ∈ n.socket, ∀ u ∈ d.1.updates, u.In P
  sent : ∀ d ∈ n.sent, ∀ u ∈ d.msg.updates, u.In P

variable {P Q : ClaimPred} {n n' : Node}

theorem ClaimsIn.mono (h : n.ClaimsIn P) (hPQ : ∀ id i, P id i → Q id i) : n.ClaimsIn Q where
  list := h.list.mono hPQ
  sender u hu := hPQ _ _ (h.sender u hu)
  receiver u hu := hPQ _ _ (h.receiver u hu)
  leaver u hu := hPQ _ _ (h.leaver u hu)
  socket d hd u hu := hPQ _ _ (h.socket d hd u hu)
  sent d hd u hu := hPQ _ _ (h.sent d hd u hu)

/-- A node without claims outside `P` whose own incarnation satisfies it. -/
structure Sound (P : ClaimPred) (n : Node) : Prop extends n.ClaimsIn P where
  own : P n.list.myId n.list.myIncarnation

/-- The list after a step makes no claim outside `P`; `hown` is what a refutation needs. -/
theorem Sound.list_step (h : n.Sound P) {a : Act} {L' : MembershipList} (h0 : ∀ id, P id 0)
    (hown : ∀ msg src u rest, n.receiver = .refute msg src u rest → a = .receiver →
      P n.list.myId n.list.incrementMyIncarnation.myIncarnation)
    (he : ListEffect n a L') : L'.ClaimsIn P ∧ P L'.myId L'.myIncarnation := by
  have hkeep : ∀ L' : MembershipList, L'.myIncarnation = n.list.myIncarnation ∧
      L'.myId = n.list.myId → P L'.myId L'.myIncarnation := by
    rintro L' ⟨hinc, hid⟩
    rw [hinc, hid]
    exact h.own
  have hlist := MembershipList.claimsIn_iff_reports.mp h.list
  have hclaims := fun L => (MembershipList.claimsIn_iff_reports (P := P) (L := L)).mpr
  cases he with
  | keep => exact ⟨h.list, h.own⟩
  | collect m => exact ⟨hclaims _ (hlist.takeUpdates m), h.own⟩
  | suspect _ =>
    exact ⟨hclaims _ (hlist.markSuspect fun e he _ => h.list.members _ e he),
      hkeep _ MembershipList.markSuspect_own⟩
  | expire _ _ =>
    exact ⟨hclaims _ (hlist.markDead fun e he => h.list.members _ e he),
      hkeep _ MembershipList.markDead_own⟩
  | add members =>
    exact ⟨hclaims _ (hlist.addMembers fun m _ => h0 m.1), hkeep _ MembershipList.addMembers_own⟩
  | refute hpc =>
    have hnew := hown _ _ _ _ hpc rfl
    exact ⟨h.list.incrementMyIncarnation hnew, hnew⟩
  | apply hpc =>
    refine ⟨h.list.applyUpdate (h.receiver _ ?_), hkeep _ MembershipList.applyUpdate_own⟩
    rw [hpc]
    exact List.mem_cons_self

/-- **Sources of claims.** A step of a node that is not leaving makes no claim outside `P`, when
`P` holds of what arrives, of `0` and of an incremented own incarnation. -/
theorem Sound.step (h : n.Sound P) {a : Act} (h0 : ∀ id, P id 0)
    (harrive : ∀ msg src, a = .arrive msg src → ∀ u ∈ msg.updates, u.In P)
    (hown : ∀ msg src u rest, n.receiver = .refute msg src u rest → a = .receiver →
      P n.list.myId n.list.incrementMyIncarnation.myIncarnation)
    (hleave : a ≠ .leaver) (hs : n.step a = some n') : n'.Sound P := by
  obtain ⟨hlist, hself⟩ := h.list_step h0 hown (step_spec hs).list
  have hheld : n'.Held fun u => u.In P :=
    Held.step ⟨h.sender, h.receiver, h.leaver, h.socket, h.sent⟩ (fun _ => h.list.buffer) h.own
      harrive hleave hs
  exact ⟨⟨hlist, hheld.sender, hheld.receiver, hheld.leaver, hheld.socket, hheld.sent⟩, hself⟩

theorem create_sound (h0 : ∀ id, P id 0) (myId myAddress : String) (config : SwimConfig) :
    (create myId myAddress config).Sound P where
  list := MembershipList.claimsIn_iff_reports.mpr (MembershipList.reports_empty.addMember (h0 myId))
  sender := by intro u hu; cases hu
  receiver := by intro u hu; cases hu
  leaver := by intro u hu; cases hu
  socket := by intro d hd; cases hd
  sent := by intro d hd; cases hd
  own := h0 _

end Node

end LlmGateway.Gossip
