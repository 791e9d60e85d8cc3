import Mathlib.Data.List.AList
import LlmGateway.Common.Clock
import LlmGateway.Gossip.Message

/-!
# The membership list

`MembershipList`: the table of members, the node's own incarnation and the piggyback buffer. Every
operation runs under `mutex_`, so each is one function of the state here. `std::unordered_map` is
an association list without repeated keys; nothing depends on its order.

`ApplyUpdate`, `MarkSuspect` and `MarkDead` call `callback_` after the lock is released: `Outcome`
carries the arguments of that call.
-/

namespace LlmGateway.Gossip

/-- `std::unordered_map<K, V>`. -/
abbrev UnorderedMap (κ α : Type) := AList fun _ : κ => α

structure MemberInfo where
  address : String := ""
  state : MemberState := .alive
  incarnation : ℕ := 0
  modelVersion : String := ""
  activeRequests : ℤ := 0
  maxCapacity : ℤ := 0
  suspectTime : ℕ := 0
  deriving DecidableEq, Repr

/-- What conflict resolution compares of a stored member. -/
def MemberInfo.rank (info : MemberInfo) : Rank := toLex (info.incarnation, info.state)

structure PiggybackEntry where
  update : MembershipUpdate
  sendCount : ℕ := 0
  deriving DecidableEq, Repr

/-- The arguments of a `MembershipCallback` call. -/
structure CallbackCall where
  memberId : String
  oldState : MemberState
  newState : MemberState
  deriving DecidableEq, Repr

structure MembershipList where
  myId : String
  myIncarnation : ℕ := 0
  members : UnorderedMap String MemberInfo := ∅
  piggybackBuffer : List PiggybackEntry := []
  deriving DecidableEq

/-- What an operation leaves behind: the list, the returned flag, and the callback it fires. -/
structure Outcome where
  list : MembershipList
  changed : Bool
  callback : Option CallbackCall := none

/-- `kMaxPiggybackSends`. -/
abbrev maxPiggybackSends : ℕ := 10

/-- `kMaxPiggybackBuffer`. -/
abbrev maxPiggybackBuffer : ℕ := 50

/-- The update `QueueUpdate` builds from a member's entry. -/
def MemberInfo.toUpdate (id : String) (info : MemberInfo) : MembershipUpdate where
  memberId := id
  address := info.address
  state := info.state
  incarnation := info.incarnation
  modelVersion := info.modelVersion
  activeRequests := info.activeRequests
  maxCapacity := info.maxCapacity

/-- The load fields an equal or weaker update refreshes, and whether one of them changed. -/
def MemberInfo.refreshLoad (existing : MemberInfo) (u : MembershipUpdate) : MemberInfo × Bool :=
  let reported : Bool := u.activeRequests ≠ 0 ∨ u.maxCapacity ≠ 0
  let renamed : Bool := u.modelVersion ≠ "" ∧ existing.modelVersion ≠ u.modelVersion
  ({ existing with
      activeRequests := if reported then u.activeRequests else existing.activeRequests
      maxCapacity := if reported then u.maxCapacity else existing.maxCapacity
      modelVersion := if renamed then u.modelVersion else existing.modelVersion },
    (reported && (existing.activeRequests ≠ u.activeRequests ∨
      existing.maxCapacity ≠ u.maxCapacity)) || renamed)

/-- The entry after a winning update; a new suspicion starts its timer. -/
def MemberInfo.overwrite (info : MemberInfo) (now : ℕ) (u : MembershipUpdate) : MemberInfo :=
  let reported : Bool := u.activeRequests ≠ 0 ∨ u.maxCapacity ≠ 0
  { address := u.address
    state := u.state
    incarnation := u.incarnation
    modelVersion := if u.modelVersion ≠ "" then u.modelVersion else info.modelVersion
    activeRequests := if reported then u.activeRequests else info.activeRequests
    maxCapacity := if reported then u.maxCapacity else info.maxCapacity
    suspectTime := if u.state = .suspect then now else info.suspectTime }

namespace MembershipList

variable (L : MembershipList)

/-- `QueueUpdate`: drop the oldest update when the buffer is full, then append. -/
def queueUpdate (id : String) (info : MemberInfo) : MembershipList :=
  let kept := if maxPiggybackBuffer ≤ L.piggybackBuffer.length then L.piggybackBuffer.tail
    else L.piggybackBuffer
  { L with piggybackBuffer := kept ++ [⟨info.toUpdate id, 0⟩] }

/-- `members_[id] = info`. -/
def setMember (id : String) (info : MemberInfo) : MembershipList :=
  { L with members := L.members.insert id info }

/-- Store an entry and queue it for piggybacking. -/
def record (id : String) (info : MemberInfo) : MembershipList :=
  (L.setMember id info).queueUpdate id info

/-- The part of `ApplyUpdate` below the conflict resolution: overwrite, queue, fire. -/
def install (now : ℕ) (u : MembershipUpdate) (old : MemberInfo) (oldState : MemberState) :
    Outcome where
  list := L.record u.memberId (old.overwrite now u)
  changed := true
  callback := if u.state ≠ oldState then some ⟨u.memberId, oldState, u.state⟩ else none

/-- `ApplyUpdate`. -/
def applyUpdate (now : ℕ) (u : MembershipUpdate) : Outcome :=
  match L.members.lookup u.memberId with
  | none => L.install now u {} .dead
  | some existing =>
    if u.incarnation < existing.incarnation then
      -- a stale update, even a DEAD one
      ⟨L, false, none⟩
    else if u.incarnation = existing.incarnation ∧ u.state ≤ existing.state then
      let refreshed := existing.refreshLoad u
      ⟨L.setMember u.memberId refreshed.1, false,
        if refreshed.2 then some ⟨u.memberId, existing.state, existing.state⟩ else none⟩
    else
      L.install now u existing existing.state

/-- `MarkSuspect`. -/
def markSuspect (now : ℕ) (id : String) : Outcome :=
  match L.members.lookup id with
  | none => ⟨L, false, none⟩
  | some info =>
    if info.state ≠ .alive then ⟨L, false, none⟩
    else ⟨L.record id { info with state := .suspect, suspectTime := now }, true,
      some ⟨id, info.state, .suspect⟩⟩

/-- `MarkDead`. -/
def markDead (id : String) : Outcome :=
  match L.members.lookup id with
  | none => ⟨L, false, none⟩
  | some info =>
    if info.state = .dead then ⟨L, false, none⟩
    else ⟨L.record id { info with state := .dead }, true, some ⟨id, info.state, .dead⟩⟩

/-- `AddMember`: no effect on a known id, and no callback. -/
def addMember (id address : String) : MembershipList :=
  match L.members.lookup id with
  | some _ => L
  | none => L.record id { address := address, state := .alive, incarnation := 0 }

/-- `GetMember`. -/
def getMember (id : String) : Option MemberInfo := L.members.lookup id

/-- `GetMembersByState`, in the order of the map. -/
def getMembersByState (state : MemberState) : List (String × MemberInfo) :=
  (L.members.entries.map fun e => (e.1, e.2)).filter fun e => e.1 ≠ L.myId ∧ e.2.state = state

/-- The candidates of `GetRandomAlivePeer`; the call returns any one of them. -/
def alivePeers (exclude : List String) : List (String × MemberInfo) :=
  (L.members.entries.map fun e => (e.1, e.2)).filter fun e =>
    e.1 ≠ L.myId ∧ (e.2.state = .alive ∨ e.2.state = .suspect) ∧ e.1 ∉ exclude

/-- The loops of `GetUpdatesForPiggyback`: the first `maxCount` updates, each counted as sent once
more; then the front of the buffer is dropped while it has been sent often enough. -/
def takeUpdates (maxCount : ℕ) : List MembershipUpdate × MembershipList :=
  let taken := L.piggybackBuffer.take maxCount
  let counted := taken.map (fun p => { p with sendCount := p.sendCount + 1 }) ++
    L.piggybackBuffer.drop maxCount
  (taken.map (·.update),
    { L with piggybackBuffer := counted.dropWhile fun p => maxPiggybackSends ≤ p.sendCount })

/-- `GetUpdatesForPiggyback`. With a negative `maxCount` it throws, as it reserves room. -/
def getUpdatesForPiggyback (maxCount : ℤ) : Option (List MembershipUpdate × MembershipList) :=
  if maxCount < 0 then none else some (L.takeUpdates maxCount.toNat)

/-- `IncrementMyIncarnation`, on a 64-bit counter. -/
def incrementMyIncarnation : MembershipList :=
  let incarnation := (L.myIncarnation + 1) % 2 ^ 64
  let self := (L.members.lookup L.myId).getD {}
  { L with myIncarnation := incarnation }.record L.myId
    { self with state := .alive, incarnation := incarnation }

/-! ## The cases of `ApplyUpdate` -/

section Apply

variable {L} {now : ℕ} {u : MembershipUpdate} {e : MemberInfo}

theorem applyUpdate_of_none (h : L.members.lookup u.memberId = none) :
    L.applyUpdate now u = L.install now u {} .dead := by
  unfold applyUpdate; rw [h]

theorem applyUpdate_of_stale (h : L.members.lookup u.memberId = some e)
    (hlt : u.incarnation < e.incarnation) : L.applyUpdate now u = ⟨L, false, none⟩ := by
  unfold applyUpdate; rw [h]; exact if_pos hlt

theorem applyUpdate_of_weaker (h : L.members.lookup u.memberId = some e)
    (hinc : u.incarnation = e.incarnation) (hst : u.state ≤ e.state) :
    (L.applyUpdate now u).list = L.setMember u.memberId (e.refreshLoad u).1 ∧
      (L.applyUpdate now u).changed = false := by
  unfold applyUpdate; rw [h]
  dsimp only
  rw [if_neg (by omega), if_pos ⟨hinc, hst⟩]
  exact ⟨rfl, rfl⟩

theorem applyUpdate_of_stronger (h : L.members.lookup u.memberId = some e)
    (hrank : e.rank < u.rank) : L.applyUpdate now u = L.install now u e e.state := by
  rcases Prod.Lex.toLex_lt_toLex.mp hrank with hinc | ⟨hinc, hst⟩
  · have hinc : e.incarnation < u.incarnation := hinc
    unfold applyUpdate; rw [h]
    dsimp only
    rw [if_neg (by omega), if_neg (by omega)]
  · have hinc : e.incarnation = u.incarnation := hinc
    have hst : e.state < u.state := hst
    unfold applyUpdate; rw [h]
    dsimp only
    rw [if_neg (by omega), if_neg fun hc => absurd hst (not_lt_of_ge hc.2)]

/-- An update beats the entry, ties or loses against it on the state, or is stale. -/
theorem rank_trichotomy (e : MemberInfo) (u : MembershipUpdate) :
    e.rank < u.rank ∨ (u.incarnation = e.incarnation ∧ u.state ≤ e.state) ∨
      u.incarnation < e.incarnation := by
  by_cases h : e.rank < u.rank
  · exact Or.inl h
  · rcases Prod.Lex.toLex_le_toLex.mp (not_lt.mp h) with hinc | ⟨hinc, hst⟩
    · exact Or.inr (Or.inr hinc)
    · exact Or.inr (Or.inl ⟨hinc, hst⟩)

/-- **The cases of `ApplyUpdate`**: a new member, a winning update, a load refresh, a stale one. -/
theorem applyUpdate_cases (L : MembershipList) (now : ℕ) (u : MembershipUpdate) :
    (L.members.lookup u.memberId = none ∧ L.applyUpdate now u = L.install now u {} .dead) ∨
    ∃ e, L.members.lookup u.memberId = some e ∧
      ((e.rank < u.rank ∧ L.applyUpdate now u = L.install now u e e.state) ∨
        (u.incarnation = e.incarnation ∧ u.state ≤ e.state ∧
          (L.applyUpdate now u).list = L.setMember u.memberId (e.refreshLoad u).1 ∧
          (L.applyUpdate now u).changed = false) ∨
        (u.incarnation < e.incarnation ∧ L.applyUpdate now u = ⟨L, false, none⟩)) := by
  cases h : L.members.lookup u.memberId with
  | none => exact Or.inl ⟨rfl, applyUpdate_of_none h⟩
  | some e =>
    refine Or.inr ⟨e, rfl, ?_⟩
    rcases rank_trichotomy e u with hr | ⟨hinc, hst⟩ | hlt
    · exact Or.inl ⟨hr, applyUpdate_of_stronger h hr⟩
    · exact Or.inr (Or.inl ⟨hinc, hst, applyUpdate_of_weaker h hinc hst⟩)
    · exact Or.inr (Or.inr ⟨hlt, applyUpdate_of_stale h hlt⟩)

/-- `ApplyUpdate` leaves the list as it is or stores one entry for the member, and queues it when
the update wins. -/
theorem applyUpdate_list (L : MembershipList) (now : ℕ) (u : MembershipUpdate) :
    (L.applyUpdate now u).list = L ∨
      (∃ e, L.members.lookup u.memberId = some e ∧
        (L.applyUpdate now u).list = L.setMember u.memberId (e.refreshLoad u).1) ∨
      ∃ e : MemberInfo, (L.applyUpdate now u).list = L.record u.memberId (e.overwrite now u) := by
  rcases applyUpdate_cases L now u with ⟨_, h⟩ | ⟨e, he, ⟨_, h⟩ | ⟨_, _, h, _⟩ | ⟨_, h⟩⟩
  · exact Or.inr (Or.inr ⟨{}, by rw [h]; rfl⟩)
  · exact Or.inr (Or.inr ⟨e, by rw [h]; rfl⟩)
  · exact Or.inr (Or.inl ⟨e, he, h⟩)
  · exact Or.inl (by rw [h])

end Apply

/-! ## Lookups after an operation -/

section Lookup

variable {L} {now : ℕ} {id id' : String} {info : MemberInfo} {u : MembershipUpdate}

@[simp] theorem queueUpdate_members : (L.queueUpdate id info).members = L.members := rfl

@[simp] theorem record_members : (L.record id info).members = L.members.insert id info := rfl

@[simp] theorem setMember_members : (L.setMember id info).members = L.members.insert id info := rfl

@[simp] theorem takeUpdates_members {m : ℕ} :
    (L.takeUpdates m).2.members = L.members := rfl

theorem mem_takeUpdates_buffer {m : ℕ} {q : PiggybackEntry}
    (hq : q ∈ (L.takeUpdates m).2.piggybackBuffer) : ∃ p ∈ L.piggybackBuffer, p.update = q.update := by
  rcases List.mem_append.mp ((List.dropWhile_sublist _).mem hq) with hq | hq
  · obtain ⟨p, hp, rfl⟩ := List.mem_map.mp hq
    exact ⟨p, List.mem_of_mem_take hp, rfl⟩
  · exact ⟨q, List.mem_of_mem_drop hq, rfl⟩

theorem forall_record_buffer {U : MembershipUpdate → Prop} (h : ∀ q ∈ L.piggybackBuffer, U q.update)
    (hinfo : U (info.toUpdate id)) : ∀ q ∈ (L.record id info).piggybackBuffer, U q.update := by
  intro q hq
  rcases List.mem_append.mp hq with hq | hq
  · refine h q ?_
    split_ifs at hq
    · exact List.mem_of_mem_tail hq
    · exact hq
  · rw [List.mem_singleton.mp hq]
    exact hinfo

theorem lookup_insert_of_ne (h : id' ≠ id) :
    (L.members.insert id info).lookup id' = L.members.lookup id' :=
  AList.lookup_insert_ne h

theorem applyUpdate_lookup_of_ne (h : id ≠ u.memberId) :
    (L.applyUpdate now u).list.members.lookup id = L.members.lookup id := by
  rcases applyUpdate_list L now u with hl | ⟨e, _, hl⟩ | ⟨e, hl⟩ <;> rw [hl]
  · exact lookup_insert_of_ne h
  · exact lookup_insert_of_ne h

theorem markSuspect_lookup_of_ne (h : id' ≠ id) :
    (L.markSuspect now id).list.members.lookup id' = L.members.lookup id' := by
  unfold markSuspect
  cases L.members.lookup id with
  | none => rfl
  | some info =>
    dsimp only
    split_ifs
    · rfl
    · exact lookup_insert_of_ne h

theorem markDead_lookup_of_ne (h : id' ≠ id) :
    (L.markDead id).list.members.lookup id' = L.members.lookup id' := by
  unfold markDead
  cases L.members.lookup id with
  | none => rfl
  | some info =>
    dsimp only
    split_ifs
    · rfl
    · exact lookup_insert_of_ne h

theorem addMember_lookup_of_some {address : String} (h : L.members.lookup id' = some info) :
    (L.addMember id address).members.lookup id' = some info := by
  unfold addMember
  cases hid : L.members.lookup id with
  | some _ => exact h
  | none =>
    refine (lookup_insert_of_ne ?_).trans h
    rintro rfl
    rw [hid] at h
    cases h

theorem incrementMyIncarnation_lookup_self :
    ∃ self, L.incrementMyIncarnation.members.lookup L.myId = some self ∧ self.state = .alive ∧
      self.incarnation = L.incrementMyIncarnation.myIncarnation :=
  ⟨_, AList.lookup_insert _, rfl, rfl⟩

theorem incrementMyIncarnation_lookup_of_ne (h : id ≠ L.myId) :
    L.incrementMyIncarnation.members.lookup id = L.members.lookup id :=
  lookup_insert_of_ne h

end Lookup

/-! ## The node's own id and incarnation -/

section Own

variable {L} {now : ℕ} {id address : String} {u : MembershipUpdate}

@[simp] theorem applyUpdate_own : (L.applyUpdate now u).list.myIncarnation = L.myIncarnation ∧
    (L.applyUpdate now u).list.myId = L.myId := by
  rcases applyUpdate_list L now u with hl | ⟨e, _, hl⟩ | ⟨e, hl⟩ <;> rw [hl] <;> exact ⟨rfl, rfl⟩

@[simp] theorem markSuspect_own :
    (L.markSuspect now id).list.myIncarnation = L.myIncarnation ∧
      (L.markSuspect now id).list.myId = L.myId := by
  unfold markSuspect
  split
  · exact ⟨rfl, rfl⟩
  · split_ifs <;> exact ⟨rfl, rfl⟩

@[simp] theorem markDead_own : (L.markDead id).list.myIncarnation = L.myIncarnation ∧
    (L.markDead id).list.myId = L.myId := by
  unfold markDead
  split
  · exact ⟨rfl, rfl⟩
  · split_ifs <;> exact ⟨rfl, rfl⟩

@[simp] theorem addMember_own : (L.addMember id address).myIncarnation = L.myIncarnation ∧
    (L.addMember id address).myId = L.myId := by
  unfold addMember
  split <;> exact ⟨rfl, rfl⟩

@[simp] theorem takeUpdates_own {m : ℕ} :
    (L.takeUpdates m).2.myIncarnation = L.myIncarnation ∧
      (L.takeUpdates m).2.myId = L.myId := ⟨rfl, rfl⟩

@[simp] theorem incrementMyIncarnation_myId : L.incrementMyIncarnation.myId = L.myId := rfl

theorem incrementMyIncarnation_myIncarnation :
    L.incrementMyIncarnation.myIncarnation = (L.myIncarnation + 1) % 2 ^ 64 := rfl

end Own

end MembershipList

end LlmGateway.Gossip
