import LlmGateway.Lib.Transition
import LlmGateway.Gossip.MembershipCallback
import LlmGateway.Gateway.ReplicaRegistry

/-!
# What the registry knows of the members

The operations of the gateway's membership list one after another, each with the callback it fires.
The callback reads the member and writes all of it to the registry, so an operation that fires it
brings the two together. `ApplyUpdate` tells of a change of state, and of changed metadata where the
update does not win; a winning update with the state the member has is not told of.

1. `updateFromGossip_agrees`: after the callback the entries agree.
2. `refreshLoad_eq`, `agrees_overwrite_iff`: what the two branches without a change of state do.
3. `synced_iff`: when the entries agree after every operation.
-/

namespace LlmGateway.Gateway

open Gossip Transition

/-- An operation of the list. The clock is read for the suspicion timers. -/
inductive ListOperation
  | applyUpdate (now : ℕ) (update : MembershipUpdate)
  | markSuspect (now : ℕ) (id : String)
  | markDead (id : String)
  | addMember (id address : String)
  | incrementMyIncarnation
  deriving DecidableEq, Repr

def ListOperation.apply (L : MembershipList) : ListOperation → Outcome
  | .applyUpdate now u => L.applyUpdate now u
  | .markSuspect now id => L.markSuspect now id
  | .markDead id => L.markDead id
  | .addMember id address => ⟨L.addMember id address, false, none⟩
  | .incrementMyIncarnation => ⟨L.incrementMyIncarnation, false, none⟩

/-- The membership list of the gateway, and the registry that its callback keeps. -/
structure Subscription where
  list : MembershipList
  registry : ReplicaRegistry := {}

namespace Subscription

/-- The callback of `main`. An exception of `UpdateFromGossip` comes after the entry is written. -/
def callback (L : MembershipList) (registry : ReplicaRegistry) (call : CallbackCall) :
    ReplicaRegistry :=
  match L.getMember call.memberId with
  | some info => (registry.updateFromGossip call.memberId (info.toUpdate call.memberId)).1
  | none => registry

/-- One operation, and the callback it fires. -/
def step (s : Subscription) (op : ListOperation) : Option Subscription :=
  let o := op.apply s.list
  some ⟨o.list, o.callback.elim s.registry (callback o.list s.registry)⟩

/-- A gateway that has heard of nobody. -/
def new (myId : String) : Subscription := ⟨{ myId := myId }, {}⟩

end Subscription

/-- The registry's entry says what the list's entry says. -/
structure Agrees (info : MemberInfo) (replica : ReplicaInfo) : Prop where
  address : replica.gossipAddress = info.address
  state : replica.gossipState = info.state
  activeRequests : replica.reportedActiveRequests = info.activeRequests
  maxCapacity : replica.maxCapacity = info.maxCapacity
  modelVersion : replica.modelVersion = info.modelVersion

/-- Every replica in the registry, but for the gateway itself, agrees with its member. -/
def Subscription.Synced (s : Subscription) : Prop :=
  ∀ id replica, id ≠ s.list.myId → s.registry.getReplica id = some replica →
    ∃ info, s.list.getMember id = some info ∧ Agrees info replica

/-- The operation is a winning update about a member in the registry, with the state it has and
another address, load or model version. -/
def Subscription.Silent (s : Subscription) (op : ListOperation) : Prop :=
  ∃ now u info, op = .applyUpdate now u ∧ u.memberId ≠ s.list.myId ∧
    (s.registry.getReplica u.memberId).isSome ∧ s.list.getMember u.memberId = some info ∧
    info.incarnation < u.incarnation ∧ u.state = info.state ∧
    (u.address ≠ info.address ∨ (info.refreshLoad u).2 = true)

variable {r : ReplicaRegistry} {id : String} {u : MembershipUpdate} {info : MemberInfo}
  {replica : ReplicaInfo} {L : MembershipList} {now : ℕ} {s s' : Subscription} {op : ListOperation}

/-! ## The callback -/

/-- What the callback writes agrees with the member, unless a version is kept that the member does
not have. -/
theorem updateFromGossip_agrees
    (hversion : info.modelVersion = "" → ((r.getReplica id).getD {}).modelVersion = "") :
    ∃ replica, (r.updateFromGossip id (info.toUpdate id)).1.getReplica id = some replica ∧
      Agrees info replica := by
  have hagrees : Agrees info (((r.getReplica id).getD {}).refresh (info.toUpdate id)) := by
    refine ⟨rfl, rfl, rfl, rfl, ?_⟩
    show (if info.modelVersion ≠ "" then info.modelVersion else _) = info.modelVersion
    split_ifs with hempty
    · rfl
    · rw [hversion (not_not.mp hempty), not_not.mp hempty]
  unfold ReplicaRegistry.updateFromGossip
  dsimp only
  split_ifs
  · split
    · exact ⟨_, ReplicaRegistry.getReplica_set,
        ⟨hagrees.address, hagrees.state, hagrees.activeRequests, hagrees.maxCapacity,
          hagrees.modelVersion⟩⟩
    · exact ⟨_, ReplicaRegistry.getReplica_set, hagrees⟩
    · exact ⟨_, ReplicaRegistry.getReplica_set, hagrees⟩
  · exact ⟨_, ReplicaRegistry.getReplica_set, hagrees⟩

/-! ## Updates that leave the state -/

/-- When a refresh tells of nothing: the update reports no load or the load there is, and no version
or the version there is. -/
theorem refreshLoad_unchanged_iff : (info.refreshLoad u).2 = false ↔
    (¬ (u.activeRequests ≠ 0 ∨ u.maxCapacity ≠ 0) ∨
      info.activeRequests = u.activeRequests ∧ info.maxCapacity = u.maxCapacity) ∧
    (u.modelVersion = "" ∨ info.modelVersion = u.modelVersion) := by
  unfold MemberInfo.refreshLoad
  simp only [Bool.or_eq_false_iff, Bool.and_eq_false_iff, decide_eq_false_iff_not, not_and_or,
    not_or, not_not, ne_eq]

theorem reported_eq_iff {α : Type} {p : Prop} [Decidable p] {new old : α} :
    old = (if p then new else old) ↔ ¬ p ∨ old = new := by
  constructor
  · intro h
    split_ifs at h with hp
    · exact Or.inr h
    · exact Or.inl hp
  · rintro (hp | heq)
    · exact (if_neg hp).symm
    · rw [← heq, ite_self]

theorem refreshLoad_eq (h : (info.refreshLoad u).2 = false) : (info.refreshLoad u).1 = info := by
  obtain ⟨hload, hversion⟩ := refreshLoad_unchanged_iff.mp h
  have hrenamed : ¬ (u.modelVersion ≠ "" ∧ info.modelVersion ≠ u.modelVersion) := by tauto
  unfold MemberInfo.refreshLoad
  simp only [decide_eq_true_eq]
  rw [← reported_eq_iff.mpr (hload.imp_right And.left),
    ← reported_eq_iff.mpr (hload.imp_right And.right), if_neg hrenamed]

/-- A winning update with the state the member has, and the registry's entry of before. -/
theorem agrees_overwrite_iff (hstate : u.state = info.state) (h : Agrees info replica) :
    Agrees (info.overwrite now u) replica ↔
      u.address = info.address ∧ (info.refreshLoad u).2 = false := by
  rw [refreshLoad_unchanged_iff]
  constructor
  · rintro ⟨haddress, -, hactive, hcapacity, hversion⟩
    rw [h.address] at haddress
    rw [h.activeRequests] at hactive
    rw [h.maxCapacity] at hcapacity
    rw [h.modelVersion] at hversion
    simp only [MemberInfo.overwrite, decide_eq_true_eq] at haddress hactive hcapacity hversion
    rw [reported_eq_iff] at hactive hcapacity hversion
    refine ⟨haddress.symm, ?_, hversion.imp_left not_not.mp⟩
    tauto
  · rintro ⟨haddress, hload, hversion⟩
    refine ⟨h.address.trans haddress.symm, h.state.trans hstate.symm, ?_, ?_, ?_⟩
    · refine h.activeRequests.trans ?_
      simp only [MemberInfo.overwrite, decide_eq_true_eq]
      exact reported_eq_iff.mpr (hload.imp_right And.left)
    · refine h.maxCapacity.trans ?_
      simp only [MemberInfo.overwrite, decide_eq_true_eq]
      exact reported_eq_iff.mpr (hload.imp_right And.right)
    · refine h.modelVersion.trans ?_
      exact reported_eq_iff.mpr (hversion.imp_left not_not.mpr)

/-! ## One operation -/

/-- An operation concerns one member, or the gateway's own entry. -/
def ListOperation.subject (L : MembershipList) : ListOperation → String
  | .applyUpdate _ u => u.memberId
  | .markSuspect _ id => id
  | .markDead id => id
  | .addMember id _ => id
  | .incrementMyIncarnation => L.myId

theorem addMember_lookup_of_ne {id' address : String} (h : id' ≠ id) :
    (L.addMember id address).members.lookup id' = L.members.lookup id' := by
  unfold MembershipList.addMember
  cases L.members.lookup id with
  | none => exact MembershipList.lookup_insert_of_ne h
  | some info => rfl

theorem apply_frame (op : ListOperation) (h : id ≠ op.subject L) :
    (op.apply L).list.getMember id = L.getMember id := by
  cases op with
  | applyUpdate now u => exact MembershipList.applyUpdate_lookup_of_ne h
  | markSuspect now id' => exact MembershipList.markSuspect_lookup_of_ne h
  | markDead id' => exact MembershipList.markDead_lookup_of_ne h
  | addMember id' address => exact addMember_lookup_of_ne h
  | incrementMyIncarnation => exact MembershipList.incrementMyIncarnation_lookup_of_ne h

theorem apply_myId (op : ListOperation) : (op.apply L).list.myId = L.myId := by
  cases op with
  | applyUpdate now u => exact MembershipList.applyUpdate_own.2
  | markSuspect now id' => exact MembershipList.markSuspect_own.2
  | markDead id' => exact MembershipList.markDead_own.2
  | addMember id' address => exact MembershipList.addMember_own.2
  | incrementMyIncarnation => rfl

/-- What an operation does to the entry it concerns and whether it tells of it. -/
inductive SubjectStep (s : Subscription) (op : ListOperation) (o : Outcome) : Prop
  /-- The callback is fired. A version is never taken away. -/
  | told (call : CallbackCall) (info' : MemberInfo) : o.callback = some call →
      call.memberId = op.subject s.list → o.list.getMember call.memberId = some info' →
      (info'.modelVersion = "" → ∀ info, s.list.getMember call.memberId = some info →
        info.modelVersion = "") → SubjectStep s op o
  /-- The entry stays as it was, or there was none. -/
  | kept : o.callback = none →
      (∀ info, s.list.getMember (op.subject s.list) = some info →
        o.list.getMember (op.subject s.list) = some info) → SubjectStep s op o
  /-- The gateway's own entry. -/
  | own : o.callback = none → op.subject s.list = s.list.myId → SubjectStep s op o
  /-- A winning update with the state the member has. -/
  | overwritten {now : ℕ} {u : MembershipUpdate} (info : MemberInfo) : op = .applyUpdate now u →
      o.callback = none → s.list.getMember u.memberId = some info →
      info.incarnation < u.incarnation → u.state = info.state →
      o.list.getMember u.memberId = some (info.overwrite now u) → SubjectStep s op o

theorem overwrite_version (h : (info.overwrite now u).modelVersion = "") :
    info.modelVersion = "" := by
  have h : (if u.modelVersion ≠ "" then u.modelVersion else info.modelVersion) = "" := h
  split_ifs at h with hempty
  · exact absurd h hempty
  · exact h

theorem refreshLoad_version (h : (info.refreshLoad u).1.modelVersion = "") :
    info.modelVersion = "" := by
  simp only [MemberInfo.refreshLoad, decide_eq_true_eq] at h
  split_ifs at h with hrenamed
  · exact absurd h hrenamed.1
  · exact h

theorem subjectStep_applyUpdate (s : Subscription) (now : ℕ) (u : MembershipUpdate) :
    SubjectStep s (.applyUpdate now u) (s.list.applyUpdate now u) := by
  cases hlookup : s.list.getMember u.memberId with
  | none =>
    have hunknown : ∀ info, s.list.getMember u.memberId ≠ some info := by
      intro info
      rw [hlookup]
      exact nofun
    rw [MembershipList.applyUpdate_of_none hlookup]
    by_cases hdead : u.state = .dead
    · exact .kept (if_neg (not_not.mpr hdead)) fun info hinfo => absurd hinfo (hunknown info)
    · exact .told ⟨u.memberId, .dead, u.state⟩ _ (if_pos hdead) rfl
        MembershipList.getMember_record fun _ info hinfo => absurd hinfo (hunknown info)
  | some info =>
    have honly : ∀ other, s.list.getMember u.memberId = some other → other = info := by
      intro other hother
      exact Option.some.inj (hother.symm.trans hlookup)
    rcases MembershipList.rank_trichotomy info u with hrank | ⟨hinc, hstate⟩ | hlt
    · rw [MembershipList.applyUpdate_of_stronger hlookup hrank]
      by_cases hsame : u.state = info.state
      · -- it can only win by its incarnation
        have hinc : info.incarnation < u.incarnation := by
          rcases Prod.Lex.toLex_lt_toLex.mp hrank with hinc | ⟨-, hst⟩
          · exact hinc
          · exact absurd hsame.symm (ne_of_lt hst)
        exact .overwritten info rfl (if_neg (not_not.mpr hsame)) hlookup hinc hsame
          MembershipList.getMember_record
      · refine .told ⟨u.memberId, info.state, u.state⟩ _ (if_pos hsame) rfl
          MembershipList.getMember_record fun hversion other hother => ?_
        rw [honly other hother]
        exact overwrite_version hversion
    · have happly : s.list.applyUpdate now u =
          ⟨s.list.setMember u.memberId (info.refreshLoad u).1, false,
            if (info.refreshLoad u).2 then some ⟨u.memberId, info.state, info.state⟩ else none⟩ := by
        have hlookup' : s.list.members.lookup u.memberId = some info := hlookup
        unfold MembershipList.applyUpdate
        rw [hlookup']
        dsimp only
        rw [if_neg (by omega), if_pos ⟨hinc, hstate⟩]
      rw [happly]
      cases hchanged : (info.refreshLoad u).2 with
      | true =>
        refine .told ⟨u.memberId, info.state, info.state⟩ _ rfl rfl
          MembershipList.getMember_setMember fun hversion other hother => ?_
        rw [honly other hother]
        exact refreshLoad_version hversion
      | false =>
        refine .kept rfl fun other hother => ?_
        rw [honly other hother, refreshLoad_eq hchanged]
        exact MembershipList.getMember_setMember
    · rw [MembershipList.applyUpdate_of_stale hlookup hlt]
      exact .kept rfl fun _ h => h

theorem subjectStep_mark (s : Subscription) (id : String) (state : MemberState) {o : Outcome}
    {f : MemberInfo → MemberInfo} {p : MemberInfo → Prop} [DecidablePred p]
    (hf : ∀ info, (f info).modelVersion = info.modelVersion) (hop : op.subject s.list = id)
    (ho : o = (s.list.getMember id).elim ⟨s.list, false, none⟩ fun info =>
      if p info then ⟨s.list, false, none⟩
      else ⟨s.list.record id (f info), true, some ⟨id, info.state, state⟩⟩) :
    SubjectStep s op o := by
  subst ho
  cases hlookup : s.list.getMember id with
  | none => exact .kept rfl fun info hinfo => hinfo
  | some info =>
    dsimp only [Option.elim]
    split_ifs with hp
    · exact .kept rfl fun info hinfo => hinfo
    · refine .told _ _ rfl hop.symm MembershipList.getMember_record fun hversion other hother => ?_
      have hother : s.list.getMember id = some other := hother
      rw [← Option.some.inj (hlookup.symm.trans hother), ← hf]
      exact hversion

/-- **The cases of an operation.** -/
theorem subjectStep (s : Subscription) (op : ListOperation) :
    SubjectStep s op (op.apply s.list) := by
  cases op with
  | applyUpdate now u => exact subjectStep_applyUpdate s now u
  | markSuspect now id =>
    refine subjectStep_mark s id .suspect (p := fun info => info.state ≠ .alive)
      (f := fun info => { info with state := .suspect, suspectTime := now }) (fun _ => rfl) rfl ?_
    show s.list.markSuspect now id = _
    unfold MembershipList.markSuspect MembershipList.getMember
    cases s.list.members.lookup id <;> rfl
  | markDead id =>
    refine subjectStep_mark s id .dead (p := fun info => info.state = .dead)
      (f := fun info => { info with state := .dead }) (fun _ => rfl) rfl ?_
    show s.list.markDead id = _
    unfold MembershipList.markDead MembershipList.getMember
    cases s.list.members.lookup id <;> rfl
  | addMember id address =>
    exact .kept rfl fun info hinfo => MembershipList.addMember_lookup_of_some hinfo
  | incrementMyIncarnation => exact .own rfl rfl

/-! ## Every sequence of operations -/

theorem Subscription.Silent.overwrites (h : s.Silent op) :
    ∃ now u info, op = .applyUpdate now u ∧ u.memberId ≠ s.list.myId ∧
      s.list.getMember u.memberId = some info ∧ info.incarnation < u.incarnation ∧
      (op.apply s.list).callback = none ∧
      (op.apply s.list).list.getMember u.memberId = some (info.overwrite now u) := by
  obtain ⟨now, u, info, rfl, hid, -, hinfo, hinc, hstate, -⟩ := h
  refine ⟨now, u, info, rfl, hid, hinfo, hinc, ?_⟩
  have hrank : info.rank < u.rank := Prod.Lex.toLex_lt_toLex.mpr (Or.inl hinc)
  have happly : (ListOperation.applyUpdate now u).apply s.list =
      s.list.install now u info info.state := MembershipList.applyUpdate_of_stronger hinfo hrank
  rw [happly]
  exact ⟨if_neg (not_not.mpr hstate), MembershipList.getMember_record⟩

/-- An operation tells of the entry it concerns, or of none. -/
theorem callback_subject {call : CallbackCall} (hcall : (op.apply s.list).callback = some call) :
    call.memberId = op.subject s.list := by
  cases subjectStep s op with
  | told call' _ hcall' hsubject =>
    rw [hcall] at hcall'
    cases hcall'
    exact hsubject
  | kept hnone | own hnone | overwritten _ _ hnone =>
    rw [hcall] at hnone
    cases hnone

theorem agrees_frame (h : s.Synced) (hs : s.step op = some s') (hid : id ≠ s.list.myId)
    (hframe : id ≠ op.subject s.list) (hreplica : s'.registry.getReplica id = some replica) :
    ∃ info, s'.list.getMember id = some info ∧ Agrees info replica := by
  cases hs
  have hsame : s.registry.getReplica id = some replica := by
    rw [← hreplica]
    cases hcall : (op.apply s.list).callback with
    | none => rfl
    | some call =>
      have hne : id ≠ call.memberId := callback_subject hcall ▸ hframe
      dsimp only [Option.elim, Subscription.callback]
      cases (op.apply s.list).list.getMember call.memberId with
      | none => rfl
      | some info => exact (ReplicaRegistry.getReplica_updateFromGossip_of_ne _ hne).symm
  obtain ⟨info, hinfo, hagrees⟩ := h id replica hid hsame
  exact ⟨info, (apply_frame op hframe).trans hinfo, hagrees⟩

theorem agrees_told {call : CallbackCall} {info' : MemberInfo} (h : s.Synced)
    (hs : s.step op = some s') (hcall : (op.apply s.list).callback = some call)
    (hid : call.memberId ≠ s.list.myId)
    (hinfo' : (op.apply s.list).list.getMember call.memberId = some info')
    (hversion : info'.modelVersion = "" → ∀ info, s.list.getMember call.memberId = some info →
      info.modelVersion = "") (hreplica : s'.registry.getReplica call.memberId = some replica) :
    ∃ info, s'.list.getMember call.memberId = some info ∧ Agrees info replica := by
  have hempty : info'.modelVersion = "" →
      ((s.registry.getReplica call.memberId).getD {}).modelVersion = "" := by
    intro hnone
    cases hold : s.registry.getReplica call.memberId with
    | none => rfl
    | some old =>
      obtain ⟨info, hinfo, hagrees⟩ := h _ old hid hold
      exact hagrees.modelVersion.trans (hversion hnone info hinfo)
  obtain ⟨replica', hreplica', hagrees⟩ := updateFromGossip_agrees hempty
  cases hs
  dsimp only at hreplica ⊢
  rw [hcall] at hreplica
  dsimp only [Option.elim, Subscription.callback] at hreplica
  rw [hinfo'] at hreplica
  rw [Option.some.inj (hreplica.symm.trans hreplica')]
  exact ⟨info', hinfo', hagrees⟩

/-- An entry that is overwritten without a callback agrees with the replica as before exactly if the
operation is not silent. -/
theorem agrees_overwritten_iff {now : ℕ} {u : MembershipUpdate} {info : MemberInfo}
    (h : s.Synced) (hid : u.memberId ≠ s.list.myId)
    (hinfo : s.list.getMember u.memberId = some info) (hinc : info.incarnation < u.incarnation)
    (hstate : u.state = info.state) :
    (∀ replica, s.registry.getReplica u.memberId = some replica →
        Agrees (info.overwrite now u) replica) ↔ ¬ s.Silent (.applyUpdate now u) := by
  constructor
  · rintro hagrees' ⟨now', u', info', hop, -, hknown, hinfo', -, -, hchange⟩
    cases hop
    obtain rfl := Option.some.inj (hinfo.symm.trans hinfo')
    obtain ⟨replica, hreplica⟩ := Option.isSome_iff_exists.mp hknown
    obtain ⟨_, hold, hagrees⟩ := h _ replica hid hreplica
    obtain rfl := Option.some.inj (hinfo.symm.trans hold)
    obtain ⟨haddress, hload⟩ := (agrees_overwrite_iff hstate hagrees).mp (hagrees' _ hreplica)
    rcases hchange with hchange | hchange
    · exact hchange haddress
    · rw [hload] at hchange
      cases hchange
  · intro hsilent replica hreplica
    obtain ⟨_, hold, hagrees⟩ := h _ replica hid hreplica
    obtain rfl := Option.some.inj (hinfo.symm.trans hold)
    refine (agrees_overwrite_iff hstate hagrees).mpr ?_
    by_contra hchange
    refine hsilent ⟨now, u, info, rfl, hid, Option.isSome_iff_exists.mpr ⟨_, hreplica⟩, hinfo, hinc,
      hstate, ?_⟩
    rw [not_and_or, Bool.not_eq_false] at hchange
    exact hchange

/-- **One operation** keeps the registry in agreement with the list, if and only if it is not a
silent one. -/
theorem synced_step (h : s.Synced) (hs : s.step op = some s') : s'.Synced ↔ ¬ s.Silent op := by
  have hmyId : s'.list.myId = s.list.myId := by
    cases hs
    exact apply_myId op
  -- it comes to the entry that the operation concerns
  have hsynced : (op.subject s.list ≠ s.list.myId → ∀ replica,
        s'.registry.getReplica (op.subject s.list) = some replica →
        ∃ info, s'.list.getMember (op.subject s.list) = some info ∧ Agrees info replica) →
      s'.Synced := by
    intro hsubject id replica hid hreplica
    rw [hmyId] at hid
    by_cases hframe : id = op.subject s.list
    · subst hframe
      exact hsubject hid replica hreplica
    · exact agrees_frame h hs hid hframe hreplica
  cases subjectStep s op with
  | told call info' hcall hsubject hinfo' hversion =>
    refine iff_of_true (hsynced ?_) fun hsilent => ?_
    · intro hid replica hreplica
      rw [← hsubject] at hid hreplica ⊢
      exact agrees_told h hs hcall hid hinfo' hversion hreplica
    · obtain ⟨_, _, _, -, -, -, -, hnone, -⟩ := hsilent.overwrites
      rw [hcall] at hnone
      cases hnone
  | kept hnone hkept =>
    refine iff_of_true (hsynced ?_) fun hsilent => ?_
    · intro hid replica hreplica
      cases hs
      dsimp only at hreplica ⊢
      rw [hnone] at hreplica
      obtain ⟨info, hinfo, hagrees⟩ := h _ replica hid hreplica
      exact ⟨info, hkept info hinfo, hagrees⟩
    · obtain ⟨now, u, info, rfl, -, hinfo, hinc, -, hover⟩ := hsilent.overwrites
      -- the incarnation is another one
      have hsame : info.overwrite now u = info :=
        Option.some.inj (hover.symm.trans (hkept info hinfo))
      have hsame' : u.incarnation = info.incarnation := congrArg MemberInfo.incarnation hsame
      omega
  | own hnone hsubject =>
    refine iff_of_true (hsynced fun hid => absurd hsubject hid) fun hsilent => ?_
    obtain ⟨now, u, info, rfl, hid, -⟩ := hsilent.overwrites
    exact hid hsubject
  | @overwritten now u info hop hnone hinfo hinc hstate hover =>
    subst hop
    have hregistry : s'.registry = s.registry := by
      cases hs
      dsimp only
      rw [hnone]
      rfl
    have hmember : s'.list.getMember u.memberId = some (info.overwrite now u) := by
      cases hs
      exact hover
    by_cases hid : u.memberId = s.list.myId
    · refine iff_of_true (hsynced fun hne => absurd hid hne) fun hsilent => ?_
      obtain ⟨_, _, _, hop, hne, -⟩ := hsilent.overwrites
      cases hop
      exact hne hid
    · rw [← agrees_overwritten_iff h hid hinfo hinc hstate]
      constructor
      · intro h' replica hreplica
        obtain ⟨_, hnew, hagrees⟩ := h' _ replica (hmyId ▸ hid) (hregistry ▸ hreplica)
        obtain rfl := Option.some.inj (hmember.symm.trans hnew)
        exact hagrees
      · intro hagrees
        refine hsynced fun _ replica hreplica => ⟨_, hmember, hagrees replica ?_⟩
        exact hregistry ▸ hreplica

theorem new_synced (myId : String) : (Subscription.new myId).Synced := by
  intro id replica _ hreplica
  cases hreplica

/-- **What the registry knows.** After every operation the registry agrees with the membership list,
if and only if no operation is silent: no update wins over the entry of a member in the registry
with the state it has, and with another address, load or model version. -/
theorem synced_iff (myId : String) (ops : List ListOperation) :
    (Always Subscription.step (.new myId) ops fun _ s => s.Synced) ↔
      EveryStep Subscription.step (.new myId) ops fun _ s op => ¬ s.Silent op := by
  obtain ⟨s, hrun⟩ : ∃ s, Run Subscription.step (.new myId) ops s := by
    induction ops using List.reverseRecOn with
    | nil => exact ⟨_, .nil⟩
    | append_singleton ops op ih =>
      obtain ⟨s, hs⟩ := ih
      exact ⟨_, hs.snoc rfl⟩
  constructor
  · intro halways pre op s hpre hs
    obtain ⟨s', -, hstep, hs', -⟩ := hrun.step_of_prefix hpre hs
    have hpre' : pre <+: ops := (List.prefix_append _ _).trans hpre
    exact (synced_step (halways pre s hpre' hs) hstep).mp (halways _ s' hpre hs')
  · exact always_of_everyStep hrun (new_synced myId)
      fun pre s op s' _ hsynced hsilent hstep => (synced_step hsynced hstep).mpr hsilent

/-- A replica joins, and announces itself again with a higher incarnation, another capacity and
another version. -/
def announcedTwice : List ListOperation :=
  [.applyUpdate 0 ⟨"replica-1", "a:17001", .alive, 0, "v1", 0, 4⟩,
    .applyUpdate 0 ⟨"replica-1", "a:17001", .alive, 1, "v2", 0, 8⟩]

/-- The second announcement does not get to the registry. -/
theorem not_synced_announcedTwice :
    ∃ s, Run Subscription.step (.new "gateway-1") announcedTwice s ∧
      (s.list.getMember "replica-1").map (fun info => (info.maxCapacity, info.modelVersion)) =
        some (8, "v2") ∧
      (s.registry.getReplica "replica-1").map (fun info => (info.maxCapacity, info.modelVersion)) =
        some (4, "v1") ∧ ¬ s.Synced := by
  have hrun : Run Subscription.step (.new "gateway-1") announcedTwice _ :=
    run_get (by decide +kernel)
  have hmember : (((exec Subscription.step (.new "gateway-1") announcedTwice).get
      (by decide +kernel)).list.getMember "replica-1").map MemberInfo.maxCapacity = some 8 := by
    decide +kernel
  have hreplica : (((exec Subscription.step (.new "gateway-1") announcedTwice).get
      (by decide +kernel)).registry.getReplica "replica-1").map ReplicaInfo.maxCapacity =
        some 4 := by decide +kernel
  refine ⟨_, hrun, by decide +kernel, by decide +kernel, fun hsynced => ?_⟩
  obtain ⟨replica, hreplica, hcapacity⟩ := Option.map_eq_some_iff.mp hreplica
  obtain ⟨info, hinfo, hcapacity'⟩ := Option.map_eq_some_iff.mp hmember
  obtain ⟨_, hinfo', hagrees⟩ := hsynced "replica-1" replica (by decide +kernel) hreplica
  obtain rfl := Option.some.inj (hinfo.symm.trans hinfo')
  have := hagrees.maxCapacity
  omega

end LlmGateway.Gateway
