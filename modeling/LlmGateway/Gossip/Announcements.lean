import LlmGateway.Gossip.MemberOrder
import LlmGateway.Gossip.Piggyback

/-!
# What the piggyback buffer holds

The operations of a membership list beside a log of every update that was ever queued, with the
number of times each has been returned. The buffer examines its front only, for room and for updates
that were sent often enough; still it is the pending part of that log, oldest first.

1. `Operation.announced`: the member whose entry an operation announces.
2. `Operation.apply_cases`: an operation stores and queues that entry, or leaves the buffer.
3. `piggybackBuffer_run`: the buffer and the answers of `GetUpdatesForPiggyback` in every run.
-/

namespace LlmGateway.Gossip

open SendQueue

namespace MembershipList

/-- The member an operation queues an update about: it reports a change, adds an unknown member, or
is about the node itself. -/
def Operation.announced (L : MembershipList) : Operation → Option String
  | .applyUpdate now u => if (L.applyUpdate now u).changed then some u.memberId else none
  | .markSuspect now id => if (L.markSuspect now id).changed then some id else none
  | .markDead id => if (L.markDead id).changed then some id else none
  | .addMember id _ => if (L.getMember id).isNone then some id else none
  | .incrementMyIncarnation => some L.myId
  | .getUpdatesForPiggyback _ => none

/-- The update about that member: its address, state and incarnation after the operation. -/
def Operation.announcement (L : MembershipList) (op : Operation) : Option MembershipUpdate :=
  (op.announced L).bind fun id => ((op.apply L).getMember id).map (MemberInfo.toUpdate id)

/-- A list, and all the updates that were ever queued, oldest first. -/
structure Logged where
  list : MembershipList
  log : List (Posted MembershipUpdate) := []

/-- The updates that are to be sent. -/
def Logged.pending (s : Logged) : List (Posted MembershipUpdate) :=
  SendQueue.pending maxPiggybackSends maxPiggybackBuffer s.log

/-- An operation posts its announcement, or hands out pending updates. -/
def Logged.step (s : Logged) (op : Operation) : Logged where
  list := op.apply s.list
  log := match op with
    | .getUpdatesForPiggyback m =>
      handOut maxPiggybackSends maxPiggybackBuffer m.toNat s.log
    | op => (op.announcement s.list).elim s.log (post · s.log)

def Logged.run (s : Logged) (ops : List Operation) : Logged := ops.foldl Logged.step s

variable {L L₀ : MembershipList} {id : String} {e : MemberInfo} {u : MembershipUpdate} {now m : ℕ}
  {op : Operation} {ops : List Operation} {s : Logged}

/-! ## What an operation does to the buffer -/

/-- The outcome reports a change exactly if it queues a new entry of the member. -/
def Queues (o : Outcome) (L : MembershipList) (id : String) : Prop :=
  (o.changed = true ∧ ∃ e, o.list = L.record id e) ∨
    (o.changed = false ∧ o.list.piggybackBuffer = L.piggybackBuffer)

theorem applyUpdate_queues (L : MembershipList) (now : ℕ) (u : MembershipUpdate) :
    Queues (L.applyUpdate now u) L u.memberId := by
  rcases applyUpdate_cases L now u with ⟨-, h⟩ | ⟨e, -, ⟨-, h⟩ | ⟨-, -, hlist, hchanged⟩ | ⟨-, h⟩⟩
  · rw [h]; exact Or.inl ⟨rfl, _, rfl⟩
  · rw [h]; exact Or.inl ⟨rfl, _, rfl⟩
  · exact Or.inr ⟨hchanged, by rw [hlist]; rfl⟩
  · rw [h]; exact Or.inr ⟨rfl, rfl⟩

theorem markSuspect_queues (L : MembershipList) (now : ℕ) (id : String) :
    Queues (L.markSuspect now id) L id := by
  unfold markSuspect
  cases L.members.lookup id with
  | none => exact Or.inr ⟨rfl, rfl⟩
  | some e =>
    dsimp only
    split_ifs
    · exact Or.inr ⟨rfl, rfl⟩
    · exact Or.inl ⟨rfl, _, rfl⟩

theorem markDead_queues (L : MembershipList) (id : String) : Queues (L.markDead id) L id := by
  unfold markDead
  cases L.members.lookup id with
  | none => exact Or.inr ⟨rfl, rfl⟩
  | some e =>
    dsimp only
    split_ifs
    · exact Or.inr ⟨rfl, rfl⟩
    · exact Or.inl ⟨rfl, _, rfl⟩

/-- **The operations and the buffer.** All but `GetUpdatesForPiggyback` store and queue an entry for
the member they announce, or announce none and leave the buffer. -/
theorem Operation.apply_cases (L : MembershipList) (hop : ∀ m, op ≠ .getUpdatesForPiggyback m) :
    (∃ id e L₀, op.announced L = some id ∧ op.apply L = record L₀ id e ∧
      L₀.piggybackBuffer = L.piggybackBuffer) ∨
    (op.announced L = none ∧ (op.apply L).piggybackBuffer = L.piggybackBuffer) := by
  have hqueues : ∀ {o : Outcome} {id : String}, Queues o L id →
      (∃ id' e L₀, (if o.changed then some id else none) = some id' ∧ o.list = record L₀ id' e ∧
        L₀.piggybackBuffer = L.piggybackBuffer) ∨
      ((if o.changed then some id else none) = none ∧
        o.list.piggybackBuffer = L.piggybackBuffer) := by
    rintro o id (⟨hchanged, e, hlist⟩ | ⟨hchanged, hbuffer⟩)
    · exact Or.inl ⟨id, e, L, if_pos hchanged, hlist, rfl⟩
    · exact Or.inr ⟨if_neg (by rw [hchanged]; decide), hbuffer⟩
  cases op with
  | applyUpdate now u => exact hqueues (applyUpdate_queues L now u)
  | markSuspect now id => exact hqueues (markSuspect_queues L now id)
  | markDead id => exact hqueues (markDead_queues L id)
  | addMember id address =>
    unfold announced apply MembershipList.addMember getMember
    dsimp only
    cases L.members.lookup id with
    | none => exact Or.inl ⟨id, _, L, rfl, rfl, rfl⟩
    | some e => exact Or.inr ⟨rfl, rfl⟩
  | incrementMyIncarnation => exact Or.inl ⟨L.myId, _, { L with myIncarnation := _ }, rfl, rfl, rfl⟩
  | getUpdatesForPiggyback m => exact absurd rfl (hop m)

/-- The announced member has an entry, which is what is announced. -/
theorem Operation.announcement_eq (h : op.announced L = some id) :
    ∃ e, (op.apply L).getMember id = some e ∧ op.announcement L = some (e.toUpdate id) := by
  have hop : ∀ m, op ≠ .getUpdatesForPiggyback m := by
    rintro m rfl
    cases h
  rcases op.apply_cases L hop with ⟨id', e, L₀, hid, happly, -⟩ | ⟨hnone, -⟩
  · rw [h] at hid
    cases hid
    have hmember : (op.apply L).getMember id = some e := by
      rw [happly]
      exact AList.lookup_insert _
    refine ⟨e, hmember, ?_⟩
    unfold announcement
    rw [h, Option.bind_some, hmember, Option.map_some]
  · rw [h] at hnone
    cases hnone

theorem Operation.piggybackBuffer_apply (hop : ∀ m, op ≠ .getUpdatesForPiggyback m) :
    (op.apply L).piggybackBuffer.map PiggybackEntry.posted =
      (op.announcement L).elim (L.piggybackBuffer.map PiggybackEntry.posted)
        (push maxPiggybackBuffer · (L.piggybackBuffer.map PiggybackEntry.posted)) := by
  rcases op.apply_cases L hop with ⟨id, e, L₀, hid, happly, hbuffer⟩ | ⟨hnone, hbuffer⟩
  · obtain ⟨e', hmember, hannounce⟩ := announcement_eq hid
    rw [happly, getMember, record_members, AList.lookup_insert] at hmember
    cases hmember
    rw [hannounce, happly, record, posted_queueUpdate]
    show push _ _ (L₀.piggybackBuffer.map _) = _
    rw [hbuffer]
    rfl
  · unfold announcement
    rw [hnone, hbuffer]
    rfl

/-! ## The log of a run -/

/-- The buffer is the pending part of the log, and no update has been returned too often. -/
structure Logged.Exact (s : Logged) : Prop where
  keeps : Keeps maxPiggybackSends maxPiggybackBuffer s.log
    (s.list.piggybackBuffer.map PiggybackEntry.posted)
  returned_le : ∀ p ∈ s.log, p.returned ≤ maxPiggybackSends

theorem Logged.Exact.step (h : s.Exact) (hop : ∀ m, op = .getUpdatesForPiggyback m → 0 ≤ m) :
    (s.step op).Exact := by
  by_cases htake : ∃ m, op = .getUpdatesForPiggyback m
  · obtain ⟨m, rfl⟩ := htake
    have hm : ¬ m < 0 := not_lt.mpr (hop m rfl)
    refine ⟨?_, returned_le_handOut h.returned_le⟩
    show Keeps _ _ _ (((s.list.getUpdatesForPiggyback m).elim s.list Prod.snd).piggybackBuffer.map _)
    unfold getUpdatesForPiggyback
    rw [if_neg hm]
    show Keeps _ _ _ ((s.list.takeUpdates m.toNat).2.piggybackBuffer.map _)
    rw [posted_takeUpdates]
    exact h.keeps.send m.toNat
  · have hop : ∀ m, op ≠ .getUpdatesForPiggyback m := fun m hm => htake ⟨m, hm⟩
    have hlog : (s.step op).log = (op.announcement s.list).elim s.log (post · s.log) := by
      cases op with
      | getUpdatesForPiggyback m => exact absurd rfl (hop m)
      | _ => rfl
    have hbuffer := op.piggybackBuffer_apply (L := s.list) hop
    constructor
    · rw [hlog]
      show Keeps _ _ _ ((op.apply s.list).piggybackBuffer.map _)
      rw [hbuffer]
      cases op.announcement s.list with
      | none => exact h.keeps
      | some u => exact h.keeps.push (by decide) (by decide) u
    · rw [hlog]
      cases op.announcement s.list with
      | none => exact h.returned_le
      | some u =>
        intro p hp
        rcases List.mem_append.mp hp with hp | hp
        · exact h.returned_le p hp
        · rw [List.mem_singleton.mp hp]
          exact Nat.zero_le _

theorem Logged.Exact.run (h : s.Exact) (hops : ∀ m, .getUpdatesForPiggyback m ∈ ops → 0 ≤ m) :
    (s.run ops).Exact := by
  induction ops generalizing s with
  | nil => exact h
  | cons op ops ih =>
    exact ih (h.step fun m hm => hops m (hm ▸ List.mem_cons_self)) fun m hm =>
      hops m (List.mem_cons_of_mem _ hm)

theorem Logged.run_list (s : Logged) (ops : List Operation) :
    (s.run ops).list = s.list.run ops := by
  induction ops generalizing s with
  | nil => rfl
  | cons op ops ih => exact ih (s.step op)

/-- **The piggyback buffer.** After any operations on a new list, the buffer is what is pending in
the log: the updates returned less than ten times with less than fifty newer ones. A change is
announced with the new entry of its member, nothing else is, and `GetUpdatesForPiggyback` returns
the first pending updates. -/
theorem piggybackBuffer_run (myId : String) (ops : List Operation)
    (hops : ∀ m, .getUpdatesForPiggyback m ∈ ops → 0 ≤ m) :
    let s := Logged.run ⟨{ myId := myId }, []⟩ ops
    s.list = run { myId := myId } ops ∧
    s.list.piggybackBuffer.map PiggybackEntry.posted = s.pending ∧
    (∀ p ∈ s.log, p.returned ≤ maxPiggybackSends) ∧
    (∀ op id, Operation.announced s.list op = some id → ∃ e,
      (op.apply s.list).getMember id = some e ∧ (s.step op).log = post (e.toUpdate id) s.log) ∧
    (∀ op, (∀ m, op ≠ .getUpdatesForPiggyback m) → Operation.announced s.list op = none →
      (s.step op).log = s.log) ∧
    ∀ m, 0 ≤ m → s.list.getUpdatesForPiggyback m =
      some ((s.pending.take m.toNat).map Posted.item,
        Operation.apply s.list (.getUpdatesForPiggyback m)) := by
  intro s
  have hexact : s.Exact := Logged.Exact.run ⟨keeps_nil, by simp⟩ hops
  have hpending := hexact.keeps.pending_eq.symm
  refine ⟨Logged.run_list _ _, hpending, hexact.returned_le, ?_, ?_, ?_⟩
  · intro op id hid
    obtain ⟨e, hmember, hannounce⟩ := Operation.announcement_eq hid
    refine ⟨e, hmember, ?_⟩
    cases op with
    | getUpdatesForPiggyback m => cases hid
    | _ => exact congrArg (fun o => o.elim s.log (post · s.log)) hannounce
  · intro op hop hnone
    have hannounce : op.announcement s.list = none := by
      unfold Operation.announcement
      rw [hnone]
      rfl
    cases op with
    | getUpdatesForPiggyback m => exact absurd rfl (hop m)
    | _ => exact congrArg (fun o => o.elim s.log (post · s.log)) hannounce
  · intro m hm
    have htake : s.list.getUpdatesForPiggyback m = some (s.list.takeUpdates m.toNat) :=
      if_neg (not_lt.mpr hm)
    unfold Logged.pending Operation.apply
    rw [hexact.keeps.pending_eq, ← List.map_take, List.map_map]
    dsimp only
    rw [htake]
    rfl

/-- Two members, the first announced twice more than the second. -/
theorem piggybackBuffer_run_two :
    let s := Logged.run ⟨{ myId := "self" }, []⟩ [.addMember "node-1" "127.0.0.1:7001",
      .getUpdatesForPiggyback 10, .addMember "node-2" "127.0.0.1:7002", .getUpdatesForPiggyback 1,
      .getUpdatesForPiggyback 10]
    s.list.piggybackBuffer.map PiggybackEntry.posted = s.pending ∧
      s.pending.map (fun p => (p.item.memberId, p.returned)) = [("node-1", 3), ("node-2", 1)] := by
  intro s
  refine ⟨(piggybackBuffer_run "self" _ ?_).2.1, by decide +kernel⟩
  intro m hm
  simp at hm
  omega

end MembershipList

end LlmGateway.Gossip
