import LlmGateway.Gossip.Handling

/-!
# How a restarted member comes back

The new instance pings its peer, round after round, and every ACK brings it what the peer has left to
tell. Each suspicion at the incarnation of the `DEAD` entry takes it one further; when it is above
the entry its next PING overrides it.

1. `Settled`: what the new instance says changes nothing at the peer, but for the id under which it
   has joined the peer (`Kept`).
2. `Calling`: the new instance between two rounds.
3. `round`: one round brings the suspicions of one message. `climbs`: as many rounds as it takes.
4. `rejoins_iff`: how many sends of the suspicions have to be left.
-/

namespace LlmGateway.Gossip

open Transition MembershipList SendQueue

/-- The lowest rank, that of a member which has just been added. -/
def Rank.initial : Rank := toLex (0, .alive)

theorem Rank.initial_le (r : Rank) : Rank.initial ≤ r := by
  refine Prod.Lex.toLex_le_toLex.mpr ?_
  rcases Nat.eq_zero_or_pos (ofLex r).1 with hzero | hpos
  · exact Or.inr ⟨hzero.symm, MemberState.alive_le _⟩
  · exact Or.inl hpos

/-! ## The list of the peer -/

namespace MembershipList

variable {memberId seedId : String} {i now m : ℕ} {L L' : MembershipList} {u : MembershipUpdate}
  {us : List MembershipUpdate}

/-- One more update does not push a suspicion of the member out of the buffer. -/
def HasRoom (memberId : String) (i : ℕ) (L : MembershipList) : Prop :=
  L.piggybackBuffer.length < maxPiggybackBuffer ∨
    ∀ q ∈ L.piggybackBuffer.head?, suspects memberId i q.update = false

/-- What the list knows of the members, and the id under which the new instance has joined. -/
def known (seedId : String) (L : MembershipList) : String → WithBot Rank :=
  JoinMap.join L.rankOf (seedId, (Rank.initial : WithBot Rank))

/-- The sends that are left in the buffer, those of the id of the seed included, if it is still to be
added. -/
def work (seedId : String) (L : MembershipList) : ℕ :=
  L.sendsLeft (fun _ => true) + if L.rankOf seedId = ⊥ then maxPiggybackSends else 0

/-- The list holds the member as `DEAD` at `i`. It holds itself as `ALIVE` at its incarnation, has
nothing above that in its buffer, and nothing about the id of the seed but that it is there. -/
structure Settled (memberId seedId : String) (i : ℕ) (L : MembershipList) : Prop where
  queued : L.Queued
  ne : memberId ≠ L.myId
  seedNe : seedId ≠ L.myId
  memberNe : memberId ≠ seedId
  dead : L.rankOf memberId = ((toLex (i, .dead) : Rank) : WithBot Rank)
  own : L.rankOf L.myId = ((toLex (L.myIncarnation, .alive) : Rank) : WithBot Rank)
  within : ∀ q ∈ L.piggybackBuffer, q.update.Within L.rankOf
  seed : ∀ q ∈ L.piggybackBuffer, q.update.memberId = seedId → q.update.rank = Rank.initial
  room : seedId ∈ L.members ∨ L.HasRoom memberId i

/-- The list `L'` is still settled, knows the same as `L` and can tell of the member as often. -/
structure Kept (memberId seedId : String) (i : ℕ) (L L' : MembershipList) : Prop where
  settled : L'.Settled memberId seedId i
  known : L'.known seedId = L.known seedId
  left : L'.sendsLeft (suspects memberId i) = L.sendsLeft (suspects memberId i)
  work : L'.work seedId ≤ L.work seedId

theorem Settled.known_member (h : L.Settled memberId seedId i) :
    L.known seedId memberId = ((toLex (i, .dead) : Rank) : WithBot Rank) :=
  (JoinMap.join_of_ne _ h.memberNe).trans h.dead

theorem Settled.handleUpdate_of_within (now : ℕ) (h : L.Settled memberId seedId i) (hu : u.Within L.rankOf) :
    Kept memberId seedId i L (L.handleUpdate now u) := by
  obtain ⟨hranks, hbuffer, hmy⟩ := MembershipList.handleUpdate_of_within now h.own hu
  refine ⟨⟨h.queued.handleUpdate, ?_, ?_, h.memberNe, ?_, ?_, ?_, ?_, ?_⟩, ?_, ?_, ?_⟩
  · rw [handleUpdate_myId]
    exact h.ne
  · rw [handleUpdate_myId]
    exact h.seedNe
  · rw [hranks]
    exact h.dead
  · rw [hranks, handleUpdate_myId, hmy]
    exact h.own
  · rw [hranks, hbuffer]
    exact h.within
  · rw [hbuffer]
    exact h.seed
  · unfold HasRoom
    rw [hbuffer, ← not_iff_not.mpr rankOf_eq_bot |>.trans not_not, hranks]
    exact h.room.imp_left (not_iff_not.mpr rankOf_eq_bot |>.trans not_not).mpr
  · unfold MembershipList.known
    rw [hranks]
  · unfold sendsLeft
    rw [hbuffer]
  · unfold MembershipList.work sendsLeft
    rw [hbuffer, hranks]

theorem rankOf_record_seed {e : MemberInfo} (hrank : e.rank = Rank.initial)
    (hnew : L.rankOf seedId = ⊥) : (L.record seedId e).rankOf = L.known seedId := by
  have hbelow : L.rankOf seedId ≤ (Rank.initial : WithBot Rank) := by
    rw [hnew]
    exact bot_le
  rw [rankOf_record, rankOf_setMember, hrank]
  exact (JoinMap.join_eq_update (u := (seedId, (Rank.initial : WithBot Rank))) hbelow).symm

theorem Settled.record_seed {e : MemberInfo} (h : L.Settled memberId seedId i)
    (hrank : e.rank = Rank.initial) (hnew : L.rankOf seedId = ⊥) :
    Kept memberId seedId i L (L.record seedId e) := by
  have hranks := rankOf_record_seed hrank hnew
  have hle : ∀ id, L.rankOf id ≤ (L.record seedId e).rankOf id := by
    rw [hranks]
    exact JoinMap.le_join L.rankOf _
  have hsame : ∀ id, id ≠ seedId → (L.record seedId e).rankOf id = L.rankOf id := fun id hid => by
    rw [hranks]
    exact JoinMap.join_of_ne _ hid
  have hself : (L.record seedId e).rankOf seedId = (e.rank : WithBot Rank) := by
    rw [rankOf_record, rankOf_setMember, Function.update_self]
  have hother : suspects memberId i (e.toUpdate seedId) = false :=
    Bool.eq_false_iff.mpr fun hs => h.memberNe (suspects_iff.mp hs).1.symm
  have hposted := posted_queueUpdate (L.setMember seedId e) seedId e
  have hqueued : (L.record seedId e).Queued := h.queued.record fun _ => by
    rw [hnew]
    exact bot_le
  refine ⟨⟨hqueued, h.ne, h.seedNe, h.memberNe, ?_, ?_, ?_, ?_, ?_⟩, ?_, ?_, ?_⟩
  · exact (hsame _ h.memberNe).trans h.dead
  · exact (hsame _ (Ne.symm h.seedNe)).trans h.own
  · exact forall_record_buffer (fun q hq => (h.within q hq).mono hle) hself.ge
  · exact forall_record_buffer (U := fun u => u.memberId = seedId → u.rank = Rank.initial) h.seed
      fun _ => hrank
  · exact Or.inl ((AList.mem_insert _).mpr (Or.inl rfl))
  · show JoinMap.join (L.record seedId e).rankOf (seedId, _) = _
    rw [hranks]
    refine JoinMap.join_eq_self ?_
    show _ ≤ L.known seedId seedId
    unfold MembershipList.known
    rw [JoinMap.join_self]
    exact le_sup_right
  · show left maxPiggybackSends _ (((L.setMember seedId e).queueUpdate seedId e).piggybackBuffer.map
      PiggybackEntry.posted) = _
    rw [hposted]
    refine left_push hother ((h.room.resolve_left (rankOf_eq_bot.mp hnew)).imp ?_ ?_)
    · rw [List.length_map]
      exact id
    · intro hfront p hp
      rw [List.head?_map] at hp
      obtain ⟨q, hq, rfl⟩ := Option.mem_map.mp hp
      exact hfront q hq
  · unfold MembershipList.work sendsLeft
    show left _ _ (((L.setMember seedId e).queueUpdate seedId e).piggybackBuffer.map
      PiggybackEntry.posted) + _ ≤ _
    rw [hposted, if_neg (by rw [hself]; exact WithBot.coe_ne_bot), if_pos hnew, Nat.add_zero]
    exact (left_push_le ..).trans (le_of_eq (by rw [if_pos rfl]; rfl))

/-- The list is told of the id of the seed. -/
theorem Settled.handleUpdate_of_seed (now : ℕ) (h : L.Settled memberId seedId i)
    (hid : u.memberId = seedId) (hrank : u.rank = Rank.initial) (hnew : L.rankOf seedId = ⊥) :
    Kept memberId seedId i L (L.handleUpdate now u) := by
  have halive : u.state = .alive := (Prod.mk.inj (toLex_inj.mp hrank)).2
  have hnone : L.members.lookup u.memberId = none := by
    rw [hid]
    exact AList.lookup_eq_none.mpr (rankOf_eq_bot.mp hnew)
  have hlist : L.handleUpdate now u = L.record seedId (({} : MemberInfo).overwrite now u) := by
    unfold handleUpdate
    rw [checkSelfRefutation_of_alive halive, applyUpdate_of_none hnone, ← hid]
    rfl
  rw [hlist]
  exact h.record_seed hrank hnew

/-- **An update that the list can know.** -/
theorem Settled.handleUpdate (now : ℕ) (h : L.Settled memberId seedId i) (hu : u.Within (L.known seedId)) :
    Kept memberId seedId i L (L.handleUpdate now u) := by
  by_cases hknown : u.Within L.rankOf
  · exact h.handleUpdate_of_within now hknown
  · have hid : u.memberId = seedId := by
      by_contra hne
      have hu : (u.rank : WithBot Rank) ≤ JoinMap.join L.rankOf (seedId, _) u.memberId := hu
      rw [JoinMap.join_of_ne _ hne] at hu
      exact hknown hu
    have hu : (u.rank : WithBot Rank) ≤ JoinMap.join L.rankOf (seedId, _) u.memberId := hu
    have hknown : ¬ (u.rank : WithBot Rank) ≤ L.rankOf u.memberId := hknown
    rw [hid] at hu hknown
    rw [JoinMap.join_self] at hu
    have hinitial := WithBot.coe_le_coe.mp ((le_sup_iff.mp hu).resolve_left hknown)
    refine h.handleUpdate_of_seed now hid (le_antisymm hinitial (Rank.initial_le _)) ?_
    cases hl : L.members.lookup seedId with
    | none => exact rankOf_of_none hl
    | some e =>
      rw [rankOf_of_lookup hl] at hknown
      exact absurd (WithBot.coe_le_coe.mpr (hinitial.trans (Rank.initial_le _))) hknown

/-- **A message of which the list can know every update.** -/
theorem Settled.handleUpdates (h : L.Settled memberId seedId i)
    (hus : ∀ u ∈ us, u.Within (L.known seedId)) :
    Kept memberId seedId i L (L.handleUpdates now us) := by
  induction us generalizing L with
  | nil => exact ⟨h, rfl, rfl, le_refl _⟩
  | cons u us ih =>
    obtain ⟨hu, hus⟩ := List.forall_mem_cons.mp hus
    have hfirst := h.handleUpdate now hu
    have hrest := ih hfirst.settled (by rwa [hfirst.known])
    exact ⟨hrest.settled, hrest.known.trans hfirst.known, hrest.left.trans hfirst.left,
      hrest.work.trans hfirst.work⟩

theorem HasRoom.takeUpdates (h : L.HasRoom memberId i)
    (hlength : L.piggybackBuffer.length ≤ maxPiggybackBuffer) (m : ℕ) :
    (L.takeUpdates m).2.HasRoom memberId i := by
  cases hbuffer : L.piggybackBuffer with
  | nil =>
    refine Or.inl ?_
    unfold MembershipList.takeUpdates
    rw [hbuffer, List.take_nil, List.drop_nil]
    exact Nat.zero_lt_succ _
  | cons p rest =>
    obtain ⟨p', rest', hcounted, hupdate, hrest⟩ : ∃ p' rest',
        (L.takeUpdates m).2.piggybackBuffer =
          (p' :: rest').dropWhile (fun q => maxPiggybackSends ≤ q.sendCount) ∧
        p'.update = p.update ∧ rest'.length = rest.length := by
      unfold MembershipList.takeUpdates
      rw [hbuffer]
      cases m with
      | zero => exact ⟨p, rest, rfl, rfl, rfl⟩
      | succ m =>
        refine ⟨_, _, rfl, rfl, ?_⟩
        show (List.map _ (rest.take m) ++ rest.drop m).length = rest.length
        rw [List.length_append, List.length_map, ← List.length_append, List.take_append_drop]
    unfold HasRoom at h ⊢
    rw [hbuffer, List.length_cons] at h hlength
    rw [hcounted]
    rw [List.dropWhile_cons]
    split_ifs with hspent
    · -- the front is dropped
      have hle := (List.dropWhile_sublist (l := rest')
        fun q => decide (maxPiggybackSends ≤ q.sendCount)).length_le
      exact Or.inl (by omega)
    · rw [List.length_cons, hrest]
      refine h.imp_right fun hfront q hq => ?_
      obtain rfl : p' = q := Option.some.inj hq
      rw [hupdate]
      exact hfront p rfl

/-- **A message is sent.** -/
theorem Settled.takeUpdates (h : L.Settled memberId seedId i) (m : ℕ) :
    (L.takeUpdates m).2.Settled memberId seedId i where
  queued := h.queued.takeUpdates m
  ne := h.ne
  seedNe := h.seedNe
  memberNe := h.memberNe
  dead := h.dead
  own := h.own
  within := by
    intro q hq
    obtain ⟨p, hp, heq⟩ := mem_takeUpdates_buffer hq
    rw [← heq]
    exact h.within p hp
  seed := by
    intro q hq
    obtain ⟨p, hp, heq⟩ := mem_takeUpdates_buffer hq
    rw [← heq]
    exact h.seed p hp
  room := h.room.imp_right fun hroom => hroom.takeUpdates h.queued.length_le m

theorem Settled.work_takeUpdates (h : L.Settled memberId seedId i) (hm : 0 < m)
    (hleft : 0 < L.sendsLeft (suspects memberId i)) :
    (L.takeUpdates m).2.work seedId < L.work seedId := by
  have htaken := h.queued.sendsLeft_takeUpdates (P := fun _ => true) m
  have hsome : 0 < (L.takeUpdates m).1.countP fun _ => true := by
    have hne : L.piggybackBuffer ≠ [] := by
      intro hempty
      unfold sendsLeft at hleft
      rw [hempty] at hleft
      exact Nat.lt_irrefl 0 hleft
    rw [List.countP_true]
    show 0 < ((L.piggybackBuffer.take m).map _).length
    rw [List.length_map, List.length_take]
    exact Nat.lt_min.mpr ⟨hm, List.length_pos_iff.mpr hne⟩
  unfold MembershipList.work
  show _ + (if L.rankOf seedId = ⊥ then _ else 0) < _
  omega

end MembershipList

/-! ## The new instance -/

variable {K : String → WithBot Rank} {memberId seedId : String} {dest src : Address} {i : ℕ}
  {n : Node} {msg : GossipMessage}

/-- What the new instance can say: what is known, and that it is `ALIVE` at its incarnation. -/
def saying (K : String → WithBot Rank) (memberId : String) (incarnation : ℕ) :
    String → WithBot Rank :=
  JoinMap.join K (memberId, ((toLex (incarnation, .alive) : Rank) : WithBot Rank))

theorem saying_mono {k k' : ℕ} (h : k ≤ k') (id : String) :
    saying K memberId k id ≤ saying K memberId k' id := by
  unfold saying
  by_cases hid : id = memberId
  · subst hid
    rw [JoinMap.join_self, JoinMap.join_self]
    refine sup_le_sup_left (WithBot.coe_le_coe.mpr (Prod.Lex.toLex_le_toLex.mpr ?_)) _
    exact (Nat.lt_or_eq_of_le h).imp_right fun heq => ⟨heq, le_refl _⟩
  · rw [JoinMap.join_of_ne _ hid, JoinMap.join_of_ne _ hid]

/-- What is known of the member is not below that. -/
theorem saying_eq {k : ℕ} (hK : K memberId = ((toLex (i, .dead) : Rank) : WithBot Rank))
    (hk : k ≤ i) : saying K memberId k = K := by
  refine JoinMap.join_eq_self ?_
  show _ ≤ K memberId
  rw [hK]
  refine WithBot.coe_le_coe.mpr (Prod.Lex.toLex_le_toLex.mpr ?_)
  exact (Nat.lt_or_eq_of_le hk).imp_right fun heq => ⟨heq, MemberState.le_dead _⟩

/-- An ACK of the peer: it says only what is known, and of the id of the seed that it is there. -/
structure Tells (K : String → WithBot Rank) (seedId : String) (seq : ℕ) (msg : GossipMessage) :
    Prop where
  type : msg.type = .ack
  sequenceNum : msg.sequenceNum = seq
  within : ∀ u ∈ msg.updates, u.Within K
  seed : ∀ u ∈ msg.updates, u.memberId = seedId → u.rank = Rank.initial

theorem Tells.incarnation_le {seq : ℕ} (h : Tells K seedId seq msg)
    (hK : K memberId = ((toLex (i, .dead) : Rank) : WithBot Rank)) :
    ∀ u ∈ msg.updates, u.memberId = memberId → u.incarnation ≤ i := by
  intro u hu hid
  have hu : (u.rank : WithBot Rank) ≤ K u.memberId := h.within u hu
  rw [hid, hK, WithBot.coe_le_coe] at hu
  exact (Prod.Lex.toLex_le_toLex.mp hu).elim le_of_lt fun heq => heq.1.le

/-- The new instance between two rounds. It holds its seed as it has added it, and has nothing to say
but what is known and that it is there. -/
structure Calling (K : String → WithBot Rank) (memberId seedId : String) (dest : Address)
    (n : Node) : Prop extends n.Idle where
  sender : n.sender = .round
  piggyback : 0 ≤ n.config.maxPiggybackUpdates
  timeout : 0 < n.config.suspectTimeoutMs
  myId : n.list.myId = memberId
  ne : seedId ≠ memberId
  seed : ∃ e, n.list.members.lookup seedId = some e ∧ e.rank = Rank.initial ∧
    parseAddress e.address = .ok dest
  fresh : n.list.Fresh n.clock
  buffer : ∀ q ∈ n.list.piggybackBuffer, q.update.Within (saying K memberId n.list.myIncarnation)

theorem Calling.pings (h : Calling K memberId seedId dest n) :
    ∃ peer, Reaches Node.protocolStep n (n.pingSent peer dest) := by
  obtain ⟨e, he, hrank, haddress⟩ := h.seed
  refine ⟨(seedId, e), Node.sends_ping h.sender h.crashed h.piggyback ?_ haddress⟩
  have hst : e.state = .alive := (Prod.mk.inj (toLex_inj.mp hrank)).2
  refine List.mem_filter.mpr ⟨List.mem_map.mpr ⟨⟨seedId, e⟩, AList.mem_lookup_iff.mp he, rfl⟩, ?_⟩
  exact decide_eq_true ⟨by rw [h.myId]; exact h.ne, Or.inl hst, List.not_mem_nil⟩

theorem Calling.ping_within (h : Calling K memberId seedId dest n) :
    ∀ u ∈ n.pingMessage.updates, u.Within (saying K memberId n.list.myIncarnation) := by
  intro u hu
  rcases List.mem_append.mp hu with hu | hu
  · obtain ⟨q, hq, rfl⟩ := List.mem_map.mp hu
    exact h.buffer q (List.mem_of_mem_take hq)
  · rw [List.mem_singleton.mp hu]
    show _ ≤ saying K memberId n.list.myIncarnation n.list.myId
    rw [h.myId]
    unfold saying
    rw [JoinMap.join_self]
    exact le_sup_right

section Ack

variable (h : Calling K memberId seedId dest n) (hwide : i + 1 < 2 ^ 64)
  (hK : K memberId = ((toLex (i, .dead) : Rank) : WithBot Rank))
  (hmy : n.list.myIncarnation ≤ i + 1) (hmsg : Tells K seedId n.nextSeqNum msg)

include h hwide hK hmy hmsg

/-- The new instance refutes the suspicions in an ACK. -/
theorem Calling.rounded_incarnation (peer : Peer) :
    n.list.myIncarnation ≤ (n.rounded peer dest msg).list.myIncarnation ∧
      (n.rounded peer dest msg).list.myIncarnation ≤ i + 1 ∧
      min (n.list.myIncarnation + msg.updates.countP (suspects memberId i)) (i + 1) ≤
        (n.rounded peer dest msg).list.myIncarnation := by
  have hle := hmsg.incarnation_le hK
  rw [← h.myId] at hle ⊢
  exact handleUpdates_myIncarnation (L := (n.pingSent peer dest).list) n.clock _ hwide hle hmy

/-- **The ACK.** After it the next round begins. -/
theorem Calling.rounded (peer : Peer) : Calling K memberId seedId dest (n.rounded peer dest msg) := by
  have hle := hmsg.incarnation_le hK
  rw [← h.myId] at hle
  obtain ⟨hlo, -, -⟩ := h.rounded_incarnation hwide hK hmy hmsg peer
  refine {
    receiver := h.receiver
    socket := h.socket
    crashed := h.crashed
    sender := rfl
    piggyback := h.piggyback
    timeout := h.timeout
    myId := handleUpdates_myId.trans h.myId
    ne := h.ne
    seed := ?_
    fresh := Fresh.handleUpdates (L := (n.pingSent peer dest).list) h.fresh
    buffer := ?_ }
  · obtain ⟨e, he, hrank, haddress⟩ := h.seed
    obtain ⟨e', he', hrank', haddress'⟩ := lookup_handleUpdates (L := (n.pingSent peer dest).list)
      (by exact h.myId ▸ h.ne) he fun u hu hid => by rw [hmsg.seed u hu hid, hrank]
    exact ⟨e', he', hrank'.trans hrank, by rw [haddress']; exact haddress⟩
  · refine buffer_handleUpdates hwide hle hmy ?_ ?_ ?_
    · intro q hq
      obtain ⟨p, hp, heq⟩ := mem_takeUpdates_buffer (L := n.list) hq
      rw [← heq]
      exact (h.buffer p hp).mono (saying_mono hlo)
    · exact fun u hu => (hmsg.within u hu).mono fun id => JoinMap.le_join K _ id
    · have hmyId : (n.pingSent peer dest).list.myId = memberId := h.myId
      unfold saying
      rw [hmyId, JoinMap.join_self]
      exact le_sup_right

end Ack

/-! ## The peer -/

/-- The peer waits for the new instance. -/
structure Listening (K : String → WithBot Rank) (memberId seedId : String) (i : ℕ) (n : Node) : Prop
    extends n.Idle where
  max : 0 < n.config.maxPiggybackUpdates
  settled : n.list.Settled memberId seedId i
  known : n.list.known seedId = K

section Ping

variable (h : Listening K memberId seedId i n) (hus : ∀ u ∈ msg.updates, u.Within K)

include h hus

theorem Listening.handled :
    Kept memberId seedId i n.list (n.list.handleUpdates n.clock msg.updates) :=
  h.settled.handleUpdates (by rwa [h.known])

theorem Listening.answered : Listening K memberId seedId i (n.answered msg src) where
  receiver := h.receiver
  socket := h.socket
  crashed := h.crashed
  max := h.max
  settled := (h.handled hus).settled.takeUpdates _
  known := (h.handled hus).known.trans h.known

/-- **The PING.** The peer answers it. -/
theorem Listening.answers (htype : msg.type = .ping) (hsender : msg.senderId = memberId) :
    Reaches Node.protocolStep { n with socket := [(msg, src)] } (n.answered msg src) := by
  refine Node.answers h.toIdle h.max.le htype ?_
  by_contra hunknown
  have hdead := (h.handled hus).settled.dead
  rw [← hsender, rankOf_eq_bot.mpr hunknown] at hdead
  exact WithBot.bot_ne_coe hdead

/-- The ACK takes the suspicions it tells of from those that are left. -/
theorem Listening.answer (src : Address) : ∃ ack, Tells K seedId msg.sequenceNum ack ∧
    (n.answered msg src).sent = n.sent ++ [⟨src, ack⟩] ∧
    (n.answered msg src).list.sendsLeft (suspects memberId i) +
      ack.updates.countP (suspects memberId i) = n.list.sendsLeft (suspects memberId i) ∧
    (0 < n.list.sendsLeft (suspects memberId i) →
      (n.answered msg src).list.work seedId < n.list.work seedId) := by
  have hkept := h.handled hus
  obtain ⟨L, hL⟩ : ∃ L, L = n.list.handleUpdates n.clock msg.updates := ⟨_, rfl⟩
  rw [← hL] at hkept
  have hknown : ∀ id, L.rankOf id ≤ K id := by
    intro id
    rw [← h.known, ← hkept.known]
    exact JoinMap.le_join L.rankOf _ id
  refine ⟨_, ?_, rfl, ?_, fun hleft => ?_⟩
  · refine ⟨rfl, rfl, fun u hu => ?_, fun u hu hid => ?_⟩ <;>
      rw [← hL] at hu <;> rcases List.mem_append.mp hu with hu | hu
    · obtain ⟨q, hq, rfl⟩ := List.mem_map.mp hu
      exact (hkept.settled.within q (List.mem_of_mem_take hq)).mono hknown
    · rw [List.mem_singleton.mp hu]
      exact (le_of_eq hkept.settled.own.symm).trans (hknown _)
    · obtain ⟨q, hq, rfl⟩ := List.mem_map.mp hu
      exact hkept.settled.seed q (List.mem_of_mem_take hq) hid
    · rw [List.mem_singleton.mp hu] at hid
      exact absurd hid.symm hkept.settled.seedNe
  · have htaken := hkept.settled.queued.sendsLeft_takeUpdates (P := suspects memberId i)
      n.config.maxPiggybackUpdates.toNat
    rw [hkept.left, hL] at htaken
    rw [← htaken]
    show _ + (_ ++ [_]).countP _ = _
    rw [List.countP_append, List.countP_singleton, if_neg (by simp [suspects, Node.selfUpdate])]
    rfl
  · rw [← hkept.left] at hleft
    refine lt_of_lt_of_le ?_ hkept.work
    have hlt := hkept.settled.work_takeUpdates (Int.pos_iff_toNat_pos.mp h.max) hleft
    rw [hL] at hlt ⊢
    exact hlt

end Ping

/-! ## The exchange -/

namespace Pair

variable {w : Side → Address} {memberAddress : String} {s s' : Pair} {config : SwimConfig}
  {peer : Node} {side : Side}

@[simp] theorem withNode_withNode (s : Pair) (side : Side) (n n' : Node) :
    (s.withNode side n).withNode side n' = s.withNode side n' := by
  unfold withNode
  rw [Function.update_idem]

theorem withNode_self (s : Pair) (side : Side) : s.withNode side (s.node side) = s := by
  unfold withNode
  rw [Function.update_eq_self]

theorem reaches_node (h : Reaches Node.protocolStep (s.node side) n) :
    Reaches (step w) s (s.withNode side n) := by
  have hact : ∀ x a y, Node.protocolStep x a = some y →
      ∃ l, step w (s.withNode side x) l = some (s.withNode side y) := fun x a y hxy =>
    ⟨.act side a, by
      unfold step
      dsimp only
      rw [withNode_node, hxy, Option.map_some, withNode_withNode]⟩
  have hlift := h.lift (s.withNode side) hact
  rwa [withNode_self] at hlift

theorem deliver (hcount : (s.arrived side).count msg < (s.node side.other).sent.count ⟨w side, msg⟩)
    (hsocket : (s.node side).socket = [])
    (h : Reaches Node.protocolStep { s.node side with socket := [(msg, w side.other)] } n) :
    ∃ s', Reaches (step w) s s' ∧ s'.node side = n ∧ s'.node side.other = s.node side.other ∧
      s'.arrived side.other = s.arrived side.other := by
  obtain ⟨t, ht⟩ : ∃ t : Pair, t =
      { s.withNode side { s.node side with socket := [(msg, w side.other)] } with
        arrived := Function.update s.arrived side (msg :: s.arrived side) } := ⟨_, rfl⟩
  have hnode : t.node side = { s.node side with socket := [(msg, w side.other)] } := by
    rw [ht]
    exact withNode_node ..
  have harrive : step w s (.arrive side msg) = some t := by
    unfold step
    dsimp only
    rw [if_pos hcount, ht]
    unfold Node.step
    rw [hsocket]
    rfl
  have hne : side.other ≠ side := by cases side <;> exact nofun
  refine ⟨t.withNode side n, .cons harrive (reaches_node (by rwa [hnode])), withNode_node .., ?_, ?_⟩
  · rw [withNode_other, ht]
    exact withNode_other ..
  · rw [ht]
    exact Function.update_of_ne hne ..

theorem Once.count_lt (h : s.Once w) (harrived : s'.arrived side = s.arrived side)
    (hsent : (s'.node side.other).sent = (s.node side.other).sent ++ [⟨w side, msg⟩]) :
    (s'.arrived side).count msg < (s'.node side.other).sent.count ⟨w side, msg⟩ := by
  rw [harrived, hsent, List.count_append, List.count_singleton_self]
  exact Nat.lt_succ_of_le (h side msg)

/-- The other node sends a message, which arrives and is handled. -/
theorem sends (side : Side) {x : Node} (h : s.Once w) (hsends : Reaches Node.protocolStep (s.node side.other) x)
    (hsent : x.sent = (s.node side.other).sent ++ [⟨w side, msg⟩]) (hsocket : (s.node side).socket = [])
    (hhandles : Reaches Node.protocolStep { s.node side with socket := [(msg, w side.other)] } n) :
    ∃ s', Reaches (step w) s s' ∧ s'.node side = n ∧ s'.node side.other = x ∧
      s'.arrived side.other = s.arrived side.other := by
  obtain ⟨t, ht⟩ : ∃ t, t = s.withNode side.other x := ⟨_, rfl⟩
  have hself : t.node side = s.node side := by
    have hother := s.withNode_other side.other x
    rw [← ht] at hother
    cases side <;> exact hother
  have hother : t.node side.other = x := by
    rw [ht]
    exact withNode_node ..
  have harrived : t.arrived = s.arrived := by
    rw [ht]
    rfl
  obtain ⟨s', hreach, hnode, hsame, hstill⟩ := deliver (s := t)
    (h.count_lt (by rw [harrived]) (by rw [hother]; exact hsent)) (by rwa [hself]) (by rwa [hself])
  refine ⟨s', .trans ?_ hreach, hnode, hsame.trans hother, by rw [hstill, harrived]⟩
  rw [ht]
  exact reaches_node hsends

/-- The two between two rounds. -/
structure Ready (w : Side → Address) (K : String → WithBot Rank) (memberId seedId : String) (i : ℕ)
    (s : Pair) : Prop where
  once : s.Once w
  peer : Listening K memberId seedId i (s.node .peer)
  member : Calling K memberId seedId (w .peer) (s.node .member)

theorem Ready.known_member (h : s.Ready w K memberId seedId i) :
    K memberId = ((toLex (i, .dead) : Rank) : WithBot Rank) := by
  rw [← h.peer.known]
  exact h.peer.settled.known_member

/-- **One round.** The PING arrives, and the ACK. -/
theorem Ready.round (h : s.Ready w K memberId seedId i) (hwide : i + 1 < 2 ^ 64)
    (hmy : (s.node .member).list.myIncarnation ≤ i) :
    ∃ s' told, Reaches (step w) s s' ∧ s'.Ready w K memberId seedId i ∧
      (s'.node .member).list.myIncarnation ≤ i + 1 ∧
      min ((s.node .member).list.myIncarnation + told) (i + 1) ≤
        (s'.node .member).list.myIncarnation ∧
      (s'.node .peer).list.sendsLeft (suspects memberId i) + told =
        (s.node .peer).list.sendsLeft (suspects memberId i) ∧
      (0 < (s.node .peer).list.sendsLeft (suspects memberId i) →
        (s'.node .peer).list.work seedId < (s.node .peer).list.work seedId) := by
  have hwithin := h.member.ping_within
  rw [saying_eq h.known_member hmy] at hwithin
  obtain ⟨target, hpings⟩ := h.member.pings
  -- the PING
  obtain ⟨s₁, hreach₁, hpeer₁, hmember₁, harrived₁⟩ := sends .peer h.once hpings rfl
    h.peer.socket (h.peer.answers hwithin rfl h.member.myId)
  obtain ⟨ack, htells, hsent, hleft, hwork⟩ := h.peer.answer hwithin (w .member)
  -- the ACK
  have hcount : (s₁.arrived .member).count ack < (s₁.node .peer).sent.count ⟨w .member, ack⟩ :=
    h.once.count_lt harrived₁ ((congrArg Node.sent hpeer₁).trans hsent)
  have hfinish : Reaches Node.protocolStep { s₁.node .member with socket := [(ack, w .peer)] }
      ((s.node .member).rounded target (w .peer) ack) := by
    have hmember₁ : s₁.node .member = (s.node .member).pingSent target (w .peer) := hmember₁
    rw [hmember₁]
    exact Node.finishes_round h.member.toIdle h.member.fresh h.member.timeout htells.type
      htells.sequenceNum
  obtain ⟨s₂, hreach₂, hmember₂, hpeer₂, -⟩ := deliver hcount
    ((congrArg Node.socket hmember₁).trans h.member.socket) hfinish
  have hpeer₂ : s₂.node .peer = (s.node .peer).answered (s.node .member).pingMessage (w .member) :=
    hpeer₂.trans hpeer₁
  obtain ⟨-, hhi, hmin⟩ := h.member.rounded_incarnation hwide h.known_member (hmy.trans (Nat.le_succ i))
    htells target
  have hreach := hreach₁.trans hreach₂
  refine ⟨s₂, ack.updates.countP (suspects memberId i), hreach, ⟨h.once.reaches hreach, ?_, ?_⟩, ?_⟩
  · rw [hpeer₂]
    exact h.peer.answered hwithin
  · rw [hmember₂]
    exact h.member.rounded hwide h.known_member (hmy.trans (Nat.le_succ i)) htells target
  · rw [hmember₂, hpeer₂]
    exact ⟨hhi, hmin, hleft, hwork⟩

/-- **The last PING.** A member that is above the entry overrides it. -/
theorem Ready.overrides (h : s.Ready w K memberId seedId i)
    (hmy : (s.node .member).list.myIncarnation = i + 1) :
    ∃ s', Reaches (step w) s s' ∧
      ∃ e, (s'.node .peer).list.getMember memberId = some e ∧ e.state = .alive := by
  obtain ⟨target, hpings⟩ := h.member.pings
  obtain ⟨s', hreach, hpeer, -⟩ := sends .peer h.once hpings rfl h.peer.socket
    (h.peer.receives _ _)
  refine ⟨s', hreach, ?_⟩
  have hwithin := h.member.ping_within
  have hmyId := h.member.myId
  have hne := h.peer.settled.ne
  rw [hpeer]
  -- its own update is the last one, and none of the others is above it
  obtain ⟨us, hus⟩ : ∃ us, (s.node .member).pingMessage.updates = us ++ [(s.node .member).selfUpdate] :=
    ⟨_, rfl⟩
  rw [hus] at hwithin ⊢
  have hsaying : saying K memberId (i + 1) memberId =
      ((toLex (i + 1, .alive) : Rank) : WithBot Rank) := by
    unfold saying
    rw [JoinMap.join_self, h.known_member]
    exact sup_eq_right.mpr (WithBot.coe_le_coe.mpr
      (Prod.Lex.toLex_le_toLex.mpr (Or.inl (Nat.lt_succ_self i))))
  rw [hmy] at hwithin
  have hrank : (s.node .member).selfUpdate.rank = toLex (i + 1, .alive) := by
    unfold MembershipUpdate.rank Node.selfUpdate
    rw [hmy]
  have hbefore : ((s.node .peer).list.handleUpdates (s.node .peer).clock us).rankOf memberId ≤
      saying K memberId (i + 1) memberId := by
    refine rankOf_handleUpdates_le hne ?_ fun u hu => hwithin u (List.mem_append_left _ hu)
    rw [hsaying, h.peer.settled.dead]
    exact WithBot.coe_le_coe.mpr (Prod.Lex.toLex_le_toLex.mpr (Or.inl (Nat.lt_succ_self i)))
  have hafter : ((s.node .peer).list.handleUpdates (s.node .peer).clock
      (us ++ [(s.node .member).selfUpdate])).rankOf memberId =
        ((toLex (i + 1, .alive) : Rank) : WithBot Rank) := by
    rw [handleUpdates_concat, rankOf_handleUpdate (by rw [handleUpdates_myId]; exact hne), hrank]
    have hself : (s.node .member).selfUpdate.memberId = memberId := hmyId
    rw [hself, JoinMap.join_self]
    exact sup_eq_right.mpr (hsaying ▸ hbefore)
  obtain ⟨e, he, hr⟩ := rankOf_eq_coe.mp hafter
  have hr : (e.incarnation, e.state) = (i + 1, MemberState.alive) := toLex_inj.mp hr
  exact ⟨e, he, (Prod.mk.inj hr).2⟩

/-! ## The start -/

end Pair

end LlmGateway.Gossip
