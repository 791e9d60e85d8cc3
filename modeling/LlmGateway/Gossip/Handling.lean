import LlmGateway.Gossip.Suspicions
import LlmGateway.Gossip.Rejoin
import LlmGateway.Gossip.UsableAddress

/-!
# Whole messages

What the two threads of a node do in one stretch when nothing else happens: the receiver handles a
PING or an ACK, the sender pings a peer, finds its ACK and goes on to the next round.

1. `handleUpdates`: what all the updates of a message do to the list. Updates that say no more than
   the list knows leave it as it is (`handleUpdate_of_within`), and a node refutes each suspicion that
   is not below it (`handleUpdates_myIncarnation`).
2. `answers`, `takes_ack`: the receiver thread.
3. `sends_ping`, `finishes_round`: the sender thread, from one round to the next.
-/

namespace LlmGateway.Gossip

open Transition

/-- The update says no more than `K`. -/
def MembershipUpdate.Within (K : String → WithBot Rank) (u : MembershipUpdate) : Prop :=
  (u.rank : WithBot Rank) ≤ K u.memberId

theorem MembershipUpdate.Within.mono {K K' : String → WithBot Rank} {u : MembershipUpdate}
    (h : u.Within K) (hK : ∀ id, K id ≤ K' id) : u.Within K' := h.trans (hK _)

namespace MembershipList

/-- The loop of `ProcessPiggybackedUpdates`. -/
def handleUpdates (L : MembershipList) (now : ℕ) (us : List MembershipUpdate) : MembershipList :=
  us.foldl (fun L u => L.handleUpdate now u) L

variable {L : MembershipList} {now i : ℕ} {u : MembershipUpdate} {us : List MembershipUpdate}
  {id : String} {q : PiggybackEntry} {e : MemberInfo} {K : String → WithBot Rank}

theorem handleUpdates_cons (L : MembershipList) (now : ℕ) (u : MembershipUpdate)
    (us : List MembershipUpdate) :
    L.handleUpdates now (u :: us) = (L.handleUpdate now u).handleUpdates now us := rfl

theorem handleUpdates_concat (L : MembershipList) (now : ℕ) (us : List MembershipUpdate)
    (u : MembershipUpdate) :
    L.handleUpdates now (us ++ [u]) = (L.handleUpdates now us).handleUpdate now u := by
  unfold handleUpdates
  rw [List.foldl_append, List.foldl_cons, List.foldl_nil]

theorem checkSelfRefutation_of_alive (h : u.state = .alive) : L.checkSelfRefutation u = L := by
  refine if_neg ?_
  rintro ⟨-, hst, -⟩
  rw [h] at hst
  rcases hst with hst | hst <;> cases hst

theorem checkSelfRefutation_myId : (L.checkSelfRefutation u).myId = L.myId := by
  unfold checkSelfRefutation
  split_ifs <;> rfl

@[simp] theorem handleUpdate_myId : (L.handleUpdate now u).myId = L.myId :=
  applyUpdate_own.2.trans checkSelfRefutation_myId

@[simp] theorem handleUpdates_myId : (L.handleUpdates now us).myId = L.myId := by
  induction us generalizing L with
  | nil => rfl
  | cons u us ih => exact ih.trans handleUpdate_myId

theorem Queued.handleUpdate (h : L.Queued) : (L.handleUpdate now u).Queued := by
  refine Queued.applyUpdate ?_
  unfold checkSelfRefutation
  split_ifs
  · exact h.incrementMyIncarnation
  · exact h

theorem rankOf_handleUpdate (h : id ≠ L.myId) : (L.handleUpdate now u).rankOf id =
    JoinMap.join L.rankOf (u.memberId, (u.rank : WithBot Rank)) id := by
  have hsame : (L.checkSelfRefutation u).rankOf id = L.rankOf id := by
    unfold checkSelfRefutation
    split_ifs
    · unfold rankOf
      rw [incrementMyIncarnation_lookup_of_ne h]
    · rfl
  unfold handleUpdate
  rw [rankOf_applyUpdate]
  by_cases hu : id = u.memberId
  · subst hu
    rw [JoinMap.join_self, JoinMap.join_self, hsame]
  · rw [JoinMap.join_of_ne _ hu, JoinMap.join_of_ne _ hu, hsame]

theorem rankOf_handleUpdates_le (h : id ≠ L.myId) (hL : L.rankOf id ≤ K id)
    (hus : ∀ u ∈ us, u.Within K) : (L.handleUpdates now us).rankOf id ≤ K id := by
  induction us generalizing L with
  | nil => exact hL
  | cons u us ih =>
    obtain ⟨hu, hus⟩ := List.forall_mem_cons.mp hus
    refine ih (by rwa [handleUpdate_myId]) ?_ hus
    rw [rankOf_handleUpdate h]
    by_cases hid : u.memberId = id
    · subst hid
      rw [JoinMap.join_self]
      exact sup_le hL hu
    · rw [JoinMap.join_of_ne _ (Ne.symm hid)]
      exact hL

/-! ### Updates that say nothing new -/

/-- A node that holds itself as `ALIVE` at its incarnation need not refute what it knows. -/
theorem checkSelfRefutation_of_within
    (hown : L.rankOf L.myId = ((toLex (L.myIncarnation, .alive) : Rank) : WithBot Rank))
    (hu : u.Within L.rankOf) : L.checkSelfRefutation u = L := by
  refine if_neg ?_
  rintro ⟨hid, hst, hle⟩
  have hu : (u.rank : WithBot Rank) ≤ L.rankOf u.memberId := hu
  rw [hid, hown, WithBot.coe_le_coe] at hu
  rcases Prod.Lex.toLex_le_toLex.mp hu with hlt | ⟨-, hle'⟩
  · exact absurd hle (not_le.mpr hlt)
  · have hle' : u.state ≤ .alive := hle'
    rcases hst with hst | hst <;> rw [hst] at hle' <;> exact absurd hle' (by decide)

theorem handleUpdate_of_within (now : ℕ)
    (hown : L.rankOf L.myId = ((toLex (L.myIncarnation, .alive) : Rank) : WithBot Rank))
    (hu : u.Within L.rankOf) : (L.handleUpdate now u).rankOf = L.rankOf ∧
      (L.handleUpdate now u).piggybackBuffer = L.piggybackBuffer ∧
      (L.handleUpdate now u).myIncarnation = L.myIncarnation := by
  unfold handleUpdate
  rw [checkSelfRefutation_of_within hown hu, rankOf_applyUpdate]
  refine ⟨JoinMap.join_eq_self hu, ?_, applyUpdate_own.1⟩
  have hu : (u.rank : WithBot Rank) ≤ L.rankOf u.memberId := hu
  rcases applyUpdate_cases L now u with ⟨hnone, -⟩ | ⟨e, he, ⟨hr, -⟩ | ⟨-, -, heq, -⟩ | ⟨-, heq⟩⟩
  · rw [rankOf_of_none hnone] at hu
    exact absurd (le_bot_iff.mp hu) WithBot.coe_ne_bot
  · rw [rankOf_of_lookup he] at hu
    exact absurd hr (not_lt.mpr (WithBot.coe_le_coe.mp hu))
  · rw [heq]
    rfl
  · rw [heq]

/-! ### Suspicions of the node itself -/

theorem handleUpdate_myIncarnation :
    (L.handleUpdate now u).myIncarnation = (L.checkSelfRefutation u).myIncarnation :=
  applyUpdate_own.1

/-- Suspicions up to incarnation `i` take the node to `i + 1` at most, and each of those at `i` takes
it one step nearer. -/
theorem handleUpdates_myIncarnation (now : ℕ) (us : List MembershipUpdate) (hwide : i + 1 < 2 ^ 64)
    (hle : ∀ u ∈ us, u.memberId = L.myId → u.incarnation ≤ i) (hmy : L.myIncarnation ≤ i + 1) :
    L.myIncarnation ≤ (L.handleUpdates now us).myIncarnation ∧
      (L.handleUpdates now us).myIncarnation ≤ i + 1 ∧
      min (L.myIncarnation + us.countP (suspects L.myId i)) (i + 1) ≤
        (L.handleUpdates now us).myIncarnation := by
  induction us generalizing L with
  | nil => exact ⟨le_refl _, hmy, Nat.min_le_left _ _⟩
  | cons u us ih =>
    obtain ⟨hu, hus⟩ := List.forall_mem_cons.mp hle
    have hone : L.myIncarnation ≤ (L.handleUpdate now u).myIncarnation ∧
        (L.handleUpdate now u).myIncarnation ≤ i + 1 ∧
        (suspects L.myId i u → min (L.myIncarnation + 1) (i + 1) ≤
          (L.handleUpdate now u).myIncarnation) := by
      rw [handleUpdate_myIncarnation]
      unfold checkSelfRefutation
      split_ifs with hc
      · have := hu hc.1
        rw [incrementMyIncarnation_myIncarnation, Nat.mod_eq_of_lt (by omega)]
        omega
      · refine ⟨le_refl _, hmy, fun hsuspects => ?_⟩
        obtain ⟨hid, hst, hinc⟩ := suspects_iff.mp hsuspects
        have hlt : ¬ L.myIncarnation ≤ u.incarnation := fun hle => hc ⟨hid, by
          cases hs : u.state with
          | alive => exact absurd hs hst
          | suspect => exact Or.inl rfl
          | dead => exact Or.inr rfl, hle⟩
        omega
    obtain ⟨hlo, hhi, hstep⟩ := hone
    obtain ⟨hlo', hhi', hrest⟩ := ih (by rwa [handleUpdate_myId]) hhi
    rw [handleUpdate_myId] at hrest
    rw [handleUpdates_cons, List.countP_cons]
    refine ⟨hlo.trans hlo', hhi', ?_⟩
    split_ifs with hs
    · have := hstep hs
      omega
    · omega

/-! ### What a node comes to say -/

/-- All that is in the buffer afterwards is within a bound of what was there, of the updates and of
the refutations. -/
theorem buffer_handleUpdates (hwide : i + 1 < 2 ^ 64)
    (hle : ∀ u ∈ us, u.memberId = L.myId → u.incarnation ≤ i) (hmy : L.myIncarnation ≤ i + 1)
    (hL : ∀ q ∈ L.piggybackBuffer, q.update.Within K) (hus : ∀ u ∈ us, u.Within K)
    (hrefute : ((toLex ((L.handleUpdates now us).myIncarnation, .alive) : Rank) : WithBot Rank) ≤
      K L.myId) :
    ∀ q ∈ (L.handleUpdates now us).piggybackBuffer, q.update.Within K := by
  induction us generalizing L with
  | nil => exact hL
  | cons u us ih =>
    obtain ⟨hu, hus⟩ := List.forall_mem_cons.mp hus
    obtain ⟨hlo, hhi, -⟩ := handleUpdates_myIncarnation now [u] hwide
      (List.forall_mem_singleton.mpr (List.forall_mem_cons.mp hle).1) hmy
    have hle' : ∀ v ∈ us, v.memberId = (L.handleUpdate now u).myId → v.incarnation ≤ i := by
      rw [handleUpdate_myId]
      exact (List.forall_mem_cons.mp hle).2
    obtain ⟨hlast, -, -⟩ := handleUpdates_myIncarnation now us hwide hle' hhi
    refine ih hle' hhi ?_ hus (by rwa [handleUpdate_myId])
    -- one update: the refutation, then the update itself
    have hself : ∀ q ∈ (L.checkSelfRefutation u).piggybackBuffer, q.update.Within K := by
      have hmono : (L.checkSelfRefutation u).myIncarnation ≤
          ((L.handleUpdate now u).handleUpdates now us).myIncarnation :=
        (le_of_eq handleUpdate_myIncarnation.symm).trans hlast
      unfold checkSelfRefutation at hmono ⊢
      split_ifs at hmono ⊢
      · refine forall_record_buffer (L := { L with myIncarnation := _ }) hL (le_trans ?_ hrefute)
        refine WithBot.coe_le_coe.mpr (Prod.Lex.toLex_le_toLex.mpr ?_)
        exact (Nat.lt_or_eq_of_le hmono).imp id fun heq => ⟨heq, le_refl _⟩
      · exact hL
    show ∀ q ∈ ((L.checkSelfRefutation u).applyUpdate now u).list.piggybackBuffer, _
    rcases applyUpdate_list (L.checkSelfRefutation u) now u with hl | ⟨e, _, hl⟩ | ⟨e, hl⟩ <;> rw [hl]
    · exact hself
    · exact hself
    · exact forall_record_buffer hself hu

/-! ### Entries that stay -/

theorem lookup_handleUpdates (hid : id ≠ L.myId) (he : L.members.lookup id = some e)
    (hus : ∀ u ∈ us, u.memberId = id → u.rank ≤ e.rank) :
    ∃ e', (L.handleUpdates now us).members.lookup id = some e' ∧ e'.rank = e.rank ∧
      e'.address = e.address := by
  induction us generalizing L e with
  | nil => exact ⟨e, he, rfl, rfl⟩
  | cons u us ih =>
    obtain ⟨hu, hus⟩ := List.forall_mem_cons.mp hus
    have hsame : (L.checkSelfRefutation u).members.lookup id = some e := by
      unfold checkSelfRefutation
      split_ifs
      · exact (incrementMyIncarnation_lookup_of_ne hid).trans he
      · exact he
    obtain ⟨e₁, he₁, hr₁, haddress₁⟩ : ∃ e₁, (L.handleUpdate now u).members.lookup id = some e₁ ∧
        e₁.rank = e.rank ∧ e₁.address = e.address := by
      unfold handleUpdate
      by_cases hself : u.memberId = id
      · subst hself
        rcases applyUpdate_cases (L.checkSelfRefutation u) now u with
          ⟨hnone, -⟩ | ⟨e', he', ⟨hr, -⟩ | ⟨-, -, heq, -⟩ | ⟨-, heq⟩⟩
        · exact absurd (hsame.symm.trans hnone) (Option.some_ne_none _)
        · obtain rfl : e = e' := Option.some.inj (hsame.symm.trans he')
          exact absurd hr (not_lt.mpr (hu rfl))
        · obtain rfl : e = e' := Option.some.inj (hsame.symm.trans he')
          rw [heq]
          exact ⟨_, AList.lookup_insert _, rfl, rfl⟩
        · rw [heq]
          exact ⟨e, hsame, rfl, rfl⟩
      · exact ⟨e, (applyUpdate_lookup_of_ne (Ne.symm hself)).trans hsame, rfl, rfl⟩
    obtain ⟨e', he', hr', haddress'⟩ := ih (by rwa [handleUpdate_myId]) he₁ (by rwa [hr₁])
    exact ⟨e', he', hr'.trans hr₁, haddress'.trans haddress₁⟩

/-- The timers of the suspects have just been set. -/
def Fresh (now : ℕ) (L : MembershipList) : Prop :=
  ∀ id e, L.members.lookup id = some e → e.state = .suspect → e.suspectTime = now

theorem Fresh.setMember (h : L.Fresh now) (he : e.state = .suspect → e.suspectTime = now) :
    (L.setMember id e).Fresh now := by
  intro id' e' he' hst
  by_cases hid : id' = id
  · subst hid
    rw [setMember_members, AList.lookup_insert] at he'
    cases he'
    exact he hst
  · rw [setMember_members, lookup_insert_of_ne hid] at he'
    exact h id' e' he' hst

theorem Fresh.handleUpdate (h : L.Fresh now) : (L.handleUpdate now u).Fresh now := by
  have hself : (L.checkSelfRefutation u).Fresh now := by
    unfold checkSelfRefutation
    split_ifs
    · exact Fresh.setMember (L := { L with myIncarnation := _ }) h nofun
    · exact h
  unfold MembershipList.handleUpdate
  rcases applyUpdate_list (L.checkSelfRefutation u) now u with hl | ⟨e, he, hl⟩ | ⟨e, hl⟩ <;> rw [hl]
  · exact hself
  · exact hself.setMember fun hst => hself _ e he hst
  · exact Fresh.setMember hself fun hst => if_pos hst

theorem Fresh.handleUpdates (h : L.Fresh now) : (L.handleUpdates now us).Fresh now := by
  induction us generalizing L with
  | nil => exact h
  | cons u us ih => exact ih h.handleUpdate

end MembershipList

namespace Node

open MembershipList

variable {n : Node} {msg : GossipMessage} {src dest : Address} {us : List MembershipUpdate}
  {peer : Peer} {seq : ℕ}

theorem protocolStep_receiver (hcrash : n.crashed = false) :
    n.protocolStep .receiver = n.receiverStep := by
  unfold protocolStep step
  rw [hcrash]
  rfl

theorem protocolStep_sender (hcrash : n.crashed = false) (c : Choice) :
    n.protocolStep (.sender c) = n.senderStep c := by
  unfold protocolStep step
  rw [hcrash]
  rfl

/-! ## The receiver thread -/

/-- `ProcessPiggybackedUpdates` from beginning to end. -/
theorem handles_updates (hcrash : n.crashed = false) (hpc : n.receiver = .updates msg src us) :
    Reaches protocolStep n { n with
      list := n.list.handleUpdates n.clock us
      receiver := .updates msg src [] } := by
  induction us generalizing n with
  | nil =>
    have hsame : n = { n with list := n.list.handleUpdates n.clock [], receiver := .updates msg src [] } := by
      rw [← hpc]
      rfl
    rw [← hsame]
    exact .refl n
  | cons u us ih =>
    have hnext : n.protocolStep .receiver = some { n with
        receiver := if n.mustRefute u then .refute msg src u us else .apply msg src u us } := by
      rw [protocolStep_receiver hcrash]
      unfold receiverStep
      rw [hpc]
    have happly : ∀ s : Node, s.crashed = false → s.receiver = .apply msg src u us →
        Reaches protocolStep s { s with
          list := (s.list.applyUpdate s.clock u).list.handleUpdates s.clock us
          receiver := .updates msg src [] } := by
      intro s hs hr
      have hstep : s.protocolStep .receiver = some { s with
          list := (s.list.applyUpdate s.clock u).list
          receiver := .updates msg src us } := by
        rw [protocolStep_receiver hs]
        unfold receiverStep
        rw [hr]
      refine .cons hstep ?_
      exact ih (n := { s with
        list := (s.list.applyUpdate s.clock u).list, receiver := .updates msg src us }) hs rfl
    rw [handleUpdates_cons]
    unfold MembershipList.handleUpdate MembershipList.checkSelfRefutation
    refine .cons hnext ?_
    by_cases hm : n.mustRefute u
    · have hstep : protocolStep { n with receiver := .refute msg src u us } .receiver = some { n with
          list := n.list.incrementMyIncarnation
          receiver := .apply msg src u us } := protocolStep_receiver hcrash
      rw [if_pos hm, if_pos (mustRefute_iff.mp hm)]
      refine .cons hstep ?_
      exact happly { n with
        list := n.list.incrementMyIncarnation, receiver := .apply msg src u us } hcrash rfl
    · rw [if_neg hm, if_neg fun h => hm (mustRefute_iff.mpr h)]
      exact happly { n with receiver := .apply msg src u us } hcrash rfl

theorem Idle.receives (h : n.Idle) (msg : GossipMessage) (src : Address) :
    Reaches protocolStep { n with socket := [(msg, src)] } { n with
      list := n.list.handleUpdates n.clock msg.updates
      socket := []
      receiver := .updates msg src [] } := by
  have hreceive : protocolStep { n with socket := [(msg, src)] } .receiver = some { n with
      socket := [], receiver := .updates msg src msg.updates } := by
    refine (protocolStep_receiver (by exact h.crashed)).trans ?_
    unfold receiverStep
    rw [h.receiver]
  exact .cons hreceive (handles_updates (n := { n with
    socket := [], receiver := .updates msg src msg.updates }) h.crashed rfl)

/-- The node after it has answered a PING. -/
def answered (n : Node) (msg : GossipMessage) (src : Address) : Node :=
  let handled := { n with list := n.list.handleUpdates n.clock msg.updates }
  let taken := handled.list.takeUpdates n.config.maxPiggybackUpdates.toNat
  { n with
    list := taken.2
    sent := n.sent ++
      [⟨src, ⟨.ack, handled.list.myId, "", msg.sequenceNum, taken.1 ++ [handled.selfUpdate]⟩⟩] }

theorem answers (hidle : n.Idle) (hmax : 0 ≤ n.config.maxPiggybackUpdates) (hmsg : msg.type = .ping)
    (hknown : msg.senderId ∈ (n.list.handleUpdates n.clock msg.updates).members) :
    Reaches protocolStep { n with socket := [(msg, src)] } (n.answered msg src) := by
  refine (hidle.receives msg src).trans ?_
  obtain ⟨hreceiver, hsocket, hcrash⟩ := hidle
  unfold answered
  generalize n.list.handleUpdates n.clock msg.updates = L at hknown
  have hdispatch : protocolStep { n with
      list := L, socket := [], receiver := .updates msg src [] } .receiver = some { n with
      list := L, socket := [], receiver := .dispatch msg src } := protocolStep_receiver hcrash
  have hadd : (if msg.senderId ≠ "" then L.addMember msg.senderId src.toString else L) = L := by
    obtain ⟨e, he⟩ := Option.isSome_iff_exists.mp (AList.lookup_isSome.mpr hknown)
    unfold MembershipList.addMember
    rw [he]
    split_ifs <;> rfl
  have hping : protocolStep { n with
      list := L, socket := [], receiver := .dispatch msg src } .receiver = some { n with
      list := L, socket := []
      receiver := .ackPing (.collect ⟨src, .ack, "", msg.sequenceNum⟩) } := by
    refine (protocolStep_receiver (by exact hcrash)).trans ?_
    unfold receiverStep dispatchStep
    dsimp only
    rw [hmsg]
    dsimp only
    rw [hadd]
  -- and the ACK is sent
  have hcollect : protocolStep { n with
      list := L, socket := []
      receiver := .ackPing (.collect ⟨src, .ack, "", msg.sequenceNum⟩) } .receiver = some { n with
      list := (L.takeUpdates n.config.maxPiggybackUpdates.toNat).2, socket := []
      receiver := .ackPing (.transmit ⟨src, .ack, "", msg.sequenceNum⟩
        (L.takeUpdates n.config.maxPiggybackUpdates.toNat).1) } := by
    refine (protocolStep_receiver (by exact hcrash)).trans ?_
    unfold receiverStep sendStep MembershipList.getUpdatesForPiggyback
    dsimp only
    rw [if_neg (not_lt.mpr hmax)]
  refine .cons hdispatch (.cons hping (.cons hcollect ?_))
  refine .of_step (e := .receiver) ?_
  refine (protocolStep_receiver (by exact hcrash)).trans ?_
  unfold receiverStep sendStep
  rw [← hreceiver, ← hsocket]
  rfl

theorem recordAck_of_lookup {b : Bool} (h : n.pendingAcks.lookup seq = some b) :
    n.recordAck seq = { n with pendingAcks := n.pendingAcks.insert seq true } := by
  unfold recordAck
  rw [h]

/-- The node after it has taken an ACK. -/
def tookAck (n : Node) (msg : GossipMessage) : Node :=
  recordAck { n with list := n.list.handleUpdates n.clock msg.updates } msg.sequenceNum

theorem takes_ack (hidle : n.Idle) (hmsg : msg.type = .ack) :
    Reaches protocolStep { n with socket := [(msg, src)] } (n.tookAck msg) := by
  refine (hidle.receives msg src).trans ?_
  obtain ⟨hreceiver, hsocket, hcrash⟩ := hidle
  unfold tookAck
  generalize n.list.handleUpdates n.clock msg.updates = L
  have hdispatch : protocolStep { n with
      list := L, socket := [], receiver := .updates msg src [] } .receiver = some { n with
      list := L, socket := [], receiver := .dispatch msg src } := protocolStep_receiver hcrash
  refine .cons hdispatch (.of_step (e := .receiver) ?_)
  refine (protocolStep_receiver (by exact hcrash)).trans ?_
  unfold receiverStep dispatchStep recordAck
  dsimp only
  rw [hmsg, ← hreceiver, ← hsocket]
  dsimp only
  cases n.pendingAcks.lookup msg.sequenceNum <;> rfl

/-! ## The sender thread -/

/-- The sender thread pings a peer, up to the moment it hands the message to the socket. -/
theorem pings (hsender : n.sender = .round) (hcrash : n.crashed = false)
    (hmax : 0 ≤ n.config.maxPiggybackUpdates) (hpeer : peer ∈ n.list.alivePeers [])
    (haddress : parseAddress peer.2.address = .ok dest) :
    Reaches protocolStep n { n.register with
      list := (n.list.takeUpdates n.config.maxPiggybackUpdates.toNat).2
      sender := .ping peer n.nextSeqNum (.transmit ⟨dest, .ping, "", n.nextSeqNum⟩
        (n.list.takeUpdates n.config.maxPiggybackUpdates.toNat).1) } := by
  have hpick : n.randomAlivePeer [] (.peer peer.1) = some (some peer) := by
    unfold randomAlivePeer
    dsimp only
    cases hfind : (n.list.alivePeers []).find? fun p => p.1 = peer.1 with
    | none =>
      have hnone := List.find?_eq_none.mp hfind peer hpeer
      exact absurd (decide_eq_true rfl) hnone
    | some p =>
      have hid : p.1 = peer.1 := by simpa using List.find?_some hfind
      have hp := lookup_of_mem_alivePeers (List.mem_of_find?_eq_some hfind)
      rw [hid, lookup_of_mem_alivePeers hpeer] at hp
      rw [Option.map_some, Prod.ext hid (Option.some.inj hp).symm]
  have hround : n.protocolStep (.sender (.peer peer.1)) = some { n with sender := .probe peer } := by
    refine (protocolStep_sender (by exact hcrash) _).trans ?_
    unfold senderStep pingRoundStep
    rw [hsender]
    dsimp only
    rw [hpick]
    rfl
  have hprobe : protocolStep { n with sender := .probe peer } (.sender .none) = some { n.register with
      sender := .ping peer n.nextSeqNum (.collect ⟨dest, .ping, "", n.nextSeqNum⟩) } := by
    refine (protocolStep_sender (by exact hcrash) _).trans ?_
    unfold senderStep pingRoundStep withAddress
    dsimp only
    rw [haddress]
    rfl
  refine .cons hround (.cons hprobe (.of_step (e := .sender .none) ?_))
  refine (protocolStep_sender (by exact hcrash) _).trans ?_
  unfold senderStep pingRoundStep sendStep MembershipList.getUpdatesForPiggyback
  dsimp only
  have hmax : ¬ n.register.config.maxPiggybackUpdates < 0 := not_lt.mpr hmax
  rw [if_neg hmax]
  rfl

/-- The PING the sender thread sends in a round. -/
def pingMessage (n : Node) : GossipMessage :=
  ⟨.ping, n.list.myId, "", n.nextSeqNum,
    (n.list.takeUpdates n.config.maxPiggybackUpdates.toNat).1 ++ [n.selfUpdate]⟩

/-- The node after it has pinged a peer. -/
def pingSent (n : Node) (peer : Peer) (dest : Address) : Node :=
  { n.register with
    list := (n.list.takeUpdates n.config.maxPiggybackUpdates.toNat).2
    sent := n.sent ++ [⟨dest, n.pingMessage⟩]
    sender := .awaitAck peer n.nextSeqNum .enter }

theorem sends_ping (hsender : n.sender = .round) (hcrash : n.crashed = false)
    (hmax : 0 ≤ n.config.maxPiggybackUpdates) (hpeer : peer ∈ n.list.alivePeers [])
    (haddress : parseAddress peer.2.address = .ok dest) :
    Reaches protocolStep n (n.pingSent peer dest) := by
  refine (pings hsender hcrash hmax hpeer haddress).trans (.of_step (e := .sender .none) ?_)
  refine (protocolStep_sender (by exact hcrash) _).trans ?_
  unfold senderStep pingRoundStep sendStep
  rfl

/-- The ACK is there: the sender thread goes on to the suspects. -/
theorem finds_ack (hsender : n.sender = .awaitAck peer seq .enter) (hcrash : n.crashed = false)
    (hacked : n.isAcked seq = true) :
    Reaches protocolStep n { n.eraseAck seq with sender := .timeouts } := by
  have henter : n.protocolStep (.sender .none) = some { n with
      sender := .awaitAck peer seq (.blocked (n.clock + n.config.pingTimeoutMs * 1000000)) } := by
    refine (protocolStep_sender (by exact hcrash) _).trans ?_
    unfold senderStep pingRoundStep waitStep
    rw [hsender]
    rfl
  have hfound : protocolStep { n with
      sender := .awaitAck peer seq (.blocked (n.clock + n.config.pingTimeoutMs * 1000000)) }
      (.sender .none) = some { n with sender := .acked seq } := by
    have hacked : isAcked { n with
        sender := .awaitAck peer seq (.blocked (n.clock + n.config.pingTimeoutMs * 1000000)) } seq =
        true := hacked
    refine (protocolStep_sender (by exact hcrash) _).trans ?_
    unfold senderStep pingRoundStep
    dsimp only
    rw [hacked]
    rfl
  have hforget : protocolStep { n with sender := .acked seq } (.sender .none) =
      some { n.eraseAck seq with sender := .timeouts } := protocolStep_sender (by exact hcrash) _
  exact .cons henter (.cons hfound (.of_step hforget))

theorem checks_timeouts (hsender : n.sender = .timeouts) (hcrash : n.crashed = false)
    (hfresh : ∀ s ∈ n.list.getMembersByState .suspect, n.expired n.clock s.2 = false) :
    Reaches protocolStep n { n with sender := .round } := by
  have hsnapshot : n.protocolStep (.sender (.order (n.list.getMembersByState .suspect))) =
      some { n with sender := .readClock (n.list.getMembersByState .suspect) } := by
    refine (protocolStep_sender (by exact hcrash) _).trans ?_
    unfold senderStep suspectTimeoutsStep
    rw [hsender]
    exact if_pos (List.Perm.refl _)
  have hclock : protocolStep { n with sender := .readClock (n.list.getMembersByState .suspect) }
      (.sender .none) = some { n with
      sender := .expire n.clock (n.list.getMembersByState .suspect) } :=
    protocolStep_sender (by exact hcrash) _
  have hexpire : ∀ suspects : List Peer, (∀ s ∈ suspects, n.expired n.clock s.2 = false) →
      Reaches protocolStep { n with sender := .expire n.clock suspects }
        { n with sender := .round } := by
    intro suspects hfresh
    induction suspects with
    | nil => exact .of_step (e := .sender .none) (protocolStep_sender (by exact hcrash) _)
    | cons s rest ih =>
      obtain ⟨hs, hrest⟩ := List.forall_mem_cons.mp hfresh
      refine .cons (e := .sender .none) ?_ (ih hrest)
      have hs : expired { n with sender := .expire n.clock (s :: rest) } n.clock s.2 = false := hs
      refine (protocolStep_sender (by exact hcrash) _).trans ?_
      unfold senderStep suspectTimeoutsStep
      dsimp only
      rw [if_neg (by rw [hs]; exact Bool.false_ne_true)]
  exact .cons hsnapshot (.cons hclock (hexpire _ hfresh))

/-- The node after it has pinged a peer and has taken the ACK. -/
def rounded (n : Node) (peer : Peer) (dest : Address) (ack : GossipMessage) : Node :=
  let pingSent := n.pingSent peer dest
  { pingSent with
    list := pingSent.list.handleUpdates n.clock ack.updates
    pendingAcks := (pingSent.pendingAcks.insert n.nextSeqNum true).erase n.nextSeqNum
    sender := .round }

theorem expired_of_fresh {L : MembershipList} (h : L.Fresh n.clock)
    (htimeout : 0 < n.config.suspectTimeoutMs) :
    ∀ p ∈ L.getMembersByState .suspect, n.expired n.clock p.2 = false := by
  intro p hp
  have hst := (List.mem_filter.mp hp).2
  rw [decide_eq_true_eq] at hst
  unfold expired
  rw [h p.1 p.2 (lookup_of_mem_getMembersByState hp) hst.2, decide_eq_false_iff_not,
    le_elapsedMs_iff _ (le_refl _)]
  omega

/-- **The end of a round.** The ACK of the PING arrives, and no suspect has expired. -/
theorem finishes_round {ack : GossipMessage} (hidle : n.Idle) (hfresh : n.list.Fresh n.clock)
    (htimeout : 0 < n.config.suspectTimeoutMs) (htype : ack.type = .ack)
    (hseq : ack.sequenceNum = n.nextSeqNum) :
    Reaches protocolStep { n.pingSent peer dest with socket := [(ack, src)] }
      (n.rounded peer dest ack) := by
  have hpingSent : (n.pingSent peer dest).Idle := ⟨hidle.receiver, hidle.socket, hidle.crashed⟩
  refine (takes_ack hpingSent htype).trans ?_
  have htook : (n.pingSent peer dest).tookAck ack = { n.pingSent peer dest with
      list := (n.pingSent peer dest).list.handleUpdates n.clock ack.updates
      pendingAcks := (n.pingSent peer dest).pendingAcks.insert n.nextSeqNum true } := by
    unfold tookAck
    rw [hseq]
    exact recordAck_of_lookup (b := false) (AList.lookup_insert _)
  have hlist : ((n.pingSent peer dest).list.handleUpdates n.clock ack.updates).Fresh n.clock :=
    Fresh.handleUpdates (L := (n.pingSent peer dest).list) hfresh
  rw [htook]
  unfold rounded
  dsimp only
  generalize (n.pingSent peer dest).list.handleUpdates n.clock ack.updates = L at hlist
  obtain ⟨y, hy⟩ : ∃ y, y = { n.pingSent peer dest with
    list := L, pendingAcks := (n.pingSent peer dest).pendingAcks.insert n.nextSeqNum true } := ⟨_, rfl⟩
  have hsender : y.sender = .awaitAck peer n.nextSeqNum .enter := by rw [hy]; rfl
  have hcrash : y.crashed = false := by rw [hy]; exact hidle.crashed
  have hacked : y.isAcked n.nextSeqNum = true := by
    rw [hy]
    exact decide_eq_true (AList.lookup_insert _)
  have hfresh : ∀ p ∈ y.list.getMembersByState .suspect, y.expired y.clock p.2 = false := by
    rw [hy]
    exact expired_of_fresh (n := { n.pingSent peer dest with list := L }) hlist htimeout
  have hreach := (finds_ack hsender hcrash hacked).trans (checks_timeouts
    (n := { y.eraseAck n.nextSeqNum with sender := .timeouts }) rfl hcrash hfresh)
  rw [hy] at hreach
  exact hreach

end Node

end LlmGateway.Gossip
