import Mathlib.Algebra.BigOperators.Group.Finset.Piecewise
import Mathlib.Algebra.Order.BigOperators.Group.Finset
import LlmGateway.Gossip.Cluster

/-!
# The message load of a cluster

A round of `DoPingRound` sends one `PING` and at most `indirect_ping_count` `PING_REQ`s. A `PING` is
answered with one `ACK`, a `PING_REQ` with a `PING` to its target and, when that is answered in
time, one `ACK`; an `ACK` is answered with nothing. So messages cannot multiply, and what a cluster
sends is bounded by the rounds it has begun and the departures it has announced.

1. `Node.charge`: the messages of a type that a node has sent, and those that its threads and its
   socket still may lead to. Only a new round, an arrival and an announcement raise it
   (`Node.step_charge`).
2. `charge_of_run`: the sum over the cluster.
3. `message_load`: if every message that is sent arrives at most once, a round costs at most
   `2 + 4 k` messages and an announcement at most two.
-/

namespace LlmGateway.Gossip

open Transition

/-! ## What a node owes -/

/-- One message of the type `τ`, counted as messages of the type `t`. -/
def MessageType.tally (τ t : MessageType) : ℕ := if τ = t then 1 else 0

/-- The messages of the type `t` that handling one of the type `τ` leads to at most. -/
def MessageType.answers (τ t : MessageType) : ℕ :=
  match τ with
  | .ping => MessageType.tally .ack t
  | .pingReq => MessageType.tally .ping t + MessageType.tally .ack t
  | .ack => 0

/-- The `PING_REQ`s that a round still sends at most after `i` of them. -/
def proxiesLeft (k i : ℕ) (t : MessageType) : ℕ := (k - i) * MessageType.tally .pingReq t

/-- The messages of the type `t` that a round sends at most. -/
def perRound (k : ℕ) (t : MessageType) : ℕ := MessageType.tally .ping t + proxiesLeft k 0 t

def Sending.owed (t : MessageType) (m : Sending) : ℕ := m.type.tally t

def SenderPc.owed (k : ℕ) (t : MessageType) : SenderPc → ℕ
  | .probe _ => perRound k t
  | .ping _ _ m => m.owed t + proxiesLeft k 0 t
  | .awaitAck _ _ _ => proxiesLeft k 0 t
  | .pickProxy _ _ r => proxiesLeft k r.i t
  | .probeProxy _ _ r _ => MessageType.tally .pingReq t + proxiesLeft k (r.i + 1) t
  | .pingReq _ _ r m => m.owed t + proxiesLeft k r.i t
  | _ => 0

def ReceiverPc.owed (t : MessageType) : ReceiverPc → ℕ
  | .updates msg _ _ => msg.type.answers t
  | .refute msg _ _ _ => msg.type.answers t
  | .apply msg _ _ _ => msg.type.answers t
  | .dispatch msg _ => msg.type.answers t
  | .ackPing m => m.owed t
  | .relayProbe _ _ _ => MessageType.tally .ping t + MessageType.tally .ack t
  | .relayPing _ _ _ m => m.owed t + MessageType.tally .ack t
  | .relayWait _ _ _ _ => MessageType.tally .ack t
  | .relayAck _ m => m.owed t
  | _ => 0

/-- A proxy more is a `PING_REQ` less to come. -/
theorem proxiesLeft_succ {k i : ℕ} (t : MessageType) (h : i < k) :
    proxiesLeft k i t = MessageType.tally .pingReq t + proxiesLeft k (i + 1) t := by
  obtain ⟨m, rfl⟩ : ∃ m, k = i + 1 + m := ⟨k - (i + 1), by omega⟩
  have hleft : i + 1 + m - i = m + 1 := by omega
  have hleft' : i + 1 + m - (i + 1) = m := by omega
  rw [proxiesLeft, proxiesLeft, hleft, hleft', Nat.succ_mul, Nat.add_comm]

namespace Node

variable {n n' : Node} {c : Choice} {a : Act} {k : ℕ} {t : MessageType}

/-- The messages of the type `t` the node has sent. -/
def sentOf (t : MessageType) (n : Node) : ℕ := n.sent.countP fun d => d.msg.type = t

/-- The messages of the type `t` that those in the socket lead to at most. -/
def queued (t : MessageType) (n : Node) : ℕ := (n.socket.map fun d => d.1.type.answers t).sum

/-- What the node has sent, and what it may still send for the round it is in, for the message it
handles and for those in its socket. -/
def charge (k : ℕ) (t : MessageType) (n : Node) : ℕ :=
  n.sentOf t + n.sender.owed k t + n.receiver.owed t + n.queued t

/-- The sender thread picks a peer to probe. -/
def beginsRound (n : Node) : Act → Bool
  | .sender (.peer _) => n.sender = .round
  | _ => false

/-- `LeaveCluster` sends its announcement to one more peer. -/
def announces (n : Node) : Act → Bool
  | .leaver => match n.leaver with
    | .announce _ (_ :: _) => true
    | _ => false
  | _ => false

/-- What a step adds to the charge of the node. -/
def credit (k : ℕ) (t : MessageType) (n : Node) (a : Act) : ℕ :=
  (if n.beginsRound a then perRound k t else 0) +
    (if n.announces a then MessageType.tally .ping t else 0) +
    match a with
    | .arrive msg _ => msg.type.answers t
    | _ => 0

/-- A `SendMessage` step pays for the message with what the call owes. -/
theorem sendStep_owed (n : Node) (m : Sending) (t : MessageType) :
    (n.sendStep m).1.sentOf t + (n.sendStep m).2.elim 0 (Sending.owed t) ≤
      n.sentOf t + m.owed t := by
  cases m with
  | collect o =>
    rcases n.sendStep_collect o with h | ⟨i, h⟩ <;> rw [h]
    · exact Nat.add_le_add_left (Nat.zero_le _) _
    · exact le_refl _
  | transmit o updates =>
    show (n.sent ++ [_]).countP _ + 0 ≤ n.sent.countP _ + Sending.owed t _
    rw [List.countP_append, List.countP_singleton]
    by_cases htype : o.type = t <;> simp [Sending.owed, Sending.type, MessageType.tally, htype]

theorem withAddress_charge {s : String} {next : Address → Node} {b : ℕ}
    (hcrash : n.charge k t ≤ b) (hnext : ∀ dest, (next dest).charge k t ≤ b) :
    (n.withAddress s next).charge k t ≤ b := by
  unfold Node.withAddress
  cases parseAddress s with
  | ok dest => exact hnext dest
  | error _ => exact hcrash

theorem sending_charge {m : Sending} {more : Node → Sending → Node} {done : Node → Node} {i : ℕ}
    (hpc : n.charge k t = n.sentOf t + (m.owed t + i))
    (hmore : ∀ n' m', SendSpec n m n' → (more n' m').charge k t = n'.sentOf t + (m'.owed t + i))
    (hdone : ∀ n', SendSpec n m n' → (done n').charge k t = n'.sentOf t + i) :
    (match n.sendStep m with
      | (n', some m') => more n' m'
      | (n', none) => done n').charge k t ≤ n.charge k t := by
  have hpaid := n.sendStep_owed m t
  obtain ⟨hspec, -⟩ := n.sendStep_spec m
  refine sendStep_elim (C := fun n' => n'.charge k t ≤ n.charge k t) (fun n' m' hr => ?_)
    fun n' hr => ?_ <;> rw [hr] at hpaid hspec
  · have hpaid : n'.sentOf t + m'.owed t ≤ n.sentOf t + m.owed t := hpaid
    rw [hmore n' m' hspec, hpc]
    omega
  · have hpaid : n'.sentOf t + 0 ≤ n.sentOf t + m.owed t := hpaid
    rw [hdone n' hspec, hpc]
    omega

theorem charge_sender {b : ℕ} (hsent : n'.sent = n.sent) (hreceiver : n'.receiver = n.receiver)
    (hsocket : n'.socket = n.socket) (h : n'.sender.owed k t ≤ n.sender.owed k t + b) :
    n'.charge k t ≤ n.charge k t + b := by
  simp only [charge, sentOf, queued, hsent, hreceiver, hsocket]
  omega

theorem charge_receiver (hsent : n'.sent = n.sent) (hsender : n'.sender = n.sender)
    (hsocket : n'.socket = n.socket) (h : n'.receiver.owed t ≤ n.receiver.owed t) :
    n'.charge k t ≤ n.charge k t := by
  simp only [charge, sentOf, queued, hsent, hsender, hsocket]
  omega

/-- `DoPingRound` raises the charge only when it begins a round. -/
theorem pingRoundStep_charge {pc : SenderPc} (hpc : n.sender = pc)
    (hs : n.pingRoundStep c pc = some n') (hk : n.config.indirectPingCount ≤ k) :
    n'.charge k t ≤ n.charge k t + if n.beginsRound (.sender c) then perRound k t else 0 := by
  have howed : n.sender.owed k t = pc.owed k t := by rw [hpc]
  -- a step other than the pick of a peer pays with what the program counter owes
  have hpays : n'.charge k t ≤ n.charge k t →
      n'.charge k t ≤ n.charge k t + if n.beginsRound (.sender c) then perRound k t else 0 :=
    fun h => h.trans (Nat.le_add_right _ _)
  have hsend : ∀ {m : Sending} {more : Sending → SenderPc} {done : SenderPc} {i : ℕ},
      pc.owed k t = m.owed t + i → (∀ m, (more m).owed k t = m.owed t + i) → done.owed k t = i →
      (match n.sendStep m with
        | (n', some m') => { n' with sender := more m' }
        | (n', none) => { n' with sender := done } : Node).charge k t ≤ n.charge k t := by
    intro m more done i hm hmore hdone
    have hkeep : ∀ n' pc', SendSpec n m n' → charge k t { n' with sender := pc' } =
        n'.sentOf t + (pc'.owed k t + (n.receiver.owed t + n.queued t)) := by
      intro n' pc' h
      simp only [charge, sentOf, queued, h.receiver, h.socket]
      omega
    refine sending_charge (i := i + (n.receiver.owed t + n.queued t)) ?_ (fun n' m' h => ?_)
      fun n' h => ?_
    · rw [charge, howed, hm]
      omega
    · rw [hkeep n' _ h, hmore, Nat.add_assoc]
    · rw [hkeep n' _ h, hdone]
  cases pc with
  | round =>
    obtain ⟨r, hr, rfl⟩ := Option.map_eq_some_iff.mp hs
    cases r with
    | none => exact charge_sender rfl rfl rfl (Nat.zero_le _)
    | some peer =>
      have hbegins : n.beginsRound (.sender c) := by
        cases c with
        | peer id => simp [beginsRound, hpc]
        | none | order => simp only [randomAlivePeer] at hr; split_ifs at hr; cases hr
      rw [if_pos hbegins]
      exact charge_sender rfl rfl rfl (Nat.le_add_left _ _)
  | probe peer =>
    cases hs
    refine hpays (withAddress_charge (le_refl _) fun dest => ?_)
    exact charge_sender (b := 0) rfl rfl rfl (le_of_eq howed.symm)
  | ping peer seq m =>
    cases hs
    exact hpays (hsend rfl (fun _ => rfl) rfl)
  | awaitAck peer seq w =>
    obtain ⟨r, -, rfl⟩ := Option.map_eq_some_iff.mp hs
    refine hpays ?_
    rcases r with (_ | _) | w' <;> refine charge_sender (b := 0) rfl rfl rfl ?_ <;> rw [howed]
    · exact le_refl _
    · exact Nat.zero_le _
    · exact le_refl _
  | pickProxy peer seq r =>
    have hafter : (r.afterLoop peer seq).owed k t ≤ n.sender.owed k t := by
      unfold Indirect.afterLoop
      split_ifs <;> exact Nat.zero_le _
    refine hpays ?_
    simp only [pingRoundStep] at hs
    split_ifs at hs with hi
    · obtain ⟨p, -, rfl⟩ := Option.map_eq_some_iff.mp hs
      cases p with
      | none => exact charge_sender (b := 0) rfl rfl rfl hafter
      | some proxy =>
        refine charge_sender (b := 0) rfl rfl rfl (le_of_eq ?_)
        rw [howed]
        exact (proxiesLeft_succ t (by omega)).symm
    · cases hs
      exact charge_sender (b := 0) rfl rfl rfl hafter
  | probeProxy peer seq r proxy =>
    cases hs
    refine hpays (withAddress_charge (le_refl _) fun dest => ?_)
    exact charge_sender (b := 0) rfl rfl rfl (le_of_eq howed.symm)
  | pingReq peer seq r m =>
    cases hs
    exact hpays (hsend rfl (fun _ => rfl) rfl)
  | awaitIndirect peer seq r w =>
    obtain ⟨got, -, rfl⟩ := Option.map_eq_some_iff.mp hs
    refine hpays ?_
    rcases got with got | w' <;> exact charge_sender (b := 0) rfl rfl rfl (Nat.zero_le _)
  | forget peer seq got =>
    cases hs
    refine hpays (charge_sender (b := 0) rfl rfl rfl ?_)
    cases got <;> exact Nat.zero_le _
  | acked | suspect =>
    cases hs
    exact hpays (charge_sender (b := 0) rfl rfl rfl (Nat.zero_le _))
  | timeouts | readClock | expire => cases hs

theorem suspectTimeoutsStep_charge {pc : SenderPc} (hs : n.suspectTimeoutsStep c pc = some n') :
    n'.charge k t ≤ n.charge k t := by
  have hquiet : n'.sent = n.sent ∧ n'.receiver = n.receiver ∧ n'.socket = n.socket ∧
      n'.sender.owed k t ≤ n.sender.owed k t := by
    unfold suspectTimeoutsStep at hs
    split at hs
    · split at hs
      · split_ifs at hs
        cases hs
        exact ⟨rfl, rfl, rfl, Nat.zero_le _⟩
      · cases hs
    · cases hs
      exact ⟨rfl, rfl, rfl, Nat.zero_le _⟩
    · cases hs
      exact ⟨rfl, rfl, rfl, Nat.zero_le _⟩
    · split_ifs at hs <;> cases hs <;> exact ⟨rfl, rfl, rfl, Nat.zero_le _⟩
    · cases hs
  obtain ⟨hsent, hreceiver, hsocket, howed⟩ := hquiet
  exact charge_sender (b := 0) hsent hreceiver hsocket howed

/-- **A step of the sender thread.** -/
theorem senderStep_charge (hs : n.senderStep c = some n') (hk : n.config.indirectPingCount ≤ k) :
    n'.charge k t ≤ n.charge k t + if n.beginsRound (.sender c) then perRound k t else 0 := by
  unfold senderStep at hs
  split at hs
  · exact (suspectTimeoutsStep_charge hs).trans (Nat.le_add_right _ _)
  · exact (suspectTimeoutsStep_charge hs).trans (Nat.le_add_right _ _)
  · exact (suspectTimeoutsStep_charge hs).trans (Nat.le_add_right _ _)
  · exact pingRoundStep_charge rfl hs hk

/-- **A step of the receiver thread.** What it sends is owed for the message it handles. -/
theorem receiverStep_charge (hs : n.receiverStep = some n') : n'.charge k t ≤ n.charge k t := by
  have hkeep : ∀ {m : Sending} n' pc', SendSpec n m n' → charge k t { n' with receiver := pc' } =
      n'.sentOf t + (pc'.owed t + (n.sender.owed k t + n.queued t)) := by
    intro m n' pc' h
    simp only [charge, sentOf, queued, h.sender, h.socket]
    omega
  cases receiverStep_move hs with
  | @receive msg src socket hpc hsock =>
    simp only [charge, sentOf, queued, hpc, hsock, List.map_cons, List.sum_cons, ReceiverPc.owed]
    omega
  | handled hpc | toRefute hpc | toApply hpc | refute hpc | apply hpc | waiting hpc | answered hpc =>
    exact charge_receiver rfl rfl rfl (by rw [hpc]; exact le_refl _)
  | ping hpc htype | pingReq hpc htype =>
    refine charge_receiver rfl rfl rfl (le_of_eq ?_)
    rw [hpc]
    simp only [ReceiverPc.owed, htype]
    rfl
  | unknown | ack | timedOut | relayForget =>
    exact charge_receiver rfl rfl rfl (Nat.zero_le _)
  | ackPing hpc | relayAck hpc =>
    refine sending_charge ?_ (fun n' m' h => hkeep n' _ h) fun n' h => ?_
    · rw [charge, hpc]
      simp only [ReceiverPc.owed]
      omega
    · rw [hkeep n' _ h]
      exact congrArg _ (Nat.zero_add _)
  | relayProbe hpc =>
    refine withAddress_charge (le_refl _) fun dest => ?_
    exact charge_receiver rfl rfl rfl (by rw [hpc]; exact le_refl _)
  | relayPing hpc =>
    refine sending_charge ?_ (fun n' m' h => (hkeep n' _ h).trans ?_) fun n' h => hkeep n' _ h
    · rw [charge, hpc]
      simp only [ReceiverPc.owed]
      omega
    · simp only [ReceiverPc.owed]
      omega

/-- **A step of `LeaveCluster`.** An announcement is one `PING`. -/
theorem leaverStep_charge (hs : n.leaverStep = some n') :
    n'.charge k t ≤ n.charge k t + if n.announces .leaver then MessageType.tally .ping t else 0 := by
  cases leaverStep_move hs with
  | snapshot | readIncarnation | done => exact Nat.le_add_right _ _
  | @announce leave peer peers hpc =>
    have hannounces : n.announces .leaver := by simp only [announces, hpc]
    rw [if_pos hannounces]
    refine withAddress_charge (Nat.le_add_right _ _) fun dest => ?_
    simp only [charge, sentOf, queued, List.countP_append, List.countP_singleton]
    by_cases htype : MessageType.ping = t <;> simp [MessageType.tally, htype]
    omega

/-- **A step of a node.** -/
theorem step_charge (hs : n.step a = some n') (hk : n.config.indirectPingCount ≤ k) :
    n'.charge k t ≤ n.charge k t + n.credit k t a := by
  cases step_move hs with
  | tick | setMyLoad | joinCluster => exact Nat.le_add_right _ _
  | arrive msg src =>
    simp only [charge, sentOf, queued, credit, List.map_append, List.map_cons, List.map_nil,
      List.sum_append, List.sum_cons, List.sum_nil]
    omega
  | sender _ hs =>
    have h := senderStep_charge (t := t) hs hk
    simp only [credit]
    omega
  | receiver _ hs => exact (receiverStep_charge hs).trans (Nat.le_add_right _ _)
  | leaver _ hs =>
    have h := leaverStep_charge (k := k) (t := t) hs
    simp only [credit]
    omega

end Node

/-! ## The cluster -/

namespace Cluster

variable {ι : Type} [DecidableEq ι] {ids addresses : ι → String} {configs : ι → SwimConfig}
  {c c' : Cluster ι} {l : Label ι} {es : List (Label ι)} {k : ℕ} {t : MessageType}

/-- A node begins a round with a peer to probe. -/
def begins (c : Cluster ι) : Label ι → Bool
  | .act i a => (c i).beginsRound a
  | .deliver _ _ _ _ => false

/-- A node that leaves announces it to a peer. -/
def announces (c : Cluster ι) : Label ι → Bool
  | .act i a => (c i).announces a
  | .deliver _ _ _ _ => false

/-- A message of the type `τ` arrives. -/
def delivers (τ : MessageType) : Label ι → Bool
  | .act _ _ => false
  | .deliver _ _ msg _ => msg.type = τ

/-- The messages of the node `j` that arrive, in the order of their arrival. -/
def arrivals (j : ι) (es : List (Label ι)) : List GossipMessage :=
  es.filterMap fun
    | .deliver _ j' msg _ => if j' = j then some msg else none
    | .act _ _ => none

/-- What a step adds to the charge of the cluster. -/
def credit (k : ℕ) (t : MessageType) (c : Cluster ι) (l : Label ι) : ℕ :=
  (if begins c l then perRound k t else 0) + (if announces c l then MessageType.tally .ping t else 0) +
    ((if delivers .ping l then MessageType.answers .ping t else 0) +
      if delivers .pingReq l then MessageType.answers .pingReq t else 0)

theorem step_credit (hs : step c l = some c') (hk : ∀ i, (c i).config.indirectPingCount ≤ k) :
    ∃ i n', c' = Function.update c i n' ∧ n'.config = (c i).config ∧
      n'.charge k t ≤ (c i).charge k t + credit k t c l := by
  obtain ⟨i, a, n', hn, rfl, hlabel⟩ := step_inv hs
  refine ⟨i, n', rfl, (Node.step_spec hn).config, (Node.step_charge hn (hk i)).trans ?_⟩
  refine Nat.add_le_add_left ?_ _
  rcases hlabel with ⟨rfl, hne⟩ | ⟨j, msg, src, rfl, rfl, -⟩
  · cases a with
    | arrive msg src => exact absurd rfl (hne msg src)
    | _ => exact le_refl _
  · show 0 + 0 + msg.type.answers t ≤ _
    unfold credit begins announces delivers
    cases htype : msg.type <;> simp [MessageType.answers, htype]

/-- The charges of all nodes grow with the rounds, the announcements and what arrives. -/
theorem charge_of_run [Fintype ι] (hrun : Run step (start ids addresses configs) es c)
    (hk : ∀ i, (configs i).indirectPingCount ≤ k) (t : MessageType) :
    (∀ i, (c i).config = configs i) ∧
    ∑ i, (c i).charge k t ≤
      stepCount step begins (start ids addresses configs) es * perRound k t +
      stepCount step announces (start ids addresses configs) es * MessageType.tally .ping t +
      (es.countP (delivers .ping) * MessageType.answers .ping t +
        es.countP (delivers .pingReq) * MessageType.answers .pingReq t) := by
  induction hrun with
  | nil => exact ⟨fun _ => rfl, by simp [Node.charge, Node.sentOf, Node.queued, start, Node.create,
      SenderPc.owed, ReceiverPc.owed]⟩
  | @snoc es l s c' hrun hs ih =>
    obtain ⟨hconfig, hle⟩ := ih
    obtain ⟨i, n', rfl, hconfig', hcharge⟩ :=
      step_credit (t := t) hs fun i => by rw [hconfig i]; exact hk i
    refine ⟨fun j => ?_, ?_⟩
    · by_cases hj : j = i
      · subst hj
        rw [Function.update_self, hconfig', hconfig]
      · rw [Function.update_of_ne hj, hconfig]
    · have hsum : ∑ j, (Function.update s i n' j).charge k t ≤
          ∑ j, (s j).charge k t + credit k t s l := by
        rw [← Finset.sum_erase_add _ _ (Finset.mem_univ i),
          ← Finset.sum_erase_add (f := fun j => (s j).charge k t) _ (Finset.mem_univ i)]
        rw [Function.update_self]
        have hrest : ∑ j ∈ Finset.univ.erase i, (Function.update s i n' j).charge k t =
            ∑ j ∈ Finset.univ.erase i, (s j).charge k t := by
          refine Finset.sum_congr rfl fun j hj => ?_
          rw [Function.update_of_ne (Finset.ne_of_mem_erase hj)]
        omega
      refine hsum.trans ((Nat.add_le_add_right hle _).trans (le_of_eq ?_))
      rw [stepCount_snoc hrun, stepCount_snoc hrun, List.countP_append, List.countP_append,
        List.countP_singleton, List.countP_singleton]
      simp only [credit, Nat.add_mul, ite_mul, one_mul, zero_mul]
      omega

theorem countP_arrivals [Fintype ι] (τ : MessageType) (es : List (Label ι)) :
    es.countP (delivers τ) = ∑ j, (arrivals j es).countP fun msg => msg.type = τ := by
  induction es with
  | nil => simp [arrivals]
  | cons l es ih =>
    cases l with
    | act i a => simpa [arrivals, delivers, List.countP_cons] using ih
    | deliver i j msg src =>
      have hcons : ∀ j', (arrivals j' (.deliver i j msg src :: es)).countP (fun m => m.type = τ) =
          (arrivals j' es).countP (fun m => m.type = τ) +
            if j = j' then (if msg.type = τ then 1 else 0) else 0 := by
        intro j'
        by_cases hj : j = j' <;> simp [arrivals, hj, List.countP_cons]
      rw [Finset.sum_congr rfl fun j' _ => hcons j', Finset.sum_add_distrib, ← ih,
        List.countP_cons, Finset.sum_ite_eq]
      simp [delivers]

/-- What arrives at most once is not more than what has been sent. -/
theorem countP_arrivals_le [Fintype ι] (τ : MessageType)
    (honce : ∀ j, (arrivals j es).Subperm ((c j).sent.map Datagram.msg)) :
    es.countP (delivers τ) ≤ ∑ j, (c j).sentOf τ := by
  rw [countP_arrivals]
  refine Finset.sum_le_sum fun j _ => ?_
  have h := (honce j).countP_le fun msg => decide (msg.type = τ)
  rw [List.countP_map] at h
  exact h

theorem length_sent (n : Node) :
    n.sent.length = n.sentOf .ping + n.sentOf .pingReq + n.sentOf .ack := by
  unfold Node.sentOf
  induction n.sent with
  | nil => rfl
  | cons d sent ih =>
    rw [List.length_cons, List.countP_cons, List.countP_cons, List.countP_cons, ih]
    cases d.msg.type <;> simp <;> omega

/-- **The message load.** In every run of a cluster in which no message arrives more often than its
sender has sent it, the nodes send at most `2 + 4 k` messages for each round begun, where `k` bounds
the proxies of a round, and two for each announcement of a departure to a peer. -/
theorem message_load [Fintype ι] (hrun : Run step (start ids addresses configs) es c)
    (hk : ∀ i, (configs i).indirectPingCount ≤ k)
    (honce : ∀ j, (arrivals j es).Subperm ((c j).sent.map Datagram.msg)) :
    ∑ i, (c i).sent.length ≤
      (2 + 4 * k) * stepCount step begins (start ids addresses configs) es +
      2 * stepCount step announces (start ids addresses configs) es := by
  have hsent : ∀ t, ∑ i, (c i).sentOf t ≤ ∑ i, (c i).charge k t := fun t =>
    Finset.sum_le_sum fun i _ => by unfold Node.charge; omega
  have hping := (hsent .ping).trans (charge_of_run hrun hk .ping).2
  have hpingReq := (hsent .pingReq).trans (charge_of_run hrun hk .pingReq).2
  have hack := (hsent .ack).trans (charge_of_run hrun hk .ack).2
  simp only [perRound, proxiesLeft, MessageType.tally, MessageType.answers, reduceCtorEq, if_true,
    if_false, Nat.mul_one, Nat.mul_zero, Nat.add_zero, Nat.zero_add, Nat.sub_zero]
    at hping hpingReq hack
  have hpings := countP_arrivals_le .ping honce
  have hpingReqs := countP_arrivals_le .pingReq honce
  rw [Finset.sum_congr rfl fun i _ => length_sent (c i), Finset.sum_add_distrib,
    Finset.sum_add_distrib]
  have hrounds : (2 + 4 * k) * stepCount step begins (start ids addresses configs) es =
      2 * stepCount step begins (start ids addresses configs) es +
        4 * (stepCount step begins (start ids addresses configs) es * k) := by ring
  omega

/-- A round of a replica that the gateway answers. -/
def pingedRound : List (Label Bool) :=
  [.act true (.joinCluster ["10.0.0.9:17000"]),
    .act true (.sender (.peer "seed-10.0.0.9:17000"))] ++
  List.replicate 3 (.act true (.sender .none)) ++ [pairPing] ++
  List.replicate 7 (.act false .receiver)

theorem message_load_answered :
    ∃ c, Run step (start pairIds pairAddresses pairConfigs) pingedRound c ∧
      ∑ i, (c i).sent.length = 2 ∧ ∑ i, (c i).sent.length ≤ 10 := by
  have hrun : Run step (start pairIds pairAddresses pairConfigs) pingedRound _ :=
    run_get (by decide)
  have h := message_load (k := 2) hrun (by decide) (by decide)
  exact ⟨_, hrun, by decide, h.trans (by decide)⟩

end Cluster

end LlmGateway.Gossip
