import LlmGateway.Gossip.Inheritance

/-!
# Where load reports come from

A node publishes its load with `SetMyLoad`, and every message it sends carries it. From there the
report goes from list to list, with the updates about the node that its peers queue and pass on.
`ApplyUpdate` takes the two numbers together or not at all, and the model version on its own.

1. `Reported P`: the load in an update is the one of a fresh entry or has been published for the
   member, as `P` says. It is inherited (`reported_inherited`), and so every step of a node keeps it
   (`Reporting.step`).
2. `reports_published`: in a cluster the load a node knows of a member is one that the member has
   published.
-/

namespace LlmGateway.Gossip

open Transition MembershipList

/-- A predicate on published loads: the member, and the arguments of its `SetMyLoad` call. -/
abbrev LoadPred := String → ℤ → ℤ → String → Prop

/-- The load in an update is that of a fresh entry, or it has been published for the member. -/
structure Reported (P : LoadPred) (u : MembershipUpdate) : Prop where
  load : (u.activeRequests = 0 ∧ u.maxCapacity = 0) ∨
    ∃ version, P u.memberId u.activeRequests u.maxCapacity version
  version : u.modelVersion = "" ∨ ∃ active capacity, P u.memberId active capacity u.modelVersion

variable {P Q : LoadPred} {u : MembershipUpdate} {e info : MemberInfo} {id address : String}
  {now : ℕ}

theorem Reported.mono (h : Reported P u) (hPQ : ∀ id k m v, P id k m v → Q id k m v) :
    Reported Q u where
  load := h.load.imp_right fun ⟨v, hv⟩ => ⟨v, hPQ _ _ _ _ hv⟩
  version := h.version.imp_right fun ⟨k, m, hk⟩ => ⟨k, m, hPQ _ _ _ _ hk⟩

theorem Reported.congr (h : Reported P (e.toUpdate id))
    (hactive : info.activeRequests = e.activeRequests) (hcapacity : info.maxCapacity = e.maxCapacity)
    (hversion : info.modelVersion = e.modelVersion) : Reported P (info.toUpdate id) where
  load := by
    show (info.activeRequests = 0 ∧ info.maxCapacity = 0) ∨
      ∃ v, P id info.activeRequests info.maxCapacity v
    rw [hactive, hcapacity]
    exact h.load
  version := by
    show info.modelVersion = "" ∨ ∃ k m, P id k m info.modelVersion
    rw [hversion]
    exact h.version

theorem reported_fresh : Reported P (MemberInfo.toUpdate id {}) := ⟨Or.inl ⟨rfl, rfl⟩, Or.inl rfl⟩

/-- The load an entry has, or the one an update brings: the numbers together, the version apart. -/
theorem Reported.either (he : Reported P (e.toUpdate u.memberId)) (hu : Reported P u)
    (hload : (info.activeRequests = e.activeRequests ∧ info.maxCapacity = e.maxCapacity) ∨
      (info.activeRequests = u.activeRequests ∧ info.maxCapacity = u.maxCapacity))
    (hversion : info.modelVersion = e.modelVersion ∨ info.modelVersion = u.modelVersion) :
    Reported P (info.toUpdate u.memberId) where
  load := by
    show (info.activeRequests = 0 ∧ info.maxCapacity = 0) ∨
      ∃ v, P u.memberId info.activeRequests info.maxCapacity v
    rcases hload with ⟨hactive, hcapacity⟩ | ⟨hactive, hcapacity⟩ <;> rw [hactive, hcapacity]
    · exact he.load
    · exact hu.load
  version := by
    show info.modelVersion = "" ∨ ∃ k m, P u.memberId k m info.modelVersion
    rcases hversion with hversion | hversion <;> rw [hversion]
    · exact he.version
    · exact hu.version

theorem Reported.refreshLoad (he : Reported P (e.toUpdate u.memberId)) (hu : Reported P u) :
    Reported P ((e.refreshLoad u).1.toUpdate u.memberId) := by
  refine he.either hu ?_ ?_ <;> simp only [MemberInfo.refreshLoad]
  · split_ifs
    · exact Or.inr ⟨rfl, rfl⟩
    · exact Or.inl ⟨rfl, rfl⟩
  · split_ifs
    · exact Or.inr rfl
    · exact Or.inl rfl

theorem Reported.overwrite (he : Reported P (e.toUpdate u.memberId)) (hu : Reported P u) :
    Reported P ((e.overwrite now u).toUpdate u.memberId) := by
  refine he.either hu ?_ ?_ <;> simp only [MemberInfo.overwrite]
  · split_ifs
    · exact Or.inr ⟨rfl, rfl⟩
    · exact Or.inl ⟨rfl, rfl⟩
  · split_ifs
    · exact Or.inr rfl
    · exact Or.inl rfl

theorem reported_inherited : Inherited (Reported P) where
  fresh _ _ := reported_fresh
  overwrite _ _ _ he hu := he.overwrite hu
  refreshLoad _ _ he hu := he.refreshLoad hu
  mark _ _ _ _ he := he.congr rfl rfl rfl
  renew _ _ _ he := he.congr rfl rfl rfl

/-! ## A node -/

namespace Node

variable {n n' : Node} {a : Act}

/-- The load the node has published last. -/
def ownLoad (n : Node) : ℤ × ℤ × String := (n.myActiveRequests, n.myMaxCapacity, n.myModelVersion)

/-- Every load the node knows, holds or sends has been published, and so has its own. -/
structure Reporting (P : LoadPred) (n : Node) : Prop extends n.Held (Reported P) where
  reports : n.list.Reports (Reported P)
  own : n.ownLoad = (0, 0, "") ∨
    P n.list.myId n.ownLoad.1 n.ownLoad.2.1 n.ownLoad.2.2

theorem Reporting.mono (h : n.Reporting P) (hPQ : ∀ id k m v, P id k m v → Q id k m v) :
    n.Reporting Q where
  sender u hu := (h.sender u hu).mono hPQ
  receiver u hu := (h.receiver u hu).mono hPQ
  leaver u hu := (h.leaver u hu).mono hPQ
  socket d hd u hu := (h.socket d hd u hu).mono hPQ
  sent d hd u hu := (h.sent d hd u hu).mono hPQ
  reports := ⟨fun id e he => (h.reports.members id e he).mono hPQ,
    fun q hq => (h.reports.buffer q hq).mono hPQ⟩
  own := h.own.imp_right (hPQ _ _ _ _)

theorem create_reporting (myId myAddress : String) (config : SwimConfig) :
    (create myId myAddress config).Reporting P where
  toHeld := create_held ..
  reports := reports_empty.addMember (reported_fresh.congr rfl rfl rfl)
  own := Or.inl rfl

theorem Reporting.selfUpdate (h : n.Reporting P) : Reported P n.selfUpdate := by
  rcases h.own with hown | hown
  · obtain ⟨hactive, hcapacity, hversion⟩ : n.myActiveRequests = 0 ∧ n.myMaxCapacity = 0 ∧
        n.myModelVersion = "" := by simpa [ownLoad] using hown
    exact ⟨Or.inl ⟨hactive, hcapacity⟩, Or.inl hversion⟩
  · exact ⟨Or.inr ⟨_, hown⟩, Or.inr ⟨_, _, hown⟩⟩

theorem sendStep_ownLoad (n : Node) (m : Sending) : (n.sendStep m).1.ownLoad = n.ownLoad := by
  cases m with
  | collect o => rcases n.sendStep_collect o with h | ⟨k, h⟩ <;> rw [h] <;> rfl
  | transmit o updates => rfl

theorem withAddress_ownLoad {s : String} {k : Address → Node}
    (hk : ∀ a, (k a).ownLoad = n.ownLoad) : (n.withAddress s k).ownLoad = n.ownLoad := by
  unfold Node.withAddress
  cases parseAddress s with
  | ok a => exact hk a
  | error _ => rfl

theorem senderStep_ownLoad {c : Choice} (hs : n.senderStep c = some n') :
    n'.ownLoad = n.ownLoad := by
  cases senderStep_move hs with
  | goto | pick | suspect | expire => rfl
  | probe => exact withAddress_ownLoad (n := n.register) fun a => rfl
  | @send m =>
    rw [← sendStep_ownLoad n m]
    rcases n.sendStep m with ⟨n₁, _ | m'⟩ <;> rfl

theorem receiverStep_ownLoad (hs : n.receiverStep = some n') : n'.ownLoad = n.ownLoad := by
  cases receiverStep_move hs with
  | receive | handled | toRefute | toApply | refute | apply | ping | unknown | pingReq | ack
  | waiting | answered | timedOut | relayForget => rfl
  | relayProbe => exact withAddress_ownLoad (n := n.register) fun a => rfl
  | @ackPing m | @relayPing _ _ _ m | @relayAck _ m =>
    rw [← sendStep_ownLoad n m]
    rcases n.sendStep m with ⟨n₁, _ | m'⟩ <;> rfl

theorem step_ownLoad (hs : n.step a = some n') :
    (∃ k m v, a = .setMyLoad k m v ∧ n'.ownLoad = (k, m, v)) ∨ n'.ownLoad = n.ownLoad := by
  cases step_move hs with
  | setMyLoad k m v => exact Or.inl ⟨k, m, v, rfl, rfl⟩
  | tick | joinCluster | arrive => exact Or.inr rfl
  | sender _ hs => exact Or.inr (senderStep_ownLoad hs)
  | receiver _ hs => exact Or.inr (receiverStep_ownLoad hs)
  | leaver _ hs =>
    refine Or.inr ?_
    cases leaverStep_move hs with
    | snapshot | readIncarnation | done => rfl
    | announce => exact withAddress_ownLoad fun a => rfl

/-- **A step of a node.** It publishes what `P` allows it to, and passes on what arrives. -/
theorem Reporting.step (h : n.Reporting P) (hknown : n.OwnKnown)
    (hload : ∀ k m v, a = .setMyLoad k m v → P n.list.myId k m v)
    (harrive : ∀ msg src, a = .arrive msg src → ∀ u ∈ msg.updates, Reported P u)
    (hs : n.step a = some n') : n'.Reporting P where
  toHeld := by
    by_cases hleave : a = .leaver
    · subst hleave
      cases step_move hs with
      | leaver _ hs => exact Held.leaverStep h.toHeld ⟨Or.inl ⟨rfl, rfl⟩, Or.inl rfl⟩ hs
    · exact h.toHeld.step (fun _ => h.reports.buffer) h.selfUpdate harrive hleave hs
  reports := reports_step reported_inherited h.reports h.receiver reported_fresh
    (fun _ _ _ => reported_fresh.congr rfl rfl rfl) hs
  own := by
    rw [(hknown.step hs).2]
    rcases step_ownLoad hs with ⟨k, m, v, ha, hown⟩ | hown <;> rw [hown]
    · exact Or.inr (hload k m v ha)
    · exact h.own

end Node

/-! ## The cluster -/

namespace Cluster

variable {ι : Type} [DecidableEq ι] {ids addresses : ι → String} {configs : ι → SwimConfig}
  {c c' : Cluster ι} {l : Label ι} {es : List (Label ι)} {j : ι}

/-- The loads that the calls of `SetMyLoad` in a run have published. -/
def Published (ids : ι → String) (es : List (Label ι)) : LoadPred :=
  fun id k m v => ∃ x, ids x = id ∧ .act x (.setMyLoad k m v) ∈ es

omit [DecidableEq ι] in
theorem Published.append {k m : ℤ} {v : String} (h : Published ids es id k m v)
    (fs : List (Label ι)) : Published ids (es ++ fs) id k m v := by
  obtain ⟨x, hx, hmem⟩ := h
  exact ⟨x, hx, List.mem_append_left _ hmem⟩

theorem reporting_of_run (hrun : Run step (start ids addresses configs) es c) :
    ∀ j, (c j).Reporting (Published ids es) ∧ (c j).OwnKnown ∧ (c j).list.myId = ids j := by
  induction hrun with
  | nil =>
    intro j
    exact ⟨Node.create_reporting .., Node.create_ownKnown .., addMember_own.2⟩
  | @snoc es l s t hrun hs ih =>
    have hgrow : ∀ j, (s j).Reporting (Published ids (es ++ [l])) :=
      fun j => (ih j).1.mono fun _ _ _ _ h => h.append [l]
    obtain ⟨i, a, n', hn, rfl, hlabel⟩ := step_inv hs
    have hnode : n'.Reporting (Published ids (es ++ [l])) := by
      refine (hgrow i).step (ih i).2.1 ?_ ?_ hn
      · rintro k m v rfl
        rcases hlabel with ⟨rfl, -⟩ | ⟨_, _, _, -, heq, -⟩
        · exact ⟨i, (ih i).2.2.symm, by simp⟩
        · cases heq
      · rintro msg src rfl
        rcases hlabel with ⟨-, hne⟩ | ⟨k, _, _, -, heq, d, hd, rfl⟩
        · exact absurd rfl (hne msg src)
        · cases heq
          exact (hgrow k).sent d hd
    intro j
    by_cases hj : j = i
    · subst hj
      obtain ⟨hknown, hid⟩ := (ih j).2.1.step hn
      rw [Function.update_self]
      exact ⟨hnode, hknown, hid.trans (ih j).2.2⟩
    · rw [Function.update_of_ne hj]
      exact ⟨hgrow j, (ih j).2⟩

/-- **Load reports.** In every run of a cluster, whatever the network does and whoever leaves: the
active requests and the capacity that a node knows of a member are the zeros of a fresh entry or
have been published by the member in one `SetMyLoad` call, and its model version is empty or has
been published by it. -/
theorem reports_published (hrun : Run step (start ids addresses configs) es c)
    (he : (c j).list.getMember id = some e) :
    ((e.activeRequests = 0 ∧ e.maxCapacity = 0) ∨
      ∃ x v, ids x = id ∧ .act x (.setMyLoad e.activeRequests e.maxCapacity v) ∈ es) ∧
    (e.modelVersion = "" ∨
      ∃ x k m, ids x = id ∧ .act x (.setMyLoad k m e.modelVersion) ∈ es) := by
  obtain ⟨hload, hversion⟩ := (reporting_of_run hrun j).1.reports.members id e he
  refine ⟨hload.imp_right ?_, hversion.imp_right ?_⟩
  · rintro ⟨v, x, hx, hmem⟩
    exact ⟨x, v, hx, hmem⟩
  · rintro ⟨k, m, x, hx, hmem⟩
    exact ⟨x, k, m, hx, hmem⟩

/-- A replica publishes its load, and the gateway learns of it from a `PING`. -/
def loadRun : List (Label Bool) :=
  [.act true (.joinCluster ["10.0.0.9:17000"]), .act true (.setMyLoad 2 4 "v2"),
    .act true (.sender (.peer "seed-10.0.0.9:17000"))] ++
  List.replicate 3 (.act true (.sender .none)) ++
  [.deliver false true ⟨.ping, "replica-1", "", 1,
    [⟨"replica-1", "10.0.0.1:17001", .alive, 0, "v2", 2, 4⟩]⟩ ⟨"10.0.0.1", 17001⟩] ++
  List.replicate 4 (.act false .receiver)

theorem reports_published_pair :
    ∃ c e, Run step (start pairIds pairAddresses pairConfigs) loadRun c ∧
      (c false).list.getMember "replica-1" = some e ∧ e.maxCapacity = 4 ∧
      ∃ x v, pairIds x = "replica-1" ∧ .act x (.setMyLoad 2 4 v) ∈ loadRun := by
  have hrun : Run step (start pairIds pairAddresses pairConfigs) loadRun _ := run_get (by decide)
  have hmember : (((exec step (start pairIds pairAddresses pairConfigs) loadRun).get
      (by decide)) false).list.getMember "replica-1" = some _ := (Option.some_get (by decide)).symm
  have h := reports_published hrun hmember
  exact ⟨_, _, hrun, hmember, by decide, h.1.resolve_left (by decide)⟩

end Cluster

end LlmGateway.Gossip
