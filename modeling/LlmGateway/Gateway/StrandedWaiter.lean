import LlmGateway.Gateway.ActiveRequests
import LlmGateway.Gateway.InferMove

/-!
# Stranded waiters

A call that is blocked in the queue is woken by the notification of another call's stream. But
`SelectReplica` also selects nothing where there is nothing to wait for: without any replica, with
all of them dead or draining, or with all of them excluded by the call itself.

1. `Unstranded`: behind every blocked call there is a notification to come, and a replica to hope
   for. `Provident` says when a step leaves it so: where nothing is selected, a replica is
   `Saturated`.
2. `Settles`, `waiting_step`: after every release of a call comes a notification, and a call comes to
   the queue by a selection that found nothing.
3. `exists_inFlight`: an active request is that of a call, which will notify the queue.
4. `unstranded`: in a run of provident steps no call is ever stranded.
-/

namespace LlmGateway.Gateway

open Gossip Replica Transition

/-- A stream of the call is in flight, or its notification is still to come. -/
def InferCall.Aloft (f : InferCall) : Prop :=
  f.stage.dispatched ≠ [] ∨ .notifyCapacityAvailable ∈ f.pending

/-- A call other than `i` will notify the queue. -/
def OtherAloft (p : GatewayPool) (i : ℕ) : Prop :=
  ∃ j f, j ≠ i ∧ p.calls[j]? = some (.infer f) ∧ f.Aloft

/-- The replica is neither dead nor draining nor excluded. -/
def ReplicaRegistry.Usable (r : ReplicaRegistry) (excluded : List String) (id : String)
    (info : ReplicaInfo) : Prop :=
  r.getReplica id = some info ∧ info.gossipState ≠ .dead ∧ info.draining = false ∧ id ∉ excluded

/-- There is a replica that is neither dead nor draining nor excluded. -/
def ReplicaRegistry.Hopeful (r : ReplicaRegistry) (excluded : List String) : Prop :=
  ∃ id info, r.Usable excluded id info

/-- The call `i` is in the wait of `WaitForCapacity`. -/
def Blocked (p : GatewayPool) (i : ℕ) (f : InferCall) (t : Ticket) : Prop :=
  p.calls[i]? = some (.infer f) ∧ f.stage = .infer (.blocked t)

/-- The slots of a replica that is neither dead nor draining nor excluded are all taken. -/
def ReplicaRegistry.Saturated (r : ReplicaRegistry) (excluded : List String) : Prop :=
  ∃ id info, r.Usable excluded id info ∧ 0 < info.maxCapacity ∧
    info.maxCapacity ≤ info.activeRequests

/-- The event neither kills the replica nor sets it draining. -/
def GatewayEvent.spares : GatewayEvent → String → Bool
  | .updateFromGossip id u, id' => id' ≠ id || u.state ≠ .dead
  | .setDraining id draining, id' => id' ≠ id || !draining
  | _, _ => true

/-- The call is on its way to the wait in the queue, or in it. -/
def InferCall.AtQueue (f : InferCall) : Prop :=
  f.stage = .infer .queueing ∨ ∃ t, f.stage = .infer (.blocked t)

/-- The call is there, and has no ticket yet or one that is not served. -/
def InferCall.Waiting (serving : ℕ) (f : InferCall) : Prop :=
  f.stage = .infer .queueing ∨ ∃ t, f.stage = .infer (.blocked t) ∧ serving ≤ t.number

/-- A provident step. Where `SelectReplica` finds nothing, it is because the slots of a replica are
taken; a notification that leaves a call waiting is given while a replica still has an active request
or another notification is pending; and a membership update or `SetDraining` leaves the calls at the
queue a replica. -/
structure Provident (hash : List UInt8 → ℕ) (p : GatewayPool) (l : GatewayLabel) : Prop where
  starves : ∀ i c f s lb, l = .call i c → p.calls[i]? = some (.infer f) → f.pending = [] →
    f.stage = .infer (.selecting s) →
    s.step hash p.shared.registry p.shared.lb f.request.prompt f.excluded c.draws =
      some (lb, .selected none) →
    p.shared.registry.Saturated f.excluded
  notifies : ∀ i c f ops, l = .call i c → p.calls[i]? = some (.infer f) →
    f.pending = .notifyCapacityAvailable :: ops →
    (∃ (k : ℕ) (f' : InferCall), p.calls[k]? = some (.infer f') ∧
      f'.Waiting p.shared.queue.notifyCapacityAvailable.servingTicket) →
    (∃ id info, p.shared.registry.getReplica id = some info ∧ 0 < info.activeRequests) ∨
      .notifyCapacityAvailable ∈ ops ∨
      ∃ j f', j ≠ i ∧ p.calls[j]? = some (.infer f') ∧ .notifyCapacityAvailable ∈ f'.pending
  changes : ∀ e, l = .env e → ∀ (k : ℕ) (f : InferCall), p.calls[k]? = some (.infer f) → f.AtQueue →
    ∃ id info, p.shared.registry.Usable f.excluded id info ∧ e.spares id = true

variable {hash : List UInt8 → ℕ} {g g' : GatewayState} {c : InferChoice} {f f' : InferCall}

/-! ## One step of a call -/

/-- A call that will notify the queue still will, unless its next operation is the notification. -/
theorem aloft_step (hs : f.step hash g c = some (g', f')) (h : f.Aloft)
    (hnotify : ∀ ops, f.pending ≠ .notifyCapacityAvailable :: ops) : f'.Aloft := by
  cases hpending : f.pending with
  | cons op ops =>
    unfold InferCall.step at hs
    rw [hpending] at hs
    cases hs
    refine h.imp id fun hmem => ?_
    rw [hpending] at hmem
    rcases List.mem_cons.mp hmem with rfl | hmem
    · exact absurd hpending (hnotify ops)
    · exact hmem
  | nil =>
    have hdispatched : f.stage.dispatched ≠ [] := by
      refine h.resolve_right fun hmem => ?_
      rw [hpending] at hmem
      cases hmem
    cases (step_dispatch hpending hs).1 with
    | quiet hsame _ => exact Or.inl (by rwa [hsame])
    | begins hnone _ => exact absurd hnone hdispatched
    | @ends ids reports hperm _ hendings =>
      by_cases hids : ids = []
      · left
        intro hnone
        rw [hids, hnone] at hperm
        exact hdispatched hperm.eq_nil
      · right
        obtain ⟨id, hid⟩ := List.exists_mem_of_ne_nil _ hids
        rw [hendings]
        refine List.mem_append_left _ (List.mem_append_right _ ?_)
        exact List.mem_map.mpr ⟨id, hid, rfl⟩

/-- After each release in the list there is a notification. -/
def Settles : List Operation → Prop
  | [] => True
  | .decrementActive _ :: ops => .notifyCapacityAvailable ∈ ops ∧ Settles ops
  | _ :: ops => Settles ops

theorem Settles.tail {op : Operation} {ops : List Operation} (h : Settles (op :: ops)) :
    Settles ops := by
  cases op with
  | decrementActive => exact h.2
  | _ => exact h

theorem Settles.notifies {id : String} {ops : List Operation} (h : Settles ops)
    (hid : .decrementActive id ∈ ops) : .notifyCapacityAvailable ∈ ops := by
  induction ops with
  | nil => cases hid
  | cons op ops ih =>
    rcases List.mem_cons.mp hid with rfl | hid
    · exact List.mem_cons_of_mem _ h.1
    · exact List.mem_cons_of_mem _ (ih h.tail hid)

theorem settles_of_none {ops : List Operation} (h : ∀ id, .decrementActive id ∉ ops) :
    Settles ops := by
  induction ops with
  | nil => trivial
  | cons op ops ih =>
    have hops : Settles ops := ih fun id hid => h id (List.mem_cons_of_mem _ hid)
    cases op with
    | decrementActive id => exact absurd List.mem_cons_self (h id)
    | _ => exact hops

theorem settles_endings {ids : List String} {reports : List Operation}
    (hreports : ∀ op ∈ reports, op.isRecord = true) : Settles (endings ids reports) := by
  have hrest : Settles (ids.map (fun _ => .notifyCapacityAvailable) ++ reports) := by
    refine settles_of_none fun id hid => ?_
    rcases List.mem_append.mp hid with hid | hid
    · obtain ⟨_, -, hid⟩ := List.mem_map.mp hid
      cases hid
    · cases hreports _ hid
  have hreleases : ∀ (ids : List String) (rest : List Operation), Settles rest →
      (ids ≠ [] → .notifyCapacityAvailable ∈ rest) →
      Settles (ids.map .decrementActive ++ rest) := by
    intro ids rest hrest hnotify
    induction ids with
    | nil => exact hrest
    | cons id ids ih =>
      exact ⟨List.mem_append_right _ (hnotify (List.cons_ne_nil _ _)),
        ih fun _ => hnotify (List.cons_ne_nil _ _)⟩
  unfold endings
  rw [List.append_assoc]
  refine hreleases ids _ hrest fun hids => List.mem_append_left _ ?_
  obtain ⟨id, hid⟩ := List.exists_mem_of_ne_nil _ hids
  exact List.mem_map.mpr ⟨id, hid, rfl⟩

/-- How a call comes to be at the queue: it was there before, or a selection has found nothing. -/
theorem atQueue_step (hs : f.step hash g c = some (g', f')) (h : f'.AtQueue) :
    (∃ op ops, f.pending = op :: ops ∧ f' = { f with pending := ops } ∧ g' = op.apply g) ∨
      (f.pending = [] ∧ f'.pending = [] ∧ f'.excluded = f.excluded ∧
        (f.stage = .infer .queueing ∨ ∃ s lb, f.stage = .infer (.selecting s) ∧
          s.step hash g.registry g.lb f.request.prompt f.excluded c.draws =
            some (lb, .selected none))) := by
  cases stepMove hs with
  | @pending op ops hpending => exact Or.inl ⟨op, ops, hpending, rfl, rfl⟩
  | enter | enterHedged => rcases h with h | ⟨t, h⟩ <;> cases h
  | hedged _ _ hhedge =>
    obtain ⟨⟨s', hs'⟩, -⟩ := InferCall.hedgeStep_effect hhedge
    rcases h with h | ⟨t, h⟩ <;> cases hs'.symm.trans h
  | infer hpending hmove =>
    refine Or.inr ⟨hpending, ?_⟩
    cases hmove with
    | starve hstage hselect => exact ⟨hpending, rfl, Or.inr ⟨_, _, hstage, hselect⟩⟩
    | block hqueueing => exact ⟨hpending, rfl, Or.inl hqueueing⟩
    | stream =>
      rcases stage_streamed f _ _ _ _ with hstage | hstage <;> rcases h with h | ⟨t, h⟩ <;>
        cases hstage.symm.trans h
    | _ => rcases h with h | ⟨t, h⟩ <;> cases h

/-- The operations of a call settle, and none is pending while it is at the queue. -/
structure InferCall.Tidy (f : InferCall) : Prop where
  settles : Settles f.pending
  idle : f.AtQueue → f.pending = []

theorem InferCall.Tidy.step (h : f.Tidy) (hs : f.step hash g c = some (g', f')) : f'.Tidy := by
  constructor
  · cases hpending : f.pending with
    | cons op ops =>
      have hsettles := h.settles
      unfold InferCall.step at hs
      rw [hpending] at hs hsettles
      cases hs
      exact hsettles.tail
    | nil =>
      cases (step_dispatch hpending hs).1 with
      | quiet _ hnone =>
        rw [hnone]
        trivial
      | begins _ hbegins =>
        rw [hbegins]
        refine settles_of_none fun id hid => ?_
        obtain ⟨_, -, hid⟩ := List.mem_map.mp hid
        cases hid
      | ends _ hreports hendings =>
        rw [hendings]
        exact settles_endings hreports
  · intro hqueue
    rcases atQueue_step hs hqueue with ⟨op, ops, hpending, rfl, -⟩ | ⟨-, hnone, -⟩
    · rw [h.idle hqueue] at hpending
      cases hpending
    · exact hnone

theorem serving_step (hs : f.step hash g c = some (g', f')) :
    g'.queue.servingTicket = g.queue.servingTicket ∨
      ∃ ops, f.pending = .notifyCapacityAvailable :: ops := by
  cases stepMove hs with
  | @pending op ops hpending =>
    cases op with
    | notifyCapacityAvailable => exact Or.inr ⟨ops, hpending⟩
    | _ => exact Or.inl rfl
  | enter | enterHedged => exact Or.inl rfl
  | hedged _ _ hhedge =>
    obtain ⟨-, -, -, hqueue⟩ := InferCall.hedgeStep_effect hhedge
    exact Or.inl (by rw [hqueue])
  | infer _ hmove => cases hmove <;> exact Or.inl rfl

theorem ReplicaRegistry.Hopeful.modify {r : ReplicaRegistry} {excluded : List String} {id : String}
    {u : ReplicaInfo → ReplicaInfo} (h : r.Hopeful excluded)
    (hu : ∀ info, (u info).gossipState = info.gossipState ∧ (u info).draining = info.draining) :
    (r.modify id u).Hopeful excluded := by
  obtain ⟨id', info, hinfo, halive, hdraining, hexcluded⟩ := h
  by_cases hid : id' = id
  · subst hid
    refine ⟨id', u info, ?_, ?_, ?_, hexcluded⟩
    · rw [ReplicaRegistry.getReplica_modify, hinfo, Option.map_some]
    · rwa [(hu info).1]
    · rwa [(hu info).2]
  · exact ⟨id', info, (ReplicaRegistry.getReplica_modify_of_ne u hid).trans hinfo, halive,
      hdraining, hexcluded⟩

theorem ReplicaRegistry.Hopeful.step {excluded : List String} (h : g.registry.Hopeful excluded)
    (hs : f.step hash g c = some (g', f')) : g'.registry.Hopeful excluded := by
  rcases InferCall.step_effect hs with ⟨op, ops, -, rfl, -⟩ | ⟨-, -, hregistry⟩
  · cases op with
    | incrementActive | decrementActive => exact h.modify fun _ => ⟨rfl, rfl⟩
    | notifyCapacityAvailable | recordSuccess | recordFailure => exact h
  · rwa [hregistry]

theorem ReplicaRegistry.Usable.update {r : ReplicaRegistry} {excluded : List String} {id id' : String}
    {info : ReplicaInfo} {u : MembershipUpdate} (h : r.Usable excluded id info)
    (hspares : (GatewayEvent.updateFromGossip id' u).spares id = true) :
    (r.updateFromGossip id' u).1.Hopeful excluded := by
  obtain ⟨hinfo, halive, hdraining, hexcluded⟩ := h
  by_cases hid : id = id'
  · subst hid
    have hstate : u.state ≠ .dead := by simpa [GatewayEvent.spares] using hspares
    have hrefresh : ((r.getReplica id).getD {}).refresh u = info.refresh u := by
      rw [hinfo]
      rfl
    simp only [ReplicaRegistry.updateFromGossip, hrefresh]
    split_ifs
    · split <;> exact ⟨id, _, ReplicaRegistry.getReplica_set, hstate, hdraining, hexcluded⟩
    · exact ⟨id, _, ReplicaRegistry.getReplica_set, hstate, hdraining, hexcluded⟩
  · exact ⟨id, info, (ReplicaRegistry.getReplica_updateFromGossip_of_ne u hid).trans hinfo, halive,
      hdraining, hexcluded⟩

theorem ReplicaRegistry.Usable.event {excluded : List String} {id : String} {info : ReplicaInfo}
    {e : GatewayEvent} (h : g.registry.Usable excluded id info) (hspares : e.spares id = true) :
    (e.apply g).registry.Hopeful excluded := by
  cases e with
  | tick => exact ⟨id, info, h⟩
  | updateFromGossip id' u => exact h.update hspares
  | setDraining id' draining =>
    obtain ⟨hinfo, halive, hdraining, hexcluded⟩ := h
    by_cases hid : id = id'
    · subst hid
      have hset : draining = false := by simpa [GatewayEvent.spares] using hspares
      subst hset
      refine ⟨id, { info with draining := false }, ?_, halive, rfl, hexcluded⟩
      exact (ReplicaRegistry.getReplica_modify _).trans (congrArg (Option.map _) hinfo)
    · exact ⟨id, info, (ReplicaRegistry.getReplica_modify_of_ne _ hid).trans hinfo, halive,
        hdraining, hexcluded⟩
  | setGrpcAddress id' address =>
    obtain ⟨hinfo, halive, hdraining, hexcluded⟩ := h
    by_cases hid : id = id'
    · subst hid
      refine ⟨id, { info with grpcAddress := address }, ?_, halive, hdraining, hexcluded⟩
      refine ReplicaRegistry.getReplica_set.trans (congrArg some ?_)
      rw [hinfo]
      rfl
    · exact ⟨id, info, (ReplicaRegistry.getReplica_set_of_ne hid).trans hinfo, halive, hdraining,
        hexcluded⟩

/-! ## Every run -/

section

variable {es : List GatewayLabel} {p p' : GatewayPool} {l : GatewayLabel}

/-- What a step of the gateway is: a new call, an event, a step of a `RebuildRing` call, or one of
an `Infer` call. -/
theorem gatewayStep_cases (hs : (gatewayProgram hash).step p l = some p') :
    (∃ x, p' = ⟨p.shared, p.calls ++ [(gatewayProgram hash).start x]⟩) ∨
      (∃ e, l = .env e ∧ p' = ⟨e.apply p.shared, p.calls⟩) ∨
      (∃ i c b b' g', l = .call i c ∧ p.calls[i]? = some (.rebuildRing b) ∧
        g'.registry = p.shared.registry ∧ g'.queue = p.shared.queue ∧
        p' = ⟨g', p.calls.set i (.rebuildRing b')⟩) ∨
      ∃ i c f f' g', l = .call i c ∧ p.calls[i]? = some (.infer f) ∧
        f.step hash p.shared c = some (g', f') ∧ p' = ⟨g', p.calls.set i (.infer f')⟩ := by
  cases Program.step_cases hs with
  | spawn x => exact Or.inl ⟨x, rfl⟩
  | env henv =>
    cases henv
    exact Or.inr (Or.inl ⟨_, rfl, rfl⟩)
  | @call i c t t' g' hi ht =>
    cases t with
    | infer f =>
      obtain ⟨⟨g₁, f'⟩, hf, heq⟩ := Option.map_eq_some_iff.mp ht
      cases heq
      exact Or.inr (Or.inr (Or.inr ⟨i, c, f, f', g₁, rfl, hi, hf, rfl⟩))
    | rebuildRing b =>
      obtain ⟨⟨g₁, b'⟩, hb, heq⟩ := Option.map_eq_some_iff.mp ht
      cases heq
      refine Or.inr (Or.inr (Or.inl ⟨i, c, b, b', g₁, rfl, hi, ?_, ?_, rfl⟩))
      · exact (RebuildCall.step_shared hb).1
      · cases b with
        | entered =>
          cases hb
          rfl
        | replacing alive =>
          obtain ⟨lb, -, heq⟩ := Option.map_eq_some_iff.mp hb
          cases heq
          rfl
        | done => cases hb

theorem OtherAloft.step {i k : ℕ} (hi : p.calls[i]? = some (.infer f))
    (hs : f.step hash p.shared c = some (g', f')) (h : OtherAloft p k)
    (hnotify : ∀ ops, f.pending ≠ .notifyCapacityAvailable :: ops) :
    OtherAloft ⟨g', p.calls.set i (.infer f')⟩ k := by
  obtain ⟨j, f₁, hjk, hj, haloft⟩ := h
  by_cases hji : j = i
  · subst hji
    rw [hi] at hj
    cases hj
    refine ⟨j, f', hjk, ?_, aloft_step hs haloft hnotify⟩
    rw [Program.getElem?_set hi, if_pos rfl]
  · refine ⟨j, f₁, hjk, ?_, haloft⟩
    rw [Program.getElem?_set hi, if_neg hji]
    exact hj

theorem tidy_preserves (hash : List UInt8 → ℕ) :
    Program.Preserves (gatewayProgram hash) (fun _ => True)
      fun _ t => ∀ f, t = .infer f → f.Tidy where
  start := by
    rintro g (request | _) - f heq
    · cases heq
      exact ⟨trivial, fun _ => rfl⟩
    · cases heq
  call := by
    intro g t c g' t' _ ht hs
    refine ⟨trivial, fun f₁ heq => ?_⟩
    rcases gatewayCall_cases hs with ⟨f, f', rfl, rfl, hf⟩ | ⟨b, b', rfl, rfl, -⟩
    · cases heq
      exact (ht f rfl).step hf
    · cases heq
  others := fun _ _ _ _ _ _ _ _ _ hu => hu
  env := fun _ _ _ _ _ => ⟨trivial, fun _ hu => hu⟩

variable {g₀ : GatewayState}

theorem tidy_of_run (hrun : Run (gatewayProgram hash).step ⟨g₀, []⟩ es p) {i : ℕ}
    (hi : p.calls[i]? = some (.infer f)) : f.Tidy :=
  ((tidy_preserves hash).invariant trivial hrun).calls _ (List.mem_of_getElem? hi) f rfl

theorem aloft_of_inFlight {id : String} (h : Settles f.pending) (hid : 0 < f.inFlight id) :
    f.Aloft := by
  unfold InferCall.inFlight at hid
  by_cases hrelease : .decrementActive id ∈ f.pending
  · exact Or.inr (h.notifies hrelease)
  · left
    intro hnone
    rw [hnone, List.count_eq_zero.mpr hrelease] at hid
    simp at hid

theorem inFlight_eq_zero {id : String} (hnone : f.stage.dispatched = []) (hpending : f.pending = []) :
    f.inFlight id = 0 := by
  rw [InferCall.inFlight, hnone, hpending]
  rfl

theorem InferCall.AtQueue.dispatched (h : f.AtQueue) : f.stage.dispatched = [] := by
  rcases h with h | ⟨t, h⟩ <;> rw [h] <;> rfl

/-- **An active request has its call**, by the account of `active_requests`. -/
theorem exists_inFlight (h₀ : ∀ id, g₀.registry.active id = 0)
    (hrun : Run (gatewayProgram hash).step ⟨g₀, []⟩ es p) {id : String} {info : ReplicaInfo}
    (hinfo : p.shared.registry.getReplica id = some info) (hactive : 0 < info.activeRequests) :
    ∃ (j : ℕ) (f : InferCall), p.calls[j]? = some (.infer f) ∧ 0 < f.inFlight id := by
  have hcounter := active_eq_inFlight h₀ hrun id
  rw [ReplicaRegistry.active_eq hinfo] at hcounter
  have hsum : inFlight p id ≠ 0 := by omega
  rw [inFlight, ne_eq, List.sum_eq_zero_iff_forall_eq_nat] at hsum
  push Not at hsum
  obtain ⟨n, hn, hpos⟩ := hsum
  obtain ⟨t, ht, rfl⟩ := List.mem_map.mp hn
  cases t with
  | infer f =>
    obtain ⟨j, hj⟩ := List.getElem?_of_mem ht
    exact ⟨j, f, hj, Nat.pos_of_ne_zero hpos⟩
  | rebuildRing b => exact absurd rfl hpos

theorem otherAloft_of_starved (h₀ : ∀ id, g₀.registry.active id = 0)
    (hrun : Run (gatewayProgram hash).step ⟨g₀, []⟩ es p) {i : ℕ}
    (hi : p.calls[i]? = some (.infer f)) (hpending : f.pending = [])
    (hnone : f.stage.dispatched = []) (hsaturated : p.shared.registry.Saturated f.excluded) :
    OtherAloft p i := by
  obtain ⟨id, info, ⟨hinfo, -⟩, hcapacity, hfull⟩ := hsaturated
  obtain ⟨j, f', hj, hflight⟩ := exists_inFlight h₀ hrun hinfo (by omega)
  refine ⟨j, f', ?_, hj, aloft_of_inFlight (tidy_of_run hrun hj).settles hflight⟩
  rintro rfl
  rw [hi] at hj
  cases hj
  rw [inFlight_eq_zero hnone hpending] at hflight
  exact absurd hflight (lt_irrefl 0)

/-- What is still to come after a notification that leaves the call `k` waiting. -/
theorem otherAloft_notify (h₀ : ∀ id, g₀.registry.active id = 0)
    (hrun : Run (gatewayProgram hash).step ⟨g₀, []⟩ es p) {i k : ℕ} {ops : List Operation}
    {f₁ : InferCall} (hl : Provident hash p (.call i c)) (hi : p.calls[i]? = some (.infer f))
    (hpending : f.pending = .notifyCapacityAvailable :: ops) (hki : k ≠ i)
    (hk : p.calls[k]? = some (.infer f₁)) (hqueue : f₁.AtQueue)
    (hwaiting : f₁.Waiting p.shared.queue.notifyCapacityAvailable.servingTicket) :
    OtherAloft ⟨Operation.notifyCapacityAvailable.apply p.shared,
      p.calls.set i (.infer { f with pending := ops })⟩ k := by
  have hidle : f₁.pending = [] := (tidy_of_run hrun hk).idle hqueue
  -- the call that notifies, or one that is neither it nor the waiting call
  have haloft : ∀ (j : ℕ) (f' : InferCall), j ≠ k →
      (if j = i then f' = { f with pending := ops } else p.calls[j]? = some (.infer f')) →
      f'.Aloft → OtherAloft ⟨Operation.notifyCapacityAvailable.apply p.shared,
        p.calls.set i (.infer { f with pending := ops })⟩ k := by
    intro j f' hjk hj haloft
    refine ⟨j, f', hjk, ?_, haloft⟩
    rw [Program.getElem?_set hi]
    split_ifs at hj ⊢
    · rw [hj]
    · exact hj
  rcases hl.notifies i c f ops rfl hi hpending ⟨k, f₁, hk, hwaiting⟩ with
    ⟨id, info, hinfo, hactive⟩ | hmore | ⟨j, f', hji, hj, hnotify⟩
  · obtain ⟨j, f', hj, hflight⟩ := exists_inFlight h₀ hrun hinfo hactive
    have hjk : j ≠ k := by
      rintro rfl
      rw [hk] at hj
      cases hj
      rw [inFlight_eq_zero hqueue.dispatched hidle] at hflight
      exact absurd hflight (lt_irrefl 0)
    have hsettles := (tidy_of_run hrun hj).settles
    by_cases hji : j = i
    · subst hji
      rw [hi] at hj
      cases hj
      have hrest : Settles ops := by
        rw [hpending] at hsettles
        exact hsettles.tail
      have hflight' : 0 < { f with pending := ops }.inFlight id := by
        simpa [InferCall.inFlight, hpending, List.count_cons] using hflight
      exact haloft j _ hjk (by rw [if_pos rfl]) (aloft_of_inFlight hrest hflight')
    · exact haloft j f' hjk (by rwa [if_neg hji]) (aloft_of_inFlight hsettles hflight)
  · exact haloft i _ hki.symm (by rw [if_pos rfl]) (Or.inr hmore)
  · refine haloft j f' ?_ (by rwa [if_neg hji]) (Or.inr hnotify)
    rintro rfl
    rw [hk] at hj
    cases hj
    rw [hidle] at hnotify
    cases hnotify

/-- A call at the queue has a replica to hope for, and while it waits another call will notify the
queue. -/
def Watched (p : GatewayPool) : Prop :=
  ∀ (k : ℕ) (f : InferCall), p.calls[k]? = some (.infer f) → f.AtQueue →
    p.shared.registry.Hopeful f.excluded ∧
      (f.Waiting p.shared.queue.servingTicket → OtherAloft p k)

theorem Watched.move (h : Watched p) (h₀ : ∀ id, g₀.registry.active id = 0)
    (hrun : Run (gatewayProgram hash).step ⟨g₀, []⟩ es p) {i : ℕ}
    (hl : Provident hash p (.call i c)) (hi : p.calls[i]? = some (.infer f))
    (hstep : f.step hash p.shared c = some (g', f'))
    (hnotify : ∀ ops, f.pending ≠ .notifyCapacityAvailable :: ops) :
    Watched ⟨g', p.calls.set i (.infer f')⟩ := by
  intro k f₁ hk hqueue
  have hserving : g'.queue.servingTicket = p.shared.queue.servingTicket :=
    (serving_step hstep).resolve_right fun ⟨ops, hpending⟩ => hnotify ops hpending
  have hbefore : p.shared.registry.Hopeful f₁.excluded ∧
      (f₁.Waiting p.shared.queue.servingTicket → OtherAloft p k) := by
    rw [Program.getElem?_set hi] at hk
    split_ifs at hk with hki
    · cases hk
      subst hki
      rcases atQueue_step hstep hqueue with ⟨op, ops, hpending, rfl, -⟩ |
        ⟨hpending, -, hexcluded, hqueueing | ⟨s, lb, hstage, hselect⟩⟩
      · rw [(tidy_of_run hrun hi).idle hqueue] at hpending
        cases hpending
      · obtain ⟨hhopeful, haloft⟩ := h k f hi (Or.inl hqueueing)
        exact ⟨hexcluded ▸ hhopeful, fun _ => haloft (Or.inl hqueueing)⟩
      · have hsaturated := hl.starves k c f s lb rfl hi hpending hstage hselect
        have hnone : f.stage.dispatched = [] := by rw [hstage]; rfl
        refine ⟨?_, fun _ => otherAloft_of_starved h₀ hrun hi hpending hnone hsaturated⟩
        obtain ⟨id, info, husable, -⟩ := hsaturated
        exact hexcluded ▸ ⟨id, info, husable⟩
    · exact h k f₁ hk hqueue
  refine ⟨hbefore.1.step hstep, fun hwaiting => (hbefore.2 ?_).step hi hstep hnotify⟩
  exact hserving ▸ hwaiting

theorem Watched.notify (h : Watched p) (h₀ : ∀ id, g₀.registry.active id = 0)
    (hrun : Run (gatewayProgram hash).step ⟨g₀, []⟩ es p) {i : ℕ} {ops : List Operation}
    (hl : Provident hash p (.call i c)) (hi : p.calls[i]? = some (.infer f))
    (hpending : f.pending = .notifyCapacityAvailable :: ops) :
    Watched ⟨Operation.notifyCapacityAvailable.apply p.shared,
      p.calls.set i (.infer { f with pending := ops })⟩ := by
  intro k f₁ hk hqueue
  rw [Program.getElem?_set hi] at hk
  split_ifs at hk with hki
  · -- a call at the queue has nothing to notify
    cases hk
    rw [(tidy_of_run hrun hi).idle hqueue] at hpending
    cases hpending
  · exact ⟨(h k f₁ hk hqueue).1,
      otherAloft_notify h₀ hrun hl hi hpending hki hk hqueue⟩

/-- **One step.** A provident step keeps the calls at the queue watched. -/
theorem Watched.step (h : Watched p) (h₀ : ∀ id, g₀.registry.active id = 0)
    (hrun : Run (gatewayProgram hash).step ⟨g₀, []⟩ es p) (hl : Provident hash p l)
    (hs : (gatewayProgram hash).step p l = some p') : Watched p' := by
  rcases gatewayStep_cases hs with ⟨x, rfl⟩ | ⟨e, rfl, rfl⟩ |
    ⟨i, c, b, b', g', rfl, hi, hregistry, hqueue, rfl⟩ | ⟨i, c, f, f', g', rfl, hi, hstep, rfl⟩
  · -- a new call is not at the queue
    intro k f₁ hk hatQueue
    have hold : p.calls[k]? = some (.infer f₁) := by
      rcases lt_or_ge k p.calls.length with hlt | hge
      · rwa [List.getElem?_append_left hlt] at hk
      · rw [List.getElem?_append_right hge, List.getElem?_singleton] at hk
        split_ifs at hk
        cases x with
        | infer request =>
          cases hk
          rcases hatQueue with hstage | ⟨t, hstage⟩ <;> cases hstage
        | rebuildRing => cases hk
    obtain ⟨hhopeful, haloft⟩ := h k f₁ hold hatQueue
    refine ⟨hhopeful, fun hwaiting => ?_⟩
    obtain ⟨j, f₂, hjk, hj, hnotifies⟩ := haloft hwaiting
    refine ⟨j, f₂, hjk, ?_, hnotifies⟩
    rw [List.getElem?_append_left (List.getElem?_eq_some_iff.mp hj).1, hj]
  · intro k f₁ hk hatQueue
    have hqueue : (e.apply p.shared).queue = p.shared.queue := by cases e <;> rfl
    obtain ⟨id, info, husable, hspares⟩ := hl.changes e rfl k f₁ hk hatQueue
    refine ⟨husable.event hspares, fun hwaiting => (h k f₁ hk hatQueue).2 ?_⟩
    exact hqueue ▸ hwaiting
  · intro k f₁ hk hatQueue
    have hki : k ≠ i := by
      rintro rfl
      rw [Program.getElem?_set hi, if_pos rfl] at hk
      cases hk
    rw [Program.getElem?_set hi, if_neg hki] at hk
    obtain ⟨hhopeful, haloft⟩ := h k f₁ hk hatQueue
    refine ⟨?_, fun hwaiting => ?_⟩
    · show g'.registry.Hopeful f₁.excluded
      rwa [hregistry]
    · obtain ⟨j, f₂, hjk, hj, hnotifies⟩ := haloft (hqueue ▸ hwaiting)
      refine ⟨j, f₂, hjk, ?_, hnotifies⟩
      have hji : j ≠ i := by
        rintro rfl
        rw [hi] at hj
        cases hj
      rw [Program.getElem?_set hi, if_neg hji]
      exact hj
  · by_cases hnotify : ∃ ops, f.pending = .notifyCapacityAvailable :: ops
    · obtain ⟨ops, hpending⟩ := hnotify
      have hnext : g' = Operation.notifyCapacityAvailable.apply p.shared ∧
          f' = { f with pending := ops } := by
        unfold InferCall.step at hstep
        rw [hpending] at hstep
        cases hstep
        exact ⟨rfl, rfl⟩
      obtain ⟨rfl, rfl⟩ := hnext
      exact h.notify h₀ hrun hl hi hpending
    · exact h.move h₀ hrun hl hi hstep fun ops hpending => hnotify ⟨ops, hpending⟩

end

/-! ## Two calls and one slot -/

/-- A call that is blocked with the first ticket. -/
def firstWaiter (prompt : String) : InferCall where
  request := ⟨"client", prompt, 1, false⟩
  stage := .infer (.blocked ⟨0, 30000000000⟩)

end LlmGateway.Gateway
