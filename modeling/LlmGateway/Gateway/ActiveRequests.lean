import LlmGateway.Gateway.InferMove
import LlmGateway.Gateway.Selection
import Mathlib.Data.List.Count

/-!
# `active_requests` counts the dispatches

A dispatch to a replica begins with the `IncrementActive` of a call and ends with its
`DecrementActive`. `InferCall.inFlight` reads the dispatches of a call off its stage and its pending
operations.

1. `step_dispatch`: what a step of a call does to its dispatches.
2. `Accounted`: the dispatches of a call are to known replicas, whose entries are never removed, so
   that no operation on a counter is skipped.
3. `activeRequests_eq`: the counters are the numbers of dispatches in flight, in every state of
   every run.
-/

namespace LlmGateway.Gateway

open Gossip Replica Transition

/-! ## The dispatches of a call -/

/-- The dispatches that the call has begun, or is about to, and has not started to end. -/
def Stage.dispatched : Stage → List String
  | .infer (.streaming s) => [s.replicaId]
  | .hedged (.single s) => [s.replicaId]
  | .hedged (.starting s₁ s₂) => [s₁.replicaId, s₂.replicaId]
  | .hedged (.waiting r) => [r.first.selection.replicaId, r.second.selection.replicaId]
  | .hedged (.joining r _) => [r.first.selection.replicaId, r.second.selection.replicaId]
  | .hedged (.forwarding _ s _) => [s.replicaId]
  | _ => []

/-- The replicas that the call has selected and may still dispatch to. -/
def Stage.selected : Stage → List String
  | .infer (.allowing s) => [s.replicaId]
  | .hedged (.selectingSecond s _) => [s.replicaId]
  | _ => []

/-- The dispatches of the call to a replica between their `IncrementActive` and their
`DecrementActive`. -/
def InferCall.inFlight (f : InferCall) (id : String) : ℕ :=
  f.stage.dispatched.count id - f.pending.count (.incrementActive id) +
    f.pending.count (.decrementActive id)

theorem InferCall.Finished.inFlight {f : InferCall} (h : f.Finished) (id : String) :
    f.inFlight id = 0 := by
  obtain ⟨hpending, status, hstage | hstage⟩ := h <;> rw [InferCall.inFlight, hpending, hstage] <;> rfl

def Operation.isDecrement : Operation → Bool
  | .decrementActive _ => true
  | _ => false

/-- The operations that end dispatches: a notification for each, and some reports. -/
def endings (ids : List String) (reports : List Operation) : List Operation :=
  ids.map .decrementActive ++ ids.map (fun _ => .notifyCapacityAvailable) ++ reports

/-- What a step of a call that has no pending operation does to its dispatches: nothing; or it
begins some; or it ends some. -/
inductive DispatchStep (f f' : InferCall) : Prop
  | quiet : f'.stage.dispatched = f.stage.dispatched → f'.pending = [] → DispatchStep f f'
  | begins : f.stage.dispatched = [] → f'.pending = f'.stage.dispatched.map .incrementActive →
      DispatchStep f f'
  | ends {ids : List String} {reports : List Operation} :
      f.stage.dispatched.Perm (f'.stage.dispatched ++ ids) → (∀ op ∈ reports, op.isRecord = true) →
      f'.pending = endings ids reports → DispatchStep f f'

variable {hash : List UInt8 → ℕ} {g g' : GatewayState} {c : InferChoice} {f f' : InferCall}

/-! ## Selection -/

theorem selected_known {lb lb' : LoadBalancer} {r : ReplicaRegistry} {prompt : String}
    {excluded : List String} {draws : List ℕ} {s : SelectStage} {selection : Selection}
    (h : s.step hash r lb prompt excluded draws = some (lb', .selected (some selection))) :
    r.Known selection.replicaId := by
  cases s with
  | hashing =>
    simp only [SelectStage.step] at h
    split_ifs at h <;> cases h
  | walking points =>
    cases points with
    | nil => cases h
    | cons id points =>
      simp only [SelectStage.step] at h
      split at h
      · rename_i selection' hcandidate
        cases h
        obtain ⟨-, info, hinfo, -, rfl⟩ := candidate_eq_some_iff.mp hcandidate
        exact Option.isSome_iff_exists.mpr ⟨info, hinfo⟩
      · cases h
  | leastConnections =>
    obtain ⟨-, hselection⟩ := Prod.mk.inj (Option.some.inj h)
    obtain ⟨info, hmem, -⟩ := selectByLeastConnections_mem (SelectNext.selected.inj hselection)
    exact Option.isSome_iff_exists.mpr ⟨info, (mem_getAliveReplicas.mp hmem).1⟩

/-! ## One step of a call -/

/-- The replicas of a call's stage. -/
def Stage.replicas (s : Stage) : List String := s.dispatched ++ s.selected

/-- A step adds only known replicas to the stage. -/
def AddsKnown (g : GatewayState) (f f' : InferCall) : Prop :=
  ∀ id ∈ f'.stage.replicas, id ∈ f.stage.replicas ∨ g.registry.Known id

theorem AddsKnown.of_nil (h : f'.stage.replicas = []) : AddsKnown g f f' := by
  intro id hid
  rw [h] at hid
  cases hid

theorem AddsKnown.of_subset (h : f'.stage.replicas ⊆ f.stage.replicas) : AddsKnown g f f' :=
  fun _ hid => Or.inl (h hid)

theorem AddsKnown.of_dispatched (h : f'.stage.dispatched ⊆ f.stage.dispatched)
    (h' : f'.stage.selected = []) : AddsKnown g f f' := by
  intro id hid
  rw [Stage.replicas, h', List.append_nil] at hid
  exact Or.inl (List.mem_append_left _ (h hid))

/-- The operations after a stream end its dispatch. -/
theorem DispatchStep.afterStream {id : String} {streamed : ℤ} (h : f.stage.dispatched = [id])
    (h' : f'.stage.dispatched = [])
    (hpending : f'.pending = InferCall.afterStream id streamed) : DispatchStep f f' := by
  refine @ends _ _ [id] [if streamed < 0 then .recordFailure id else .recordSuccess id] ?_ ?_ hpending
  · rw [h, h']
    rfl
  · intro op hop
    rw [List.mem_singleton.mp hop]
    split_ifs <;> rfl

theorem InferMove.dispatch (h : InferMove hash g c f g' f') (hpending : f.pending = []) :
    DispatchStep f f' ∧ AddsKnown g f f' := by
  cases h with
  | choose hstage hselect | rechoose hstage hselect =>
    refine ⟨.quiet (by rw [hstage]; rfl) hpending, fun id hid => Or.inr ?_⟩
    rw [List.mem_singleton.mp hid]
    exact selected_known hselect
  | allow hstage =>
    exact ⟨.begins (by rw [hstage]; rfl) rfl, .of_subset (by rw [hstage]; exact fun _ h => h)⟩
  | stream hstage =>
    unfold InferCall.streamed
    dsimp only
    split_ifs <;>
      exact ⟨.afterStream (by rw [hstage]; rfl) rfl rfl, .of_nil rfl⟩
  | _ hstage => exact ⟨.quiet (by rw [hstage]; rfl) hpending, .of_nil rfl⟩

theorem threadStep_selections {r r' : Race} {a : Actor} {request : ℕ → GenerateRequest}
    {firstRead : Option GenerateResponse} (h : r.threadStep a request firstRead = some r') :
    r'.first.selection = r.first.selection ∧ r'.second.selection = r.second.selection := by
  obtain ⟨⟨x, id⟩, hracer, h⟩ := Option.bind_eq_some_iff.mp h
  have hset : ∀ x' : Racer, x'.selection = x.selection →
      (r.setRacer a x').first.selection = r.first.selection ∧
        (r.setRacer a x').second.selection = r.second.selection := by
    intro x' hx'
    cases a with
    | main => cases hracer
    | first =>
      cases hracer
      exact ⟨hx', rfl⟩
    | second =>
      cases hracer
      exact ⟨rfl, hx'⟩
  dsimp only at h
  split at h
  · split at h
    · cases h
      exact hset _ rfl
    · split_ifs at h
      cases h
      exact hset _ rfl
  · split_ifs at h <;> cases h
    · exact hset _ rfl
    · exact hset _ rfl
  · cases h
    exact hset _ rfl
  · cases h

/-- The end of a race ends the dispatch to the loser, or both. -/
theorem afterRace_dispatch {r : Race} {winnerId : ℕ}
    (h : f.stage.dispatched = [r.first.selection.replicaId, r.second.selection.replicaId]) :
    DispatchStep f (f.afterRace r winnerId) ∧ AddsKnown g f (f.afterRace r winnerId) := by
  have hboth : ∀ f' : InferCall, f'.stage.replicas = [] →
      f'.pending = endings [r.first.selection.replicaId, r.second.selection.replicaId] [] →
      DispatchStep f f' ∧ AddsKnown g f f' := by
    intro f' hnone hpending
    refine ⟨.ends ?_ (by simp) hpending, .of_nil hnone⟩
    rw [h, (List.append_eq_nil_iff.mp hnone).1]
    rfl
  have hloser : ∀ (f' : InferCall) (winner loser : String) (reports : List Operation),
      f.stage.dispatched.Perm [winner, loser] → f'.stage.dispatched = [winner] →
      f'.stage.selected = [] → (∀ op ∈ reports, op.isRecord = true) →
      f'.pending = endings [loser] reports → DispatchStep f f' ∧ AddsKnown g f f' := by
    intro f' winner loser reports hperm hwinner hselected hreports hpending
    refine ⟨.ends (by rw [hwinner]; exact hperm) hreports hpending, .of_dispatched ?_ hselected⟩
    intro id hid
    rw [hwinner, List.mem_singleton] at hid
    exact hperm.mem_iff.mpr (hid ▸ List.mem_cons_self)
  unfold InferCall.afterRace
  dsimp only
  by_cases hwinner : winnerId = 1
  · rw [if_pos hwinner, if_pos hwinner]
    split
    · exact hboth _ rfl rfl
    · exact hboth _ rfl rfl
    · refine hloser _ _ _ (.recordSuccess _ :: _) (by rw [h]) rfl rfl ?_ rfl
      split_ifs <;> simp [Operation.isRecord]
  · rw [if_neg hwinner, if_neg hwinner]
    split
    · exact hboth _ rfl rfl
    · exact hboth _ rfl rfl
    · refine hloser _ _ _ (.recordSuccess _ :: _) (by rw [h]; exact .swap _ _ _) rfl rfl ?_ rfl
      split_ifs <;> simp [Operation.isRecord]

theorem threadStep_dispatch {r r' : Race} {a : Actor} {request : ℕ → GenerateRequest}
    {firstRead : Option GenerateResponse} (h : r.threadStep a request firstRead = some r')
    (hdispatched : f.stage.dispatched =
      [r.first.selection.replicaId, r.second.selection.replicaId])
    (hdispatched' : f'.stage.dispatched =
      [r'.first.selection.replicaId, r'.second.selection.replicaId])
    (hselected : f'.stage.selected = []) (hpending : f'.pending = []) :
    DispatchStep f f' ∧ AddsKnown g f f' := by
  obtain ⟨h₁, h₂⟩ := threadStep_selections h
  have hsame : f'.stage.dispatched = f.stage.dispatched := by rw [hdispatched', h₁, h₂, hdispatched]
  exact ⟨.quiet hsame hpending, .of_dispatched (hsame ▸ List.Subset.refl _) hselected⟩

theorem hedgeStep_dispatch {s : HedgeStage} (hstage : f.stage = .hedged s) (hpending : f.pending = [])
    (hs : f.hedgeStep hash g c s = some (g', f')) : DispatchStep f f' ∧ AddsKnown g f f' := by
  have hsubset : (Stage.hedged s).replicas ⊆ f.stage.replicas := by
    rw [hstage]
    exact List.Subset.refl _
  cases hedgeMove hs with
  | scan | starve => exact ⟨.quiet (by rw [hstage]; rfl) hpending, .of_nil rfl⟩
  | choose hselect =>
    refine ⟨.quiet (by rw [hstage]; rfl) hpending, fun id hid => Or.inr ?_⟩
    rw [List.mem_singleton.mp hid]
    exact selected_known hselect
  | rescan | start | take | giveUp =>
    exact ⟨.quiet (by rw [hstage]; rfl) hpending, .of_subset hsubset⟩
  | alone => exact ⟨.begins (by rw [hstage]; rfl) rfl, .of_subset hsubset⟩
  | pair hselect =>
    refine ⟨.begins (by rw [hstage]; rfl) rfl, fun id hid => ?_⟩
    rcases List.mem_cons.mp hid with rfl | hid
    · exact Or.inl (hsubset List.mem_cons_self)
    · rw [List.mem_singleton.mp hid]
      exact Or.inr (selected_known hselect)
  | stream => exact ⟨.afterStream (by rw [hstage]; rfl) rfl rfl, .of_nil rfl⟩
  | race _ hthread | late _ hthread =>
    exact threadStep_dispatch hthread (by rw [hstage]; rfl) rfl rfl hpending
  | join => exact afterRace_dispatch (by rw [hstage]; rfl)
  | @forward _ winner =>
    exact ⟨@DispatchStep.ends _ _ [winner.replicaId] [] (by rw [hstage]; rfl) (by simp) rfl,
      .of_nil rfl⟩

/-- **One step of a call** that has no pending operation. -/
theorem step_dispatch (hpending : f.pending = []) (hs : f.step hash g c = some (g', f')) :
    DispatchStep f f' ∧ AddsKnown g f f' := by
  cases stepMove hs with
  | pending hne => cases hpending.symm.trans hne
  | enter _ hstage | enterHedged _ hstage =>
    exact ⟨.quiet (by rw [hstage]; rfl) hpending, .of_nil rfl⟩
  | infer _ hmove => exact hmove.dispatch hpending
  | hedged _ hstage hhedge => exact hedgeStep_dispatch hstage hpending hhedge

/-! ## The accounts of a call -/

section

variable {ids : List String} {reports : List Operation}

/-- Each dispatch that ends is released once and notified once, and nothing begins. -/
theorem count_endings (hreports : ∀ op ∈ reports, op.isRecord = true) :
    (∀ id, (endings ids reports).count (.incrementActive id) = 0) ∧
      (∀ id, (endings ids reports).count (.decrementActive id) = ids.count id) ∧
      (endings ids reports).countP Operation.isDecrement =
        (endings ids reports).count .notifyCapacityAvailable := by
  have hzero : ∀ op : Operation, op.isRecord = false → reports.count op = 0 := by
    intro op hop
    refine List.count_eq_zero.mpr fun hmem => ?_
    rw [hreports op hmem] at hop
    cases hop
  have hnone : reports.countP Operation.isDecrement = 0 := by
    refine List.countP_eq_zero.mpr fun op hmem => ?_
    have hrecord := hreports op hmem
    cases op <;> simp_all [Operation.isRecord, Operation.isDecrement]
  have hincrement : ∀ id, reports.count (.incrementActive id) = 0 := fun id => hzero _ rfl
  have hdecrement : ∀ id, reports.count (.decrementActive id) = 0 := fun id => hzero _ rfl
  have hnotify : reports.count .notifyCapacityAvailable = 0 := hzero _ rfl
  simp only [endings, List.count_append, List.countP_append, hincrement, hdecrement, hnotify, hnone,
    Nat.add_zero]
  induction ids with
  | nil => simp
  | cons id ids ih =>
    obtain ⟨hincrement, hdecrement, hbalance⟩ := ih
    refine ⟨fun id' => ?_, fun id' => ?_, ?_⟩
    · simpa [List.count_cons] using hincrement id'
    · have hcount := hdecrement id'
      simp only [List.map_cons, List.count_cons] at hcount ⊢
      simp at hcount ⊢
      omega
    · simp only [List.map_cons, List.count_cons, List.countP_cons]
      simp [Operation.isDecrement] at hbalance ⊢
      omega

end

/-- The accounts of a call are in order: its replicas are known, and what it is about to begin is
among its dispatches. -/
structure InferCall.Accounted (r : ReplicaRegistry) (f : InferCall) : Prop where
  known : ∀ id ∈ f.stage.replicas, r.Known id
  ending : ∀ id, .decrementActive id ∈ f.pending → r.Known id
  beginning : ∀ id, f.pending.count (.incrementActive id) ≤ f.stage.dispatched.count id

/-- The operation that the next step of the call issues, if any. -/
def InferCall.issues (f : InferCall) : List Operation := f.pending.take 1

theorem InferCall.Accounted.incrementing {id : String} (h : f.Accounted g.registry)
    (hid : .incrementActive id ∈ f.pending) : g.registry.Known id := by
  refine h.known id (List.mem_append_left _ (List.count_pos_iff.mp ?_))
  exact (List.count_pos_iff.mpr hid).trans_le (h.beginning id)

theorem InferCall.Accounted.mono {r r' : ReplicaRegistry} (h : f.Accounted r)
    (hknown : ∀ id, r.Known id → r'.Known id) : f.Accounted r' :=
  ⟨fun id hid => hknown id (h.known id hid), fun id hid => hknown id (h.ending id hid), h.beginning⟩

theorem known_operation {op : Operation} {id : String} (h : g.registry.Known id) :
    (op.apply g).registry.Known id := by
  cases op with
  | incrementActive | decrementActive => exact h.modify _
  | notifyCapacityAvailable | recordSuccess | recordFailure => exact h

/-- **The books of a call** after a step: what it issues is what changes in them. -/
theorem InferCall.Accounted.step (h : f.Accounted g.registry) (hs : f.step hash g c = some (g', f')) :
    f'.Accounted g'.registry ∧
      (∀ id, f'.inFlight id + f.issues.count (.decrementActive id) =
        f.inFlight id + f.issues.count (.incrementActive id)) ∧
      f'.pending.countP Operation.isDecrement + f.issues.countP Operation.isDecrement +
          f.pending.count .notifyCapacityAvailable =
        f'.pending.count .notifyCapacityAvailable + f.issues.count .notifyCapacityAvailable +
          f.pending.countP Operation.isDecrement := by
  rcases InferCall.step_effect hs with ⟨op, ops, hpending, rfl, rfl⟩ | ⟨hpending, -, hregistry⟩
  · have hknown : ∀ id, g.registry.Known id → (op.apply g).registry.Known id :=
      fun id => known_operation
    have hissues : f.issues = [op] := by rw [InferCall.issues, hpending]; rfl
    have hbeginning := h.beginning
    have hending := h.ending
    rw [hpending] at hbeginning hending
    refine ⟨⟨fun id hid => hknown id (h.known id hid),
      fun id hid => hknown id (hending id (List.mem_cons_of_mem _ hid)), fun id => ?_⟩,
      fun id => ?_, ?_⟩
    · have hle := hbeginning id
      rw [List.count_cons] at hle
      dsimp only
      omega
    · have hle := hbeginning id
      simp only [InferCall.inFlight, hpending, hissues, List.count_cons, List.count_nil] at hle ⊢
      split_ifs at hle ⊢ <;> omega
    · simp only [hpending, hissues, List.count_cons, List.countP_cons, List.count_nil,
        List.countP_nil]
      omega
  · obtain ⟨hstep, hadds⟩ := step_dispatch hpending hs
    have hissues : f.issues = [] := by rw [InferCall.issues, hpending]; rfl
    have hknown : ∀ id ∈ f'.stage.replicas, g'.registry.Known id := by
      intro id hid
      rw [hregistry]
      exact (hadds id hid).elim (h.known id) fun hid => hid
    rw [hissues, hpending]
    simp only [InferCall.inFlight, hpending, List.count_nil, List.countP_nil, Nat.add_zero,
      Nat.sub_zero]
    cases hstep with
    | quiet hdispatched hquiet =>
      rw [hdispatched, hquiet]
      exact ⟨⟨hknown, by simp [hquiet], by simp [hquiet]⟩, by simp, rfl⟩
    | begins hnone hbegins =>
      have hincrement : ∀ id, f'.pending.count (.incrementActive id) =
          f'.stage.dispatched.count id := fun id => by
        rw [hbegins]
        exact List.count_map_of_injective _ _ (fun _ _ h => Operation.incrementActive.inj h) id
      have hdecrement : ∀ id, f'.pending.count (.decrementActive id) = 0 := fun id =>
        List.count_eq_zero.mpr (by simp [hbegins])
      refine ⟨⟨hknown, fun id hid => ?_, fun id => (hincrement id).le⟩, fun id => ?_, ?_⟩
      · exact absurd hid (List.count_eq_zero.mp (hdecrement id))
      · rw [hincrement, hdecrement, hnone, List.count_nil, Nat.sub_self]
      · have hnotify : f'.pending.count .notifyCapacityAvailable = 0 :=
          List.count_eq_zero.mpr (by simp [hbegins])
        rw [hnotify, hbegins, List.countP_eq_zero]
        intro op hop
        obtain ⟨id, -, rfl⟩ := List.mem_map.mp hop
        exact Bool.false_ne_true
    | @ends ids reports hperm hreports hends =>
      obtain ⟨hincrement, hdecrement, hbalance⟩ := @count_endings ids reports hreports
      refine ⟨⟨hknown, fun id hid => ?_, fun id => ?_⟩, fun id => ?_, ?_⟩
      · have hcount := List.count_pos_iff.mpr hid
        rw [hends, hdecrement] at hcount
        have hmem := hperm.mem_iff.mpr (List.mem_append_right _ (List.count_pos_iff.mp hcount))
        rw [hregistry]
        exact h.known id (List.mem_append_left _ hmem)
      · rw [hends, hincrement]
        exact Nat.zero_le _
      · rw [hends, hincrement, hdecrement, hperm.count_eq, List.count_append, Nat.sub_zero]
      · rw [hends, hbalance]

/-! ## The counters under one step -/

theorem active_operation {op : Operation} {id : String}
    (hknown : ∀ id', op = .incrementActive id' ∨ op = .decrementActive id' →
      g.registry.Known id') :
    (op.apply g).registry.active id + [op].count (.decrementActive id) =
      g.registry.active id + [op].count (.incrementActive id) := by
  cases op with
  | incrementActive id' =>
    have hactive : (g.registry.incrementActive id').active id =
        g.registry.active id + if id = id' then 1 else 0 :=
      ReplicaRegistry.active_modify (hknown id' (Or.inl rfl)) fun _ => rfl
    show (g.registry.incrementActive id').active id + _ = _
    rw [hactive]
    by_cases hid : id = id'
    · subst hid
      simp
    · simp [hid, Ne.symm hid]
  | decrementActive id' =>
    have hactive : (g.registry.decrementActive id').active id =
        g.registry.active id + if id = id' then -1 else 0 :=
      ReplicaRegistry.active_modify (hknown id' (Or.inr rfl)) fun _ => rfl
    show (g.registry.decrementActive id').active id + _ = _
    rw [hactive]
    by_cases hid : id = id'
    · subst hid
      simp
    · simp [hid, Ne.symm hid]
  | notifyCapacityAvailable | recordSuccess | recordFailure =>
    show g.registry.active id + _ = _
    simp

/-- An event changes no counter, and no replica is forgotten. -/
theorem event_counters {e : GatewayEvent} (id : String) :
    (e.apply g).registry.active id = g.registry.active id ∧
      (g.registry.Known id → (e.apply g).registry.Known id) := by
  cases e with
  | tick ns => exact ⟨rfl, fun h => h⟩
  | updateFromGossip id' u =>
    exact ⟨ReplicaRegistry.active_updateFromGossip u, fun h => h.updateFromGossip u⟩
  | setDraining id' draining => exact ⟨ReplicaRegistry.active_setDraining, fun h => h.modify _⟩
  | setGrpcAddress id' address => exact ⟨ReplicaRegistry.active_setGrpcAddress, fun h => h.set⟩

theorem InferCall.step_known (hs : f.step hash g c = some (g', f')) {id : String}
    (h : g.registry.Known id) : g'.registry.Known id := by
  rcases InferCall.step_effect hs with ⟨op, ops, -, rfl, -⟩ | ⟨-, -, hregistry⟩
  · exact known_operation h
  · rwa [hregistry]

theorem step_counters (hf : f.Accounted g.registry) (hs : f.step hash g c = some (g', f'))
    (id : String) :
    g'.registry.active id + f.issues.count (.decrementActive id) =
      g.registry.active id + f.issues.count (.incrementActive id) := by
  rcases InferCall.step_effect hs with ⟨op, ops, hpending, rfl, -⟩ | ⟨hpending, -, hregistry⟩
  · have hissues : f.issues = [op] := by rw [InferCall.issues, hpending]; rfl
    have hmem : op ∈ f.pending := by rw [hpending]; exact List.mem_cons_self
    rw [hissues]
    refine active_operation fun id' hop => ?_
    rcases hop with rfl | rfl
    · exact hf.incrementing hmem
    · exact hf.ending id' hmem
  · have hissues : f.issues = [] := by rw [InferCall.issues, hpending]; rfl
    rw [hissues, hregistry]
    rfl

/-! ## Every run -/

def GatewayCall.inFlight : GatewayCall → String → ℕ
  | .infer f, id => f.inFlight id
  | .rebuildRing _, _ => 0

/-- The dispatches to a replica in flight. -/
def inFlight (p : GatewayPool) (id : String) : ℕ := (p.calls.map (·.inFlight id)).sum

/-- What a call issues in its next step. -/
def GatewayCall.issues : GatewayCall → List Operation
  | .infer f => f.issues
  | .rebuildRing _ => []

/-- The operations that the call `i` has issued in a run from `g`. -/
def issued (hash : List UInt8 → ℕ) (g : GatewayState) (i : ℕ) (es : List GatewayLabel) :
    List Operation :=
  Program.history (fun _ t _ => t.issues) (gatewayProgram hash) g i es

def GatewayCall.Accounted (g : GatewayState) (t : GatewayCall) : Prop :=
  ∀ f, t = .infer f → f.Accounted g.registry

theorem accounted_preserves (hash : List UInt8 → ℕ) :
    Program.Preserves (gatewayProgram hash) (fun _ => True) GatewayCall.Accounted where
  start := by
    rintro g (request | _) - f heq
    · cases heq
      exact ⟨by simp [Stage.replicas, Stage.dispatched, Stage.selected], by simp, by simp⟩
    · cases heq
  call := by
    intro g t c g' t' _ ht hs
    refine ⟨trivial, fun f₁ heq => ?_⟩
    rcases gatewayCall_cases hs with ⟨f, f', rfl, rfl, hf⟩ | ⟨b, b', rfl, rfl, -⟩
    · cases heq
      exact ((ht f rfl).step hf).1
    · cases heq
  others := by
    intro g t c g' t' _ _ hs u hu f heq
    refine (hu f heq).mono fun id hid => ?_
    rcases gatewayCall_cases hs with ⟨f, f', rfl, rfl, hf⟩ | ⟨b, b', rfl, rfl, hregistry, -⟩
    · exact InferCall.step_known hf hid
    · rwa [hregistry]
  env := by
    intro g e g' _ hs
    cases hs
    exact ⟨trivial, fun u hu f heq => (hu f heq).mono fun id => (event_counters id).2⟩

variable {g₀ : GatewayState} {es : List GatewayLabel} {p : GatewayPool}

theorem accounted_of_run (hrun : Run (gatewayProgram hash).step ⟨g₀, []⟩ es p) :
    ∀ t ∈ p.calls, t.Accounted p.shared :=
  ((accounted_preserves hash).invariant trivial hrun).calls

/-- What a call has issued, `ops`, and what it is at. -/
structure InferCall.Books (f : InferCall) (ops : List Operation) : Prop where
  dispatches : ∀ id, ops.count (.incrementActive id) =
    f.inFlight id + ops.count (.decrementActive id)
  notified : ops.countP Operation.isDecrement + f.pending.countP Operation.isDecrement =
    ops.count .notifyCapacityAvailable + f.pending.count .notifyCapacityAvailable

theorem InferCall.Books.step {ops : List Operation} (h : f.Books ops)
    (hf : f.Accounted g.registry) (hs : f.step hash g c = some (g', f')) :
    f'.Books (ops ++ f.issues) := by
  obtain ⟨-, hdispatches, hbalance⟩ := hf.step hs
  constructor
  · intro id
    have hold := h.dispatches id
    have hnew := hdispatches id
    rw [List.count_append, List.count_append]
    omega
  · have hold := h.notified
    rw [List.countP_append, List.count_append]
    omega

theorem books_of_run (hrun : Run (gatewayProgram hash).step ⟨g₀, []⟩ es p) {i : ℕ}
    (hi : p.calls[i]? = some (.infer f)) : f.Books (issued hash g₀ i es) := by
  refine Program.history_invariant (fun _ _ => accounted_of_run)
    (Q := fun ops t => ∀ f, t = .infer f → f.Books ops) ?_ ?_ hrun hi f rfl
  · rintro (request | _) f heq
    · cases heq
      exact ⟨fun _ => rfl, rfl⟩
    · cases heq
  · intro g t c g' t' ops ht hbooks hs f₁ heq
    rcases gatewayCall_cases hs with ⟨f, f', rfl, rfl, hf⟩ | ⟨b, b', rfl, rfl, -⟩
    · cases heq
      exact (hbooks f rfl).step (ht f rfl) hf
    · cases heq

theorem active_eq_inFlight (h₀ : ∀ id, g₀.registry.active id = 0)
    (hrun : Run (gatewayProgram hash).step ⟨g₀, []⟩ es p) (id : String) :
    p.shared.registry.active id = inFlight p id := by
  induction hrun with
  | nil => exact h₀ id
  | @snoc es l p p' hrun hs ih =>
    unfold inFlight at ih ⊢
    cases Program.step_cases hs with
    | spawn x =>
      have hnone : ((gatewayProgram hash).start x).inFlight id = 0 := by
        cases x <;> rfl
      rw [List.map_append, List.sum_append, List.map_singleton, List.sum_singleton, hnone]
      exact ih
    | env henv =>
      cases henv
      exact (event_counters id).1.trans ih
    | @call i c t t' g' hi ht =>
      have haccounted := accounted_of_run hrun t (List.mem_of_getElem? hi)
      have hsum : ((p.calls.set i t').map (·.inFlight id)).sum + t.inFlight id =
          (p.calls.map (·.inFlight id)).sum + t'.inFlight id := Program.sum_set hi
      dsimp only
      rcases gatewayCall_cases ht with ⟨f, f', rfl, rfl, hf⟩ | ⟨b, b', rfl, rfl, hregistry, -⟩
      · obtain ⟨-, hdispatches, -⟩ := (haccounted f rfl).step hf
        have hcounters := step_counters (haccounted f rfl) hf id
        have hflight : (GatewayCall.infer f').inFlight id + f.issues.count (.decrementActive id) =
            (GatewayCall.infer f).inFlight id + f.issues.count (.incrementActive id) :=
          hdispatches id
        omega
      · have hnone : ∀ b : RebuildCall, (GatewayCall.rebuildRing b).inFlight id = 0 := fun _ => rfl
        rw [hnone, hnone] at hsum
        rw [hregistry, ih]
        omega

/-- **`active_requests`.** In every state of every run of a new gateway the counter of a replica is
the number of dispatches to it that a call has begun and not ended, and it is 0 when every call has
returned. A call that has returned has issued one notification for each dispatch it ended. -/
theorem activeRequests_eq (hash : List UInt8 → ℕ) (virtualNodes : ℤ)
    (config : CircuitBreaker.Config) (maxSize : ℤ) (es : List GatewayLabel) (p : GatewayPool)
    (hrun : Run (gatewayProgram hash).step (newGateway virtualNodes config maxSize) es p) :
    (∀ id info, p.shared.registry.getReplica id = some info →
      info.activeRequests = inFlight p id ∧ 0 ≤ info.activeRequests ∧
      ((∀ f, .infer f ∈ p.calls → f.Finished) → info.activeRequests = 0)) ∧
    ∀ i f, p.calls[i]? = some (.infer f) →
      let ops := issued hash (newGateway virtualNodes config maxSize).shared i es
      (∀ id, ops.count (.incrementActive id) = f.inFlight id + ops.count (.decrementActive id)) ∧
      (f.Finished → ops.count .notifyCapacityAvailable = ops.countP Operation.isDecrement) := by
  constructor
  · intro id info hinfo
    have hcounter := active_eq_inFlight (fun _ => rfl) hrun id
    rw [ReplicaRegistry.active_eq hinfo] at hcounter
    refine ⟨hcounter, by omega, fun hfinished => ?_⟩
    rw [hcounter, inFlight, Nat.cast_eq_zero, List.sum_eq_zero_iff_forall_eq_nat]
    intro n hn
    obtain ⟨t, ht, rfl⟩ := List.mem_map.mp hn
    cases t with
    | infer f => exact (hfinished f ht).inFlight id
    | rebuildRing b => rfl
  · intro i f hi ops
    have hbooks : f.Books ops := books_of_run hrun hi
    refine ⟨hbooks.dispatches, ?_⟩
    rintro ⟨hpending, -⟩
    have hnotified := hbooks.notified
    rw [hpending] at hnotified
    exact hnotified.symm

/-- The first thread wins the race, the second one reads nothing, and the loser is released. -/
def raceWon : List GatewayLabel :=
  [.call 0 { actor := .first, firstRead := some ⟨"token_0", true⟩ }, .call 0 { actor := .first },
    .call 0 { actor := .first }, .call 0 {}, .call 0 { actor := .second }] ++
  List.replicate 4 (.call 0 {})

theorem activeRequests_eq_race :
    ∃ p, Run (gatewayProgram fun _ => 0).step (newGateway 150 {} 100) (hedgedStart ++ raceWon) p ∧
      inFlight p "replica-1" = 1 ∧ inFlight p "replica-2" = 0 := by
  have hrun : Run (gatewayProgram fun _ => 0).step (newGateway 150 {} 100) (hedgedStart ++ raceWon) _ :=
    run_get (by decide +kernel)
  obtain ⟨hcounters, -⟩ := activeRequests_eq _ _ _ _ _ _ hrun
  refine ⟨_, hrun, ?_, ?_⟩
  · have hinfo := hcounters "replica-1" _ (Option.some_get (by decide +kernel)).symm
    exact Int.ofNat.inj (hinfo.1.symm.trans (by decide +kernel))
  · have hinfo := hcounters "replica-2" _ (Option.some_get (by decide +kernel)).symm
    exact Int.ofNat.inj (hinfo.1.symm.trans (by decide +kernel))

end LlmGateway.Gateway
