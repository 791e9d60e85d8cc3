import LlmGateway.Gateway.InferMove
import LlmGateway.Gateway.Failover
import LlmGateway.Gateway.Selection

/-!
# The replicas a call turns to

The excluded set of `Infer` is what keeps its retry loop from coming back to a replica: everything
that `SelectReplica` selects is outside it, and every lost round adds the replica it was lost with.

1. `SelectStage.selected_notMem`: the two tiers leave out the excluded replicas.
2. `InferCall.Exclusive`: the replicas excluded so far are different ones, the streams so far were
   with excluded ones, and there is a round for each.
3. `dispatches_distinct`: a call has at most `max_retries` streams, all with different replicas, and
   the client gets them one after the other.
-/

namespace LlmGateway.Gateway

open Transition Replica

variable {hash : List UInt8 → ℕ} {g g' : GatewayState} {c : InferChoice} {f f' : InferCall}

/-! ## What is selected -/

theorem SelectStage.selected_notMem {r : ReplicaRegistry} {lb lb' : LoadBalancer} {prompt : String}
    {excluded : List String} {draws : List ℕ} {s : SelectStage} {selection : Selection}
    (hs : s.step hash r lb prompt excluded draws = some (lb', .selected (some selection))) :
    selection.replicaId ∉ excluded := by
  cases s with
  | hashing =>
    simp only [SelectStage.step] at hs
    split_ifs at hs <;> cases hs
  | walking points =>
    cases points with
    | nil => cases hs
    | cons id points =>
      simp only [SelectStage.step] at hs
      split at hs
      · rename_i hcandidate
        cases hs
        obtain ⟨hexcluded, info, -, -, rfl⟩ := candidate_eq_some_iff.mp hcandidate
        exact hexcluded
      · cases hs
  | leastConnections =>
    have hselected : r.selectByLeastConnections excluded draws = some selection := by
      simp only [SelectStage.step, Option.some.injEq, Prod.mk.injEq, SelectNext.selected.injEq] at hs
      exact hs.2
    obtain ⟨info, -, hpickable, -⟩ := selectByLeastConnections_mem hselected
    exact hpickable.1

/-! ## The rounds of a call -/

/-- The streams so far were with replicas that are excluded now, in rounds that are over. -/
structure Spent (excluded : List String) (streams : List Attempt) (attempt : ℕ) : Prop where
  excluded : ∀ a ∈ streams, a.replicaId ∈ excluded
  rounds : streams.length ≤ attempt

abbrev InferCall.Spent (f : InferCall) : Prop := Gateway.Spent f.excluded f.streams f.attempt

/-- What holds at a stage: inside a round there is an attempt left for it. -/
def InferCall.AtStage (f : InferCall) : Stage → Prop
  | .infer (.returned _) => f.streams.length ≤ maxRetries
  | .infer .looping => f.Spent ∧ f.attempt ≤ maxRetries
  | .infer (.allowing selection) | .infer (.streaming selection) =>
    f.Spent ∧ f.attempt < maxRetries ∧ selection.replicaId ∉ f.excluded
  | .infer _ => f.Spent ∧ f.attempt < maxRetries
  | .entered => f.streams = [] ∧ f.attempt = 0
  | .hedged _ => f.streams = []

/-- The rounds of a call concern different replicas, and the client has what their streams
forwarded. -/
structure InferCall.Exclusive (f : InferCall) : Prop where
  excluded_nodup : f.excluded.Nodup
  nodup : (f.streams.map Attempt.replicaId).Nodup
  atStage : f.AtStage f.stage
  written : f.Plain → f.written =
    f.streams.flatMap fun a => (streamFromReplica a.replicaId a.stream).1

theorem InferCall.exclusive_start (request : InferRequest) :
    InferCall.Exclusive { request } where
  excluded_nodup := List.nodup_nil
  nodup := List.nodup_nil
  atStage := ⟨rfl, rfl⟩
  written _ := rfl

theorem InferCall.Exclusive.written_of_infer (h : f.Exclusive) {s : InferStage}
    (hstage : f.stage = .infer s) :
    f.written = f.streams.flatMap fun a => (streamFromReplica a.replicaId a.stream).1 :=
  h.written (plain_of_infer hstage)

theorem InferCall.Exclusive.move (h : f.Exclusive) (hexcluded : f'.excluded = f.excluded)
    (hstreams : f'.streams = f.streams) (hwritten : f'.written = f.written)
    (hplain : f'.Plain → f.Plain) (hstage : f'.AtStage f'.stage) : f'.Exclusive where
  excluded_nodup := by rw [hexcluded]; exact h.excluded_nodup
  nodup := by rw [hstreams]; exact h.nodup
  atStage := hstage
  written hp := by rw [hwritten, hstreams]; exact h.written (hplain hp)

/-- A lost round: the replica is excluded from now on. -/
theorem InferCall.Exclusive.retryWithout (h : f.Exclusive) {id : String} {s : InferStage}
    (hstage : f.stage = .infer s) (hspent : f.Spent) (hattempt : f.attempt < maxRetries)
    (hid : id ∉ f.excluded) : (f.retryWithout id).Exclusive where
  excluded_nodup := by
    refine List.nodup_append.mpr ⟨h.excluded_nodup, List.nodup_singleton _, ?_⟩
    intro a ha b hb heq
    rw [List.mem_singleton.mp hb] at heq
    exact hid (heq ▸ ha)
  nodup := h.nodup
  atStage := by
    refine ⟨⟨fun a ha => List.mem_append_left _ (hspent.excluded a ha), ?_⟩, hattempt⟩
    exact hspent.rounds.trans (Nat.le_succ _)
  written _ := h.written_of_infer hstage

/-- A round with a stream: its replica is a new one. -/
theorem InferCall.Exclusive.streamed (h : f.Exclusive) {selection : Selection} {s : InferStage}
    (hstage : f.stage = .infer s) (hspent : f.Spent) (hattempt : f.attempt < maxRetries)
    (hid : selection.replicaId ∉ f.excluded) (stream : ReplicaStream) :
    (f.streamed selection stream (streamFromReplica selection.replicaId stream).1
      (streamFromReplica selection.replicaId stream).2).Exclusive := by
  have hnodup : ((f.streams ++ [(⟨selection.replicaId, f.tokensSent, stream⟩ : Attempt)]).map
      Attempt.replicaId).Nodup := by
    rw [List.map_append]
    refine List.nodup_append.mpr ⟨h.nodup, List.nodup_singleton _, ?_⟩
    intro a ha b hb heq
    obtain ⟨x, hx, rfl⟩ := List.mem_map.mp ha
    cases List.mem_singleton.mp hb
    have hx' := hspent.excluded x hx
    rw [heq] at hx'
    exact hid hx'
  have hexcluded : (f.excluded ++ [selection.replicaId]).Nodup := by
    refine List.nodup_append.mpr ⟨h.excluded_nodup, List.nodup_singleton _, ?_⟩
    intro a ha b hb heq
    rw [List.mem_singleton.mp hb] at heq
    exact hid (heq ▸ ha)
  have hwritten : f.written ++ (streamFromReplica selection.replicaId stream).1 =
      (f.streams ++ [(⟨selection.replicaId, f.tokensSent, stream⟩ : Attempt)]).flatMap
        fun a => (streamFromReplica a.replicaId a.stream).1 := by
    rw [List.flatMap_append, h.written_of_infer hstage, List.flatMap_singleton]
  have hlength : (f.streams ++ [(⟨selection.replicaId, f.tokensSent, stream⟩ : Attempt)]).length ≤
      f.attempt + 1 := by
    rw [List.length_append, List.length_singleton]
    exact Nat.succ_le_succ hspent.rounds
  have hall : ∀ a ∈ f.streams ++ [(⟨selection.replicaId, f.tokensSent, stream⟩ : Attempt)],
      a.replicaId ∈ f.excluded ++ [selection.replicaId] := by
    intro a ha
    rcases List.mem_append.mp ha with ha | ha
    · exact List.mem_append_left _ (hspent.excluded a ha)
    · rw [List.mem_singleton.mp ha]
      exact List.mem_append_right _ List.mem_cons_self
  unfold InferCall.streamed
  dsimp only
  split_ifs
  · exact ⟨hexcluded, hnodup, ⟨⟨hall, hlength⟩, hattempt⟩, fun _ => hwritten⟩
  · exact ⟨h.excluded_nodup, hnodup, hlength.trans hattempt, fun _ => hwritten⟩
  · exact ⟨hexcluded, hnodup, ⟨⟨hall, hlength⟩, hattempt⟩, fun _ => hwritten⟩

theorem InferCall.Exclusive.infer (h : f.Exclusive) (hmove : InferMove hash g c f g' f') :
    f'.Exclusive := by
  have hstage' := h.atStage
  cases hmove with
  | cancel hstage | leave hstage =>
    rw [hstage] at hstage'
    obtain ⟨hspent, hattempt⟩ := hstage'
    exact h.move rfl rfl rfl (fun _ => plain_of_infer hstage) (hspent.rounds.trans hattempt)
  | select hstage hattempt =>
    rw [hstage] at hstage'
    exact h.move rfl rfl rfl (fun _ => plain_of_infer hstage) ⟨hstage'.1, hattempt⟩
  | scan hstage | starve hstage | pass hstage | block hstage | serve hstage | rescan hstage =>
    rw [hstage] at hstage'
    exact h.move rfl rfl rfl (fun _ => plain_of_infer hstage) hstage'
  | choose hstage hselect | rechoose hstage hselect =>
    rw [hstage] at hstage'
    exact h.move rfl rfl rfl (fun _ => plain_of_infer hstage)
      ⟨hstage'.1, hstage'.2, SelectStage.selected_notMem hselect⟩
  | reject hstage | giveUp hstage =>
    rw [hstage] at hstage'
    obtain ⟨hspent, hattempt⟩ := hstage'
    exact h.move rfl rfl rfl (fun _ => plain_of_infer hstage) (hspent.rounds.trans hattempt.le)
  | retry hstage =>
    rw [hstage] at hstage'
    obtain ⟨hspent, hattempt⟩ := hstage'
    exact h.move rfl rfl rfl (fun _ => plain_of_infer hstage)
      ⟨⟨hspent.excluded, hspent.rounds.trans (Nat.le_succ _)⟩, hattempt⟩
  | allow hstage =>
    rw [hstage] at hstage'
    exact h.move rfl rfl rfl (fun _ => plain_of_infer hstage) hstage'
  | refuse hstage =>
    rw [hstage] at hstage'
    exact h.retryWithout hstage hstage'.1 hstage'.2.1 hstage'.2.2
  | stream hstage =>
    rw [hstage] at hstage'
    exact h.streamed hstage hstage'.1 hstage'.2.1 hstage'.2.2 c.stream

theorem HedgeMove.frame {s : HedgeStage} (h : HedgeMove hash g c f s g' f') :
    f'.streams = f.streams ∧ f'.excluded = f.excluded ∧ ∃ s', f'.stage = .hedged s' := by
  cases h with
  | join =>
    refine ⟨?_, ?_, f.afterRace_hedged _ _⟩ <;>
    · unfold InferCall.afterRace
      dsimp only
      split <;> rfl
  | _ => exact ⟨rfl, rfl, _, rfl⟩

/-- **One step of a call.** -/
theorem InferCall.Exclusive.step (h : f.Exclusive) (hs : f.step hash g c = some (g', f')) :
    f'.Exclusive := by
  have hstage' := h.atStage
  cases stepMove hs with
  | pending => exact h.move rfl rfl rfl (fun hp => hp) hstage'
  | enter _ hstage =>
    rw [hstage] at hstage'
    obtain ⟨hnil, hzero⟩ := hstage'
    have hspent : f.Spent := ⟨by rw [hnil]; simp, by rw [hnil]; exact Nat.zero_le _⟩
    refine h.move rfl rfl rfl (fun _ s hs => by rw [hstage] at hs; cases hs) ⟨hspent, ?_⟩
    show f.attempt ≤ maxRetries
    rw [hzero]
    exact Nat.zero_le _
  | enterHedged _ hstage =>
    rw [hstage] at hstage'
    exact h.move rfl rfl rfl (fun hp => absurd rfl (hp _)) hstage'.1
  | infer _ hmove => exact h.infer hmove
  | hedged _ hstage hhedge =>
    rw [hstage] at hstage'
    obtain ⟨hstreams, hexcluded, s', hs'⟩ := (hedgeMove hhedge).frame
    refine ⟨hexcluded ▸ h.excluded_nodup, hstreams ▸ h.nodup, ?_, fun hp => absurd hs' (hp s')⟩
    rw [hs']
    exact hstreams.trans hstage'

theorem exclusive_of_run {g₀ : GatewayState} {es : List GatewayLabel} {p : GatewayPool}
    (hrun : Run (gatewayProgram hash).step ⟨g₀, []⟩ es p) (hf : .infer f ∈ p.calls) :
    f.Exclusive :=
  inferCall_invariant InferCall.exclusive_start (fun _ _ _ _ _ h hs => h.step hs) hrun hf

theorem InferCall.Exclusive.length_streams (h : f.Exclusive) : f.streams.length ≤ maxRetries := by
  have hstage := h.atStage
  cases hs : f.stage with
  | entered =>
    rw [hs] at hstage
    rw [hstage.1]
    exact Nat.zero_le _
  | infer s =>
    rw [hs] at hstage
    cases s with
    | looping => exact hstage.1.rounds.trans hstage.2
    | selecting | queueing | blocked | reselecting => exact hstage.1.rounds.trans hstage.2.le
    | allowing | streaming => exact hstage.1.rounds.trans hstage.2.1.le
    | returned => exact hstage
  | hedged s =>
    rw [hs] at hstage
    rw [show f.streams = [] from hstage]
    exact Nat.zero_le _

/-- **A call never comes back to a replica.** In every run of a gateway, whatever the replicas, the
breakers, the queue, the other calls and the gossip layer do: an `Infer` call that is not hedged
opens at most `max_retries` streams, all of them to different replicas; it never turns again to a
replica it has excluded, be it for an open circuit or for its stream; and what its client gets is
what these streams forwarded, one replica after the other. -/
theorem dispatches_distinct (hash : List UInt8 → ℕ) (g₀ : GatewayState) (es : List GatewayLabel)
    (p : GatewayPool) (hrun : Run (gatewayProgram hash).step ⟨g₀, []⟩ es p) :
    ∀ f, .infer f ∈ p.calls → f.Plain →
      f.streams.length ≤ maxRetries ∧ (f.streams.map Attempt.replicaId).Nodup ∧ f.excluded.Nodup ∧
      (∀ selection, f.stage = .infer (.streaming selection) → selection.replicaId ∉ f.excluded ∧
        selection.replicaId ∉ f.streams.map Attempt.replicaId) ∧
      f.written = f.streams.flatMap fun a => (streamFromReplica a.replicaId a.stream).1 := by
  intro f hf hplain
  have h := exclusive_of_run hrun hf
  refine ⟨h.length_streams, h.nodup, h.excluded_nodup, ?_, h.written hplain⟩
  intro selection hstage
  have hstage' := h.atStage
  rw [hstage] at hstage'
  refine ⟨hstage'.2.2, fun hmem => ?_⟩
  obtain ⟨a, ha, heq⟩ := List.mem_map.mp hmem
  exact hstage'.2.2 (heq ▸ hstage'.1.excluded a ha)

theorem dispatches_distinct_failover :
    let first : ReplicaStream := ⟨[{ response := ⟨"token_0", false⟩ }], false⟩
    let es := twoReplicas ++ attemptWith [1] first ++ attemptWith [] wholeStream
    let f := servedBySecond first [⟨"token_0", false, "replica-1"⟩]
    ∃ p, Run (gatewayProgram fun _ => 0).step (newGateway 150 {} 100) es p ∧
      .infer f ∈ p.calls ∧ (f.streams.map Attempt.replicaId).Nodup ∧ f.excluded.Nodup := by
  intro first es f
  have hrun : Run (gatewayProgram fun _ => 0).step (newGateway 150 {} 100) es _ :=
    run_get (by decide +kernel)
  have hcalls : ((exec (gatewayProgram fun _ => 0).step (newGateway 150 {} 100) es).get
      (by decide +kernel)).calls = [.infer f] := by decide +kernel
  have hmem : .infer f ∈ ((exec (gatewayProgram fun _ => 0).step (newGateway 150 {} 100) es).get
      (by decide +kernel)).calls := by
    rw [hcalls]
    exact List.mem_singleton_self _
  have h := dispatches_distinct _ _ es _ hrun f hmem (by intro s hs; cases hs)
  exact ⟨_, hrun, hmem, h.2.1, h.2.2.1⟩

end LlmGateway.Gateway
