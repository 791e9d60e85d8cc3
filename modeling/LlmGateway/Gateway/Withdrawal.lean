import LlmGateway.Gateway.ArrivalOrder

/-!
# A replica taken out of the routing

While a replica is draining, `DEAD` or unknown in the registry, no call comes by it: not by the ring
nor by least connections, not as the second replica of a hedged call, and not after a wait in the
queue. A call that is at the replica was there when it was taken out, and has opened no stream
since.
-/

namespace LlmGateway.Gateway

open Transition

/-- The registry offers the replica to new requests. -/
def ReplicaRegistry.Offers (r : ReplicaRegistry) (id : String) : Prop :=
  ∃ info, r.getReplica id = some info ∧ info.draining = false ∧ info.gossipState ≠ .dead

variable {hash : List UInt8 → ℕ} {g g' : GatewayState} {c : InferChoice} {f f' : InferCall}
  {id : String}

theorem offers_of_selected {lb lb' : LoadBalancer} {r : ReplicaRegistry} {prompt : String}
    {excluded : List String} {draws : List ℕ} {s : SelectStage} {selection : Selection}
    (hs : s.step hash r lb prompt excluded draws = some (lb', .selected (some selection))) :
    r.Offers selection.replicaId := by
  cases s with
  | hashing =>
    simp only [SelectStage.step] at hs
    split_ifs at hs <;> cases hs
  | walking points =>
    cases points with
    | nil => cases hs
    | cons id points =>
      simp only [SelectStage.step] at hs
      split at hs
      · rename_i hcandidate
        cases hs
        obtain ⟨-, info, hinfo, haccepts, rfl⟩ := candidate_eq_some_iff.mp hcandidate
        simp only [ReplicaInfo.accepts, Bool.and_eq_true, Bool.not_eq_true', decide_eq_true_eq]
          at haccepts
        exact ⟨info, hinfo, haccepts.1.1, haccepts.1.2⟩
      · cases hs
  | leastConnections =>
    obtain ⟨-, hselection⟩ := Prod.mk.inj (Option.some.inj hs)
    obtain ⟨info, hmem, -⟩ := selectByLeastConnections_mem (SelectNext.selected.inj hselection)
    obtain ⟨hinfo, hdead, hdraining, -⟩ := mem_getAliveReplicas.mp hmem
    exact ⟨info, hinfo, hdraining, hdead⟩

/-- After the step the call has the replica only if it had it before, and has opened no stream. -/
def Keeps (id : String) (f f' : InferCall) : Prop :=
  id ∈ f'.stage.replicas → id ∈ f.stage.replicas ∧ f'.streams = f.streams

theorem Keeps.of_nil (h : f'.stage.replicas = []) : Keeps id f f' := by
  intro hid
  rw [h] at hid
  cases hid

theorem Keeps.of_subset (hstage : f'.stage.replicas ⊆ f.stage.replicas)
    (hstreams : f'.streams = f.streams) : Keeps id f f' :=
  fun hid => ⟨hstage hid, hstreams⟩

theorem InferMove.keeps (h : InferMove hash g c f g' f') (hclosed : ¬ g.registry.Offers id) :
    Keeps id f f' := by
  cases h with
  | choose hstage hselect | rechoose hstage hselect =>
    intro hid
    rw [List.mem_singleton.mp hid] at hclosed
    exact absurd (offers_of_selected hselect) hclosed
  | allow hstage => exact .of_subset (by rw [hstage]; exact fun _ h => h) rfl
  | stream hstage =>
    refine .of_nil ?_
    rcases stage_streamed f _ c.stream _ _ with hnext | hnext <;> rw [hnext] <;> rfl
  | _ hstage => exact .of_nil rfl

theorem afterRace_replicas (f : InferCall) (r : Race) (winnerId : ℕ) :
    (f.afterRace r winnerId).stage.replicas ⊆
      [r.first.selection.replicaId, r.second.selection.replicaId] ∧
      (f.afterRace r winnerId).streams = f.streams := by
  unfold InferCall.afterRace
  dsimp only
  by_cases hwinner : winnerId = 1
  · rw [if_pos hwinner, if_pos hwinner]
    split <;> simp [Stage.replicas, Stage.dispatched, Stage.selected]
  · rw [if_neg hwinner, if_neg hwinner]
    split <;> simp [Stage.replicas, Stage.dispatched, Stage.selected]

theorem HedgeMove.keeps {s : HedgeStage} (h : HedgeMove hash g c f s g' f')
    (hstage : f.stage = .hedged s) (hclosed : ¬ g.registry.Offers id) : Keeps id f f' := by
  have hsubset : (Stage.hedged s).replicas ⊆ f.stage.replicas := by
    rw [hstage]
    exact List.Subset.refl _
  cases h with
  | scan | starve => exact .of_nil rfl
  | choose hselect =>
    intro hid
    rw [List.mem_singleton.mp hid] at hclosed
    exact absurd (offers_of_selected hselect) hclosed
  | rescan | start | take | giveUp | alone => exact .of_subset hsubset rfl
  | pair hselect =>
    intro hid
    rcases List.mem_cons.mp hid with rfl | hid
    · exact ⟨hsubset List.mem_cons_self, rfl⟩
    · rw [List.mem_singleton.mp hid] at hclosed
      exact absurd (offers_of_selected hselect) hclosed
  | stream | forward => exact .of_nil rfl
  | race _ hthread | late _ hthread =>
    obtain ⟨hfirst, hsecond⟩ := threadStep_selections hthread
    refine .of_subset ?_ rfl
    show [_, _] ++ [] ⊆ _
    rw [hfirst, hsecond]
    exact hsubset
  | @join r winnerId =>
    obtain ⟨hreplicas, hstreams⟩ := afterRace_replicas f r winnerId
    exact .of_subset (List.Subset.trans hreplicas hsubset) hstreams

/-- **A step while the replica is not offered.** -/
theorem keeps_step (hs : f.step hash g c = some (g', f')) (hclosed : ¬ g.registry.Offers id) :
    Keeps id f f' := by
  cases stepMove hs with
  | pending => exact .of_subset (List.Subset.refl _) rfl
  | enter | enterHedged => exact .of_nil rfl
  | infer _ hmove => exact hmove.keeps hclosed
  | hedged _ hstage hhedge => exact (hedgeMove hhedge).keeps hstage hclosed

/-- **Withdrawal.** In every run of a gateway during which a replica is draining, `DEAD` or unknown
whenever a step is taken: a call that has the replica at the end, hedged or not, selected or with a
stream to it, had it at the start and has opened no stream in between. So the replica gets no
request from a call that had not turned to it before. -/
theorem withdrawn (hash : List UInt8 → ℕ) (s₀ : GatewayPool) (fs : List GatewayLabel)
    (r : GatewayPool) (hrun : Run (gatewayProgram hash).step s₀ fs r) (id : String)
    (hclosed : EveryStep (gatewayProgram hash).step s₀ fs fun _ q _ =>
      ¬ q.shared.registry.Offers id) :
    ∀ (i : ℕ) (f : InferCall), r.calls[i]? = some (.infer f) → id ∈ f.stage.replicas →
      ∃ f₀, s₀.calls[i]? = some (.infer f₀) ∧ id ∈ f₀.stage.replicas ∧ f₀.streams = f.streams := by
  induction hrun with
  | nil => exact fun i f hi hid => ⟨f, hi, hid, rfl⟩
  | @snoc es l q q' hrun hs ih =>
    have hbefore := ih (hclosed.of_prefix (List.prefix_append _ _))
    have hnow := hclosed es l q List.prefix_rfl hrun
    intro i f' hi hid
    rcases call_before hs hi with hsame | ⟨-, hentered, -⟩ | ⟨c, f, -, hf, hstep⟩
    · exact hbefore i f' hsame hid
    · rw [hentered] at hid
      cases hid
    · obtain ⟨hhad, hstreams⟩ := keeps_step hstep hnow hid
      obtain ⟨f₀, hf₀, hid₀, hstreams₀⟩ := hbefore i f hf hhad
      exact ⟨f₀, hf₀, hid₀, hstreams₀.trans hstreams.symm⟩

/-- The test whether the registry offers the replica. -/
def offered (id : String) (p : GatewayPool) : Bool :=
  (p.shared.registry.getReplica id).any fun info => !info.draining && info.gossipState ≠ .dead

theorem not_offers_of_test {p : GatewayPool} (h : (!offered id p) = true) :
    ¬ p.shared.registry.Offers id := by
  rintro ⟨info, hinfo, hdraining, hdead⟩
  simp [offered, hinfo, hdraining, hdead] at h

def GatewayCall.replicas : GatewayCall → List String
  | .infer f => f.stage.replicas
  | .rebuildRing _ => []

/-- The first call is at `replica-1` when it starts to drain; the second one selects after that. -/
theorem withdrawn_draining :
    let es := twoReplicas ++ [.call 0 {}, .call 0 {}, .call 0 {}, .call 0 { draws := [2] },
      .call 0 {}, .env (.setDraining "replica-1" true)]
    let fs : List GatewayLabel := .spawn (.infer ⟨"client", "hello", 2, false⟩) ::
      List.replicate 5 (.call 1 {})
    ∃ q r, Run (gatewayProgram fun _ => 0).step (newGateway 150 {} 100) es q ∧
      Run (gatewayProgram fun _ => 0).step q fs r ∧
      r.calls.map GatewayCall.replicas = [["replica-1"], ["replica-2"]] ∧
      ∀ (i : ℕ) (f : InferCall), r.calls[i]? = some (.infer f) → "replica-1" ∈ f.stage.replicas →
        ∃ f₀, q.calls[i]? = some (.infer f₀) ∧ "replica-1" ∈ f₀.stage.replicas ∧
          f₀.streams = f.streams := by
  intro es fs
  have hrun : Run (gatewayProgram fun _ => 0).step (newGateway 150 {} 100) es _ :=
    run_get (by decide +kernel)
  have hrun' : Run (gatewayProgram fun _ => 0).step
      ((exec (gatewayProgram fun _ => 0).step (newGateway 150 {} 100) es).get (by decide +kernel))
      fs _ := run_get (by decide +kernel)
  have hcheck : checkSteps (gatewayProgram fun _ => 0).step (fun p _ => !offered "replica-1" p)
      ((exec (gatewayProgram fun _ => 0).step (newGateway 150 {} 100) es).get (by decide +kernel))
      fs = true := by decide +kernel
  refine ⟨_, _, hrun, hrun', by decide +kernel, withdrawn _ _ fs _ hrun' "replica-1" ?_⟩
  exact (everyStep_of_check hcheck).mono fun _ _ _ h => not_offers_of_test h

end LlmGateway.Gateway
