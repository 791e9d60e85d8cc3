import LlmGateway.Gateway.Failover

/-!
# The final token

`Infer` may return OK with a part of the tokens. Its client is to tell by `is_final`, which is set on
the last token of a request alone. That works although a failed stream is started again at the same
token: whatever the counter has passed has been written, and a stream writes the tokens from the
counter on, so no token is written before one that precedes it (`Resume.mem_take_deliveries`).
-/

namespace LlmGateway.Gateway

open Transition Replica

variable {f : InferCall} {responses : List InferResponse}

theorem InferCall.Resumed.read (h : f.Resumed) (hread : responses <+: f.written) :
    responses.map untagged = ((Resume.deliveries 0 (f.streams.map Attempt.delivery)).take
      responses.length).map fun k : ℕ => generateResponse k f.request.maxTokens := by
  rw [List.map_take, ← h.written, ← List.map_take, ← List.prefix_iff_eq_take.mp hread]

theorem InferCall.Resumed.mem_read (h : f.Resumed) (hread : responses <+: f.written) (k : ℕ) :
    tokenName k ∈ responses.map (·.token) ↔
      k ∈ (Resume.deliveries 0 (f.streams.map Attempt.delivery)).take responses.length := by
  have htoken : responses.map (·.token) = (responses.map untagged).map (·.token) := by
    rw [List.map_map]
    rfl
  rw [htoken, h.read hread, List.map_map]
  exact List.mem_map_of_injective fun _ _ => tokenName_injective

/-- The final one among them is the last token of the request. -/
theorem InferCall.Resumed.final_read (h : f.Resumed) (hread : responses <+: f.written) :
    (∃ w ∈ responses, w.isFinal = true) ↔ ∃ k : ℕ, (k : ℤ) = f.request.maxTokens - 1 ∧
      k ∈ (Resume.deliveries 0 (f.streams.map Attempt.delivery)).take responses.length := by
  have hfinal : (∃ w ∈ responses, w.isFinal = true) ↔
      ∃ w ∈ responses.map untagged, w.isFinal = true := by
    simp only [List.mem_map, exists_exists_and_eq_and]
    rfl
  rw [hfinal, h.read hread]
  simp only [List.mem_map, exists_exists_and_eq_and, generateResponse, decide_eq_true_iff]
  exact exists_congr fun k => and_comm

/-- **The final token.** In every run, however the streams of a call end that is not hedged and
however often it fails over: a client has read a response with `is_final` exactly when it has read
every token of the request. -/
theorem final_iff_complete (hash : List UInt8 → ℕ) (g : GatewayState) (es : List GatewayLabel)
    (p : GatewayPool) (hrun : Run (gatewayProgram hash).step ⟨g, []⟩ es p) :
    ∀ f, .infer f ∈ p.calls → f.Plain → 0 < f.request.maxTokens →
      ∀ responses, responses <+: f.written →
        ((∃ w ∈ responses, w.isFinal = true) ↔
          ∀ k : ℕ, (k : ℤ) < f.request.maxTokens → tokenName k ∈ responses.map (·.token)) := by
  intro f hf hplain hpos responses hread
  have h := InferCall.resumed_of_run hrun hf hplain
  rw [h.final_read hread]
  constructor
  · rintro ⟨last, hlast, hmem⟩ k hk
    exact (h.mem_read hread k).mpr (Resume.mem_take_deliveries hmem (Nat.zero_le _) (by omega))
  · intro hall
    have hlast : ((f.request.maxTokens - 1).toNat : ℤ) = f.request.maxTokens - 1 := by omega
    exact ⟨_, hlast, (h.mem_read hread _).mp (hall _ (by omega))⟩

/-- The client has the final token of the second stream, after a first one that broke off. -/
theorem final_iff_complete_failover :
    let first : ReplicaStream := ⟨[{ response := ⟨"token_0", false⟩ }], false⟩
    let es := twoReplicas ++ attemptWith [1] first ++ attemptWith [] wholeStream
    let f := servedBySecond first [⟨"token_0", false, "replica-1"⟩]
    ∃ p, Run (gatewayProgram fun _ => 0).step (newGateway 150 {} 100) es p ∧ .infer f ∈ p.calls ∧
      (∀ k : ℕ, (k : ℤ) < 2 → tokenName k ∈ f.written.map (·.token)) ∧
      ¬ ∃ w ∈ f.written.take 2, w.isFinal = true := by
  intro first es f
  have hrun : Run (gatewayProgram fun _ => 0).step (newGateway 150 {} 100) es _ :=
    run_get (by decide +kernel)
  have hcalls : ((exec (gatewayProgram fun _ => 0).step (newGateway 150 {} 100) es).get
      (by decide +kernel)).calls = [.infer f] := by decide +kernel
  have hmem : .infer f ∈ ((exec (gatewayProgram fun _ => 0).step (newGateway 150 {} 100) es).get
      (by decide +kernel)).calls := by
    rw [hcalls]
    exact List.mem_singleton_self _
  have h := final_iff_complete _ _ es _ hrun f hmem (by intro s hs; cases hs) (by decide)
  exact ⟨_, hrun, hmem, (h f.written List.prefix_rfl).mp (by decide +kernel),
    by decide +kernel⟩

end LlmGateway.Gateway
