import LlmGateway.Gateway.GatewayServer
import LlmGateway.Lib.Resume

/-!
# Mid-stream failover

`Infer` hands the number of tokens it has counted to the next replica. A stream that fails returns
-1, whatever it has forwarded, so the counter does not move.

1. `forward_eq`: what one stream writes and returns, by the reads it forwards.
2. `Resumed`: the responses of a call are the deliveries of its streams, in the sense of
   `Resume.deliveries`; it holds of every call in every run.
3. `inOrder_iff`: the client gets `token_0`, `token_1`, ... without a repetition exactly when no
   stream forwards a token after one that failed with tokens forwarded.
-/

namespace LlmGateway.Gateway

open Transition Replica

/-- The name of a token. -/
def tokenName (i : ℤ) : String := "token_" ++ toString i

/-- The responses are `token_0`, ..., `token_(n-1)` for some `n ≤ max_tokens`, and `is_final` is set
at most once, on `token_(max_tokens-1)` alone. -/
def InOrder (maxTokens : ℤ) (written : List InferResponse) : Prop :=
  (∃ n : ℕ, n ≤ maxTokens.toNat ∧
    written.map (·.token) = (List.range n).map fun k : ℕ => tokenName k) ∧
  written.countP (·.isFinal) ≤ 1 ∧
  ∀ w ∈ written, w.isFinal = true → w.token = tokenName (maxTokens - 1)

/-! ## One stream -/

/-- The response was written to the client. -/
def StreamRead.forwarded (e : StreamRead) : Bool := !e.cancelled && e.written

/-- How many responses of the stream reach the client. -/
def ReplicaStream.forwarded (s : ReplicaStream) : ℕ :=
  (s.reads.takeWhile StreamRead.forwarded).length

/-- The client stays to the end of the stream, which is a status other than OK. -/
def ReplicaStream.fails (s : ReplicaStream) : Bool := s.reads.all StreamRead.forwarded && !s.ok

variable {replicaId : String} {ok : Bool} {s : ReplicaStream}

theorem forward_eq (n : ℤ) (es : List StreamRead) :
    forward replicaId ok n es =
      ((es.takeWhile StreamRead.forwarded).map fun e => inferResponse replicaId e.response,
        if (es.all StreamRead.forwarded && !ok) = true then -1
        else n + (es.takeWhile StreamRead.forwarded).length) := by
  induction es generalizing n with
  | nil => cases ok <;> simp [forward]
  | cons e es ih =>
    unfold forward
    by_cases hcancelled : e.cancelled = true
    · simp [hcancelled, StreamRead.forwarded]
    · by_cases hwritten : e.written = true
      · have hforwarded : e.forwarded = true := by simp [StreamRead.forwarded, hcancelled, hwritten]
        rw [if_neg hcancelled, if_neg (by simp [hwritten]), ih]
        rw [List.takeWhile_cons_of_pos hforwarded]
        simp only [List.all_cons, hforwarded, Bool.true_and, List.map_cons, List.length_cons]
        congr 1
        split_ifs
        · rfl
        · push_cast
          ring
      · simp [hcancelled, hwritten, StreamRead.forwarded]

/-- `StreamFromReplica` returns -1 for a stream that fails, and otherwise the number of responses
it has forwarded. -/
theorem streamFromReplica_returned :
    (streamFromReplica replicaId s).2 = if s.fails = true then -1 else (s.forwarded : ℤ) := by
  unfold streamFromReplica
  rw [forward_eq]
  simp only [zero_add]
  rfl

theorem streamFromReplica_written {r : GenerateRequest} (hs : s.Serves r) :
    (streamFromReplica replicaId s).1 =
      (firstResponses r.tokensAlreadyGenerated r.maxTokens s.forwarded).map
        (inferResponse replicaId) := by
  unfold streamFromReplica
  rw [forward_eq]
  have hprefix : (s.reads.takeWhile StreamRead.forwarded).map (·.response) <+:
      generateResponses r.tokensAlreadyGenerated r.maxTokens :=
    ((List.takeWhile_prefix _).map _).trans hs
  have htake := List.prefix_iff_eq_take.mp hprefix
  have hle := hprefix.length_le
  rw [List.length_map] at htake hle
  show (s.reads.takeWhile StreamRead.forwarded).map _ = _
  rw [show (fun e : StreamRead => inferResponse replicaId e.response) =
    inferResponse replicaId ∘ (·.response) from rfl, ← List.map_map, htake]
  congr 1
  unfold generateResponses firstResponses
  rw [← List.map_take, List.take_range]
  congr 2
  simp only [generateResponses, firstResponses, List.length_map, List.length_range] at hle
  exact Nat.min_eq_left hle

theorem forwarded_le {r : GenerateRequest} (hs : s.Serves r) :
    s.forwarded ≤ (r.maxTokens - r.tokensAlreadyGenerated).toNat := by
  have hlen := hs.length_le
  simp only [List.length_map, generateResponses, firstResponses, List.length_range] at hlen
  exact ((List.takeWhile_prefix _).length_le).trans hlen

/-! ## One call -/

/-- What a stream delivers: the counter misses the tokens of one that fails. -/
def Attempt.delivery (a : Attempt) : Resume.Attempt := ⟨a.stream.forwarded, a.stream.fails⟩

/-- A response without the tag of its replica. -/
def untagged (w : InferResponse) : GenerateResponse := ⟨w.token, w.isFinal⟩

/-- The client's responses are the deliveries of the streams so far, and `tokens_sent` is their
counter. -/
structure InferCall.Resumed (f : InferCall) : Prop where
  sent : f.tokensSent = ((f.streams.map Attempt.delivery).foldl Resume.advance 0 : ℕ)
  written : f.written.map untagged =
    (Resume.deliveries 0 (f.streams.map Attempt.delivery)).map fun k : ℕ =>
      generateResponse k f.request.maxTokens
  bounded : ∀ k ∈ Resume.deliveries 0 (f.streams.map Attempt.delivery),
    (k : ℤ) < f.request.maxTokens

namespace InferCall

variable {f f' : InferCall} {selection : Selection} {now : ℕ}

theorem streamed_fields (f : InferCall) (selection : Selection) (s : ReplicaStream)
    (responses : List InferResponse) (returned : ℤ) :
    (f.streamed selection s responses returned).request = f.request ∧
      (f.streamed selection s responses returned).written = f.written ++ responses ∧
      (f.streamed selection s responses returned).streams =
        f.streams ++ [⟨selection.replicaId, f.tokensSent, s⟩] ∧
      (f.streamed selection s responses returned).tokensSent =
        if returned < 0 then f.tokensSent else f.tokensSent + returned := by
  simp only [streamed]
  split_ifs <;> exact ⟨rfl, rfl, rfl, rfl⟩

theorem firstResponses_eq_range' (n k : ℕ) (stop : ℤ) :
    firstResponses n stop k =
      (List.range' n k).map fun i : ℕ => generateResponse i stop := by
  rw [List.range'_eq_map_range, List.map_map]
  refine List.map_congr_left fun i _ => ?_
  show generateResponse (n + i) stop = generateResponse ((n + i : ℕ) : ℤ) stop
  push_cast
  rfl

theorem Resumed.streamed (h : f.Resumed)
    (hs : s.Serves (generateRequest now f.request.prompt f.request.maxTokens f.tokensSent)) :
    (f.streamed selection s (streamFromReplica selection.replicaId s).1
      (streamFromReplica selection.replicaId s).2).Resumed := by
  obtain ⟨hrequest, hwritten, hstreams, hsent⟩ := streamed_fields f selection s
    (streamFromReplica selection.replicaId s).1 (streamFromReplica selection.replicaId s).2
  generalize f.streamed selection s _ _ = f' at hrequest hwritten hstreams hsent ⊢
  have hdelivery : f'.streams.map Attempt.delivery =
      f.streams.map Attempt.delivery ++ [⟨s.forwarded, s.fails⟩] := by
    rw [hstreams, List.map_append]
    rfl
  have hle : s.forwarded ≤ (f.request.maxTokens - f.tokensSent).toNat := forwarded_le hs
  refine ⟨?_, ?_, ?_⟩
  · rw [hdelivery, Resume.foldl_advance_concat, hsent, h.sent, streamFromReplica_returned]
    unfold Resume.advance
    by_cases hfails : s.fails = true
    · simp [hfails]
    · rw [if_neg hfails, if_neg hfails, if_neg (by omega)]
      push_cast
      rfl
  · have huntagged : ∀ l : List GenerateResponse,
        (l.map (inferResponse selection.replicaId)).map untagged = l := by
      intro l
      rw [List.map_map]
      exact List.map_id l
    have hnew : (streamFromReplica selection.replicaId s).1.map untagged =
        firstResponses f.tokensSent f.request.maxTokens s.forwarded := by
      rw [streamFromReplica_written hs, huntagged]
      rfl
    rw [hdelivery, Resume.deliveries_concat, List.map_append, hwritten, List.map_append, hnew,
      h.written, hrequest, h.sent, firstResponses_eq_range']
  · intro k hk
    rw [hdelivery, Resume.deliveries_concat] at hk
    rw [hrequest]
    rcases List.mem_append.mp hk with hk | hk
    · exact h.bounded k hk
    · have hrange := List.mem_range'_1.mp hk
      have hsent := h.sent
      dsimp only at hrange
      omega

theorem Resumed.same (h : f.Resumed) (hsame : f.SameOutput f') : f'.Resumed := by
  obtain ⟨hrequest, hwritten, hsent, hstreams⟩ := hsame
  refine ⟨?_, ?_, ?_⟩
  · rw [hsent, hstreams]
    exact h.sent
  · rw [hwritten, hstreams, hrequest]
    exact h.written
  · rw [hstreams, hrequest]
    exact h.bounded

/-- **Resumption.** The responses of a call that is not hedged are the deliveries of its streams,
in every run from any gateway. -/
theorem resumed_of_run {hash : List UInt8 → ℕ} {g : GatewayState} {es : List GatewayLabel}
    {p : GatewayPool} (hrun : Run (gatewayProgram hash).step ⟨g, []⟩ es p)
    (hf : .infer f ∈ p.calls) (hplain : f.Plain) : f.Resumed := by
  let Q : GatewayState → GatewayCall → Prop :=
    fun _ t => ∀ f, t = .infer f → f.Plain → f.Resumed
  have hP : Program.Preserves (gatewayProgram hash) (fun _ => True) Q := by
    refine ⟨?_, ?_, fun _ _ _ _ _ _ _ _ u hu => hu, fun _ _ _ _ _ => ⟨trivial, fun u hu => hu⟩⟩
    · rintro s (request | _) - f hf -
      · cases hf
        exact ⟨rfl, rfl, fun k hk => by cases hk⟩
      · cases hf
    · rintro g t c g' t' - hQ hs
      refine ⟨trivial, ?_⟩
      rintro f' rfl hplain
      cases t with
      | rebuildRing b =>
        obtain ⟨r, -, heq⟩ := Option.map_eq_some_iff.mp hs
        cases heq
      | infer f =>
        obtain ⟨⟨g₁, f₁⟩, hstep, heq⟩ := Option.map_eq_some_iff.mp hs
        cases heq
        cases step_output hstep with
        | same hback hsame => exact (hQ f rfl (hback hplain)).same hsame
        | stream hback hserves => exact (hQ f rfl hback).streamed hserves
        | hedged s hstage => exact absurd hstage (hplain s)
  exact (hP.invariant trivial hrun).calls _ hf f rfl hplain

end InferCall

/-! ## In order -/

theorem tokenName_injective {m n : ℕ} (h : tokenName m = tokenName n) : m = n := by
  have hrepr : Nat.repr m = Nat.repr n := (String.append_right_inj "token_").mp h
  have hdigits : Nat.toDigits 10 m = Nat.toDigits 10 n := by
    rw [← Nat.toList_repr, ← Nat.toList_repr, hrepr]
  rw [← @Nat.ofDigitChars_ten_toDigits m, hdigits, Nat.ofDigitChars_ten_toDigits]

variable {f : InferCall}

theorem InferCall.Resumed.tokens (h : f.Resumed) :
    f.written.map (·.token) =
      (Resume.deliveries 0 (f.streams.map Attempt.delivery)).map fun k : ℕ => tokenName k := by
  have htoken : f.written.map (·.token) = (f.written.map untagged).map (·.token) := by
    rw [List.map_map]
    rfl
  rw [htoken, h.written, List.map_map]
  rfl

theorem InferCall.Resumed.finals (h : f.Resumed) {n : ℕ}
    (hn : Resume.deliveries 0 (f.streams.map Attempt.delivery) = List.range n) :
    f.written.countP (·.isFinal) ≤ 1 ∧
      ∀ w ∈ f.written, w.isFinal = true → w.token = tokenName (f.request.maxTokens - 1) := by
  constructor
  · have hfinal : f.written.countP (·.isFinal) = (f.written.map untagged).countP (·.isFinal) := by
      rw [List.countP_map]
      rfl
    rw [hfinal, h.written, hn, List.countP_map]
    have hle : (List.range n).countP (fun k : ℕ => (generateResponse k f.request.maxTokens).isFinal)
        ≤ (List.range n).count (f.request.maxTokens - 1).toNat := by
      rw [List.count]
      refine List.countP_mono_left fun k _ hk => ?_
      have hk' : (k : ℤ) = f.request.maxTokens - 1 := of_decide_eq_true hk
      simp [← hk']
    exact hle.trans (List.nodup_iff_count_le_one.mp List.nodup_range _)
  · intro w hw hfinal
    have hmem : untagged w ∈ f.written.map untagged := List.mem_map_of_mem hw
    rw [h.written] at hmem
    obtain ⟨k, -, hk⟩ := List.mem_map.mp hmem
    have hfinal' : (generateResponse k f.request.maxTokens).isFinal = true := by
      rw [hk]
      exact hfinal
    have hk' : (k : ℤ) = f.request.maxTokens - 1 := of_decide_eq_true hfinal'
    have htoken : w.token = (generateResponse k f.request.maxTokens).token := by
      rw [hk]
      rfl
    rw [htoken, hk']
    rfl

/-- **Failover.** In every run, whatever replicas are selected and however their streams end, a call
that is not hedged writes the tokens in order exactly when none of its streams forwards a token
after one that failed with tokens forwarded. -/
theorem inOrder_iff (hash : List UInt8 → ℕ) (g : GatewayState) (es : List GatewayLabel)
    (p : GatewayPool) (hrun : Run (gatewayProgram hash).step ⟨g, []⟩ es p) (f : InferCall)
    (hf : .infer f ∈ p.calls) (hplain : f.Plain) :
    InOrder f.request.maxTokens f.written ↔
      f.streams.Pairwise fun a b =>
        a.stream.fails = true → 0 < a.stream.forwarded → b.stream.forwarded = 0 := by
  have h := InferCall.resumed_of_run hrun hf hplain
  have hpairwise := @Resume.deliveries_inOrder_iff 0 (f.streams.map Attempt.delivery)
  rw [List.pairwise_map] at hpairwise
  rw [show (fun a b : Attempt => a.stream.fails = true → 0 < a.stream.forwarded →
    b.stream.forwarded = 0) = fun a b => a.delivery.lost = true → 0 < a.delivery.count →
    b.delivery.count = 0 from rfl, ← hpairwise]
  constructor
  · rintro ⟨⟨n, -, htokens⟩, -⟩
    rw [h.tokens] at htokens
    have hinj : Function.Injective fun k : ℕ => tokenName k := fun _ _ => tokenName_injective
    refine ⟨n, ?_⟩
    rw [hinj.list_map htokens, List.range_eq_range']
  · rintro ⟨n, hn⟩
    rw [← List.range_eq_range'] at hn
    refine ⟨⟨n, ?_, ?_⟩, h.finals hn⟩
    · by_contra hlt
      have hmem : f.request.maxTokens.toNat ∈ List.range n := List.mem_range.mpr (not_le.mp hlt)
      rw [← hn] at hmem
      have hbound := h.bounded _ hmem
      omega
    · rw [h.tokens, hn]

/-! ## Two replicas -/

/-- Two replicas are announced, and a client asks for two tokens. -/
def twoReplicas : List GatewayLabel :=
  [.env (.updateFromGossip "replica-1" ⟨"replica-1", "a:17001", .alive, 0, "v1", 0, 4⟩),
    .env (.updateFromGossip "replica-2" ⟨"replica-2", "b:17002", .alive, 0, "v1", 0, 4⟩),
    .spawn (.infer ⟨"client", "hello", 2, false⟩), .call 0 {}]

/-- One iteration of the retry loop, with the draws of the selection and the stream. -/
def attemptWith (draws : List ℕ) (stream : ReplicaStream) : List GatewayLabel :=
  [.call 0 {}, .call 0 {}, .call 0 { draws }, .call 0 {}, .call 0 {}, .call 0 { stream },
    .call 0 {}, .call 0 {}, .call 0 {}]

/-- Both tokens, and OK. -/
def wholeStream : ReplicaStream :=
  ⟨[{ response := ⟨"token_0", false⟩ }, { response := ⟨"token_1", true⟩ }], true⟩

/-- The call after a first stream from `replica-1` and all tokens from `replica-2`. -/
def servedBySecond (first : ReplicaStream) (written : List InferResponse) : InferCall where
  request := ⟨"client", "hello", 2, false⟩
  stage := .infer (.returned .ok)
  attempt := 1
  tokensSent := 2
  excluded := ["replica-1"]
  written := written ++ [⟨"token_0", false, "replica-2"⟩, ⟨"token_1", true, "replica-2"⟩]
  streams := [⟨"replica-1", 0, first⟩, ⟨"replica-2", 0, wholeStream⟩]

/-- The first replica fails before any token, and the second serves the request. -/
theorem inOrder_iff_refused :
    let es := twoReplicas ++ attemptWith [1] ⟨[], false⟩ ++ attemptWith [] wholeStream
    ∃ p, Run (gatewayProgram fun _ => 0).step (newGateway 150 {} 100) es p ∧
      .infer (servedBySecond ⟨[], false⟩ []) ∈ p.calls ∧
      InOrder 2 (servedBySecond ⟨[], false⟩ []).written := by
  intro es
  have hrun : Run (gatewayProgram fun _ => 0).step (newGateway 150 {} 100) es _ :=
    run_get (by decide +kernel)
  have hcalls : ((exec (gatewayProgram fun _ => 0).step (newGateway 150 {} 100) es).get
      (by decide +kernel)).calls = [.infer (servedBySecond ⟨[], false⟩ [])] := by decide +kernel
  have hf : .infer (servedBySecond ⟨[], false⟩ []) ∈ ((exec (gatewayProgram fun _ => 0).step
      (newGateway 150 {} 100) es).get (by decide +kernel)).calls := by
    rw [hcalls]
    exact List.mem_singleton_self _
  refine ⟨_, hrun, hf, (inOrder_iff _ _ es _ hrun _ hf (by intro s hs; cases hs)).mpr ?_⟩
  simp [servedBySecond, ReplicaStream.forwarded]

/-- The first replica fails after `token_0`, and the second starts at `token_0` again. -/
theorem not_inOrder_restarted :
    let first : ReplicaStream := ⟨[{ response := ⟨"token_0", false⟩ }], false⟩
    let es := twoReplicas ++ attemptWith [1] first ++ attemptWith [] wholeStream
    let f := servedBySecond first [⟨"token_0", false, "replica-1"⟩]
    ∃ p, Run (gatewayProgram fun _ => 0).step (newGateway 150 {} 100) es p ∧
      .infer f ∈ p.calls ∧ f.Plain ∧
      f.written.map (·.token) = ["token_0", "token_0", "token_1"] ∧ ¬ InOrder 2 f.written := by
  intro first es f
  have hrun : Run (gatewayProgram fun _ => 0).step (newGateway 150 {} 100) es _ :=
    run_get (by decide +kernel)
  have hcalls : ((exec (gatewayProgram fun _ => 0).step (newGateway 150 {} 100) es).get
      (by decide +kernel)).calls = [.infer f] := by decide +kernel
  refine ⟨_, hrun, ?_, (by intro s hs; cases hs), rfl, ?_⟩
  · rw [hcalls]
    exact List.mem_singleton_self _
  · rintro ⟨⟨n, hn, htokens⟩, -⟩
    -- three responses, but only two tokens were asked for
    have hlen := congrArg List.length htokens
    simp [f, servedBySecond] at hlen
    have hn' : n ≤ 2 := hn
    omega

end LlmGateway.Gateway
