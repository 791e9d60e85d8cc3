import LlmGateway.Gateway.Dispatches
import LlmGateway.Gateway.PartialDelivery
import LlmGateway.Lib.Runs

/-!
# The client

`InferenceClient` reads the responses of a call until `Read` returns false and then asks `Finish` for
the status. What it reads is the beginning of what the gateway has written, and a status of OK comes
after the last of it (`Receives`); every other status may also be the transport's own.

1. `Infer` and `InferWithCallback`: what they make of such a reading.
2. `HedgedOnce`: a hedged call writes the responses of one replica.
3. `infer_result`, `inferWithCallback_result`: the results of `Infer` and `InferWithCallback` against
   what has happened at the gateway.
-/

namespace LlmGateway.Client

open Gateway Transition

structure InferResult where
  tokens : List String := []
  replicaIds : List String := []
  success : Bool := false
  errorMessage : String := ""
  deriving DecidableEq, Repr

/-- What a client gets of a call: the responses that `Read` returns, and the status of `Finish`. -/
structure Reading (α : Type) where
  responses : List α
  status : Status

/-- `on_token`: whether to go on after a token. -/
abbrev TokenCallback := String → String → ℤ → Bool

namespace InferResult

variable (result : InferResult)

/-- The body of the loops of `Infer` and `InferWithCallback`. -/
def collect (response : InferResponse) : InferResult :=
  { result with
    tokens := result.tokens ++ [response.token]
    replicaIds :=
      if response.replicaId = "" then result.replicaIds
      else if result.replicaIds = [] ∨ result.replicaIds.getLast? ≠ some response.replicaId then
        result.replicaIds ++ [response.replicaId]
      else result.replicaIds }

/-- `Finish`: whether the status counts as a success, and otherwise its message. -/
def finish (success : Bool) (status : Status) : InferResult :=
  { result with success, errorMessage := if success then result.errorMessage else status.message }

end InferResult

/-- `Infer`. -/
def infer (r : Reading InferResponse) : InferResult :=
  (r.responses.foldl InferResult.collect {}).finish (r.status.code = .ok) r.status

/-- The responses that `InferWithCallback` reads: to the first one its callback does not go on
after. -/
def readUntil (onToken : Option TokenCallback) : ℤ → List InferResponse → List InferResponse
  | _, [] => []
  | i, response :: rest =>
    if onToken.any fun cb => !cb response.token response.replicaId i then [response]
    else response :: readUntil onToken (i + 1) rest

/-- `InferWithCallback`: its own cancellation is no failure. -/
def inferWithCallback (onToken : Option TokenCallback) (r : Reading InferResponse) : InferResult :=
  ((readUntil onToken 0 r.responses).foldl InferResult.collect {}).finish
    (r.status.code = .ok ∨ r.status.code = .cancelled) r.status

/-- The client reads the beginning of what a call has written; after OK there is no more to read. -/
structure Receives (f : InferCall) (r : Reading InferResponse) : Prop where
  responses : r.responses <+: f.written
  complete : r.status.code = .ok → f.stage.status = some .ok ∧ r.responses = f.written

/-! ## What the loops collect -/

variable {responses : List InferResponse} {r : Reading InferResponse}

theorem collect_replicaIds (result : InferResult) (response : InferResponse) :
    (result.collect response).replicaIds =
      if response.replicaId = "" then result.replicaIds
      else Runs.push result.replicaIds response.replicaId := by
  unfold InferResult.collect Runs.push
  dsimp only
  split_ifs with hempty hnew hlast hlast
  · rfl
  · exfalso
    rcases hnew with hnil | hnew
    · rw [hnil] at hlast
      cases hlast
    · exact hnew hlast
  · rfl
  · rfl
  · exact absurd (Or.inr hlast) hnew

/-- The ids of the responses, without the empty ones. -/
def namedIds (responses : List InferResponse) : List String :=
  (responses.map (·.replicaId)).filter (· ≠ "")

theorem foldl_collect (result : InferResult) (responses : List InferResponse) :
    (responses.foldl InferResult.collect result).tokens =
        result.tokens ++ responses.map (·.token) ∧
      (responses.foldl InferResult.collect result).replicaIds =
        (namedIds responses).foldl Runs.push result.replicaIds := by
  induction responses generalizing result with
  | nil => exact ⟨(List.append_nil _).symm, rfl⟩
  | cons response responses ih =>
    obtain ⟨htokens, hids⟩ := ih (result.collect response)
    rw [List.foldl_cons, htokens, hids, collect_replicaIds]
    refine ⟨?_, ?_⟩
    · show (result.tokens ++ [response.token]) ++ _ = _
      rw [List.append_assoc]
      rfl
    · unfold namedIds
      rw [List.map_cons]
      by_cases hempty : response.replicaId = ""
      · rw [if_pos hempty, List.filter_cons_of_neg (by simp [hempty])]
      · rw [if_neg hempty, List.filter_cons_of_pos (by simp [hempty])]
        rfl

/-! ## The callback -/

/-- The callback returns false for the response number `i`. -/
def Refused (onToken : Option TokenCallback) (i : ℤ) (w : InferResponse) : Prop :=
  ∃ cb, onToken = some cb ∧ cb w.token w.replicaId i = false

theorem refused_iff {onToken : Option TokenCallback} {i : ℤ} {w : InferResponse} :
    Refused onToken i w ↔ onToken.any (fun cb => !cb w.token w.replicaId i) = true := by
  cases onToken <;> simp [Refused]

theorem readUntil_cons_of_refused {onToken : Option TokenCallback} {i : ℤ} {w : InferResponse}
    (h : Refused onToken i w) : readUntil onToken i (w :: responses) = [w] :=
  if_pos (refused_iff.mp h)

theorem readUntil_cons {onToken : Option TokenCallback} {i : ℤ} {w : InferResponse}
    (h : ¬ Refused onToken i w) :
    readUntil onToken i (w :: responses) = w :: readUntil onToken (i + 1) responses :=
  if_neg fun hany => h (refused_iff.mpr hany)

theorem readUntil_prefix (onToken : Option TokenCallback) (i : ℤ)
    (responses : List InferResponse) : readUntil onToken i responses <+: responses := by
  induction responses generalizing i with
  | nil => exact List.prefix_rfl
  | cons response responses ih =>
    by_cases h : Refused onToken i response
    · rw [readUntil_cons_of_refused h]
      exact ⟨responses, rfl⟩
    · rw [readUntil_cons h]
      exact (List.prefix_cons_inj response).mpr (ih (i + 1))

/-- The callback has gone on after every response but the last one read. -/
theorem not_refused_of_lt (onToken : Option TokenCallback) (i : ℤ) (responses : List InferResponse)
    {k : ℕ} {w : InferResponse} (hk : (readUntil onToken i responses)[k]? = some w)
    (hlast : k + 1 < (readUntil onToken i responses).length) : ¬ Refused onToken (i + k) w := by
  induction responses generalizing i k with
  | nil => cases hk
  | cons response responses ih =>
    by_cases h : Refused onToken i response
    · rw [readUntil_cons_of_refused h] at hlast
      simp at hlast
    · rw [readUntil_cons h] at hk hlast
      cases k with
      | zero =>
        cases hk
        simpa using h
      | succ k =>
        have hnext := ih (i + 1) hk (by simpa using hlast)
        rwa [add_assoc, add_comm (1 : ℤ), ← Nat.cast_succ] at hnext

/-- If it stops short of the end, the callback has refused the last response. -/
theorem refused_last (onToken : Option TokenCallback) (i : ℤ) (responses : List InferResponse)
    (hshort : (readUntil onToken i responses).length < responses.length) :
    ∃ k w, k + 1 = (readUntil onToken i responses).length ∧
      (readUntil onToken i responses)[k]? = some w ∧ Refused onToken (i + k) w := by
  induction responses generalizing i with
  | nil => simp at hshort
  | cons response responses ih =>
    by_cases h : Refused onToken i response
    · rw [readUntil_cons_of_refused h]
      exact ⟨0, response, rfl, rfl, by simpa using h⟩
    · rw [readUntil_cons h] at hshort ⊢
      obtain ⟨k, w, hk, hw, hrefused⟩ := ih (i + 1) (by simpa using hshort)
      rw [add_assoc, add_comm (1 : ℤ), ← Nat.cast_succ] at hrefused
      exact ⟨k + 1, w, by rw [List.length_cons, hk], hw, hrefused⟩

/-! ## The replicas of a call -/

variable {hash : List UInt8 → ℕ} {g g' : GatewayState} {c : InferChoice} {f f' : InferCall}

theorem replicaIds_stream (a : Attempt) :
    (streamFromReplica a.replicaId a.stream).1.map (·.replicaId) =
      List.replicate a.stream.forwarded a.replicaId := by
  unfold streamFromReplica ReplicaStream.forwarded
  rw [forward_eq, List.map_map]
  exact List.map_const'

/-- The replicas whose tokens a call has forwarded, by the streams it has had. -/
def served (f : InferCall) : List String :=
  (f.streams.filter fun a => 0 < a.stream.forwarded && a.replicaId ≠ "").map Attempt.replicaId

/-- A stream as a block of responses. -/
def block (a : Attempt) : String × ℕ := (a.replicaId, a.stream.forwarded)

theorem namedIds_streams (streams : List Attempt) :
    namedIds (streams.flatMap fun a => (streamFromReplica a.replicaId a.stream).1) =
      ((streams.filter fun a => a.replicaId ≠ "").map block).flatMap
        fun b => List.replicate b.2 b.1 := by
  unfold namedIds
  induction streams with
  | nil => rfl
  | cons a streams ih =>
    rw [List.flatMap_cons, List.map_append, List.filter_append, ih, replicaIds_stream]
    by_cases hempty : a.replicaId = ""
    · rw [List.filter_cons_of_neg (by simp [hempty]), hempty]
      have hnone : (List.replicate a.stream.forwarded "").filter (· ≠ "") = [] := by
        rw [List.filter_replicate]
        rfl
      rw [hnone, List.nil_append]
    · rw [List.filter_cons_of_pos (by simp [hempty]), List.map_cons, List.flatMap_cons]
      rw [List.filter_replicate, if_pos (by simp [hempty])]
      rfl

theorem collapse_written (h : f.Exclusive) (hplain : f.Plain) :
    Runs.collapse (namedIds f.written) = served f := by
  have hnodup : (((f.streams.filter fun a => a.replicaId ≠ "").map block).map Prod.fst).Nodup := by
    rw [List.map_map]
    exact h.nodup.sublist (List.filter_sublist.map _)
  rw [h.written hplain, namedIds_streams, Runs.collapse_blocks hnodup]
  unfold served
  rw [List.filter_map, List.map_map, List.filter_filter]
  rfl

theorem served_nodup (h : f.Exclusive) : (served f).Nodup :=
  h.nodup.sublist (List.filter_sublist.map _)

theorem length_served_le (h : f.Exclusive) : (served f).length ≤ maxRetries := by
  unfold served
  rw [List.length_map]
  exact (List.length_filter_le _ _).trans h.length_streams

/-- What a hedged call has written comes from one replica. -/
def HedgedOnce (f : InferCall) : Prop :=
  (∃ s, f.stage = .hedged s) → ∃ id, ∀ w ∈ f.written, w.replicaId = id

theorem forward_tagged {id : String} {ok : Bool} {n : ℤ} {es : List StreamRead} {w : InferResponse}
    (hw : w ∈ (forward id ok n es).1) : w.replicaId = id := by
  rw [forward_eq] at hw
  obtain ⟨e, -, rfl⟩ := List.mem_map.mp hw
  rfl

/-- A step of `InferHedged` writes what one replica has sent. -/
theorem hedgedOnce_step {s : HedgeStage} (hstage : f.stage = .hedged s) (hunsent : f.Unsent)
    (hs : f.hedgeStep hash g c s = some (g', f')) : ∃ id, ∀ w ∈ f'.written, w.replicaId = id := by
  obtain ⟨-, hnone⟩ := hedgeStep_output hstage hs
  have hwritten : f.written = [] := hunsent (fun t ht => by rw [hstage] at ht; cases ht) hnone
  have hsame : f'.written = f.written → ∃ id, ∀ w ∈ f'.written, w.replicaId = id := by
    intro heq
    rw [heq, hwritten]
    exact ⟨"", by simp⟩
  cases hedgeMove hs with
  | @stream selection =>
    refine ⟨selection.replicaId, fun w hw => ?_⟩
    rw [hwritten] at hw
    exact forward_tagged (List.nil_append _ ▸ hw)
  | @forward winnerId winner firstToken =>
    refine ⟨winner.replicaId, fun w hw => ?_⟩
    rw [hwritten, List.nil_append] at hw
    rcases List.mem_append.mp hw with hw | hw
    · split_ifs at hw
      · rw [List.mem_singleton.mp hw]
        rfl
      · cases hw
    · exact forward_tagged hw
  | join =>
    refine hsame ?_
    unfold InferCall.afterRace
    dsimp only
    split <;> rfl
  | _ => exact hsame rfl

theorem hedgedOnce_of_run {g₀ : GatewayState} {es : List GatewayLabel} {p : GatewayPool}
    (hrun : Run (gatewayProgram hash).step ⟨g₀, []⟩ es p) (hf : .infer f ∈ p.calls) :
    HedgedOnce f := by
  have h : f.Unsent ∧ HedgedOnce f := by
    refine inferCall_invariant (Q := fun f => f.Unsent ∧ HedgedOnce f) ?_ ?_ hrun hf
    · rintro request
      refine ⟨fun _ _ => rfl, ?_⟩
      rintro ⟨s, hs⟩
      cases hs
    · rintro g c f g' f' ⟨hunsent, honce⟩ hs
      refine ⟨hunsent.step hs, ?_⟩
      rintro ⟨s', hs'⟩
      cases stepMove hs with
      | pending => exact honce ⟨s', hs'⟩
      | enter => cases hs'
      | enterHedged _ hstage =>
        have hnil : f.written = [] := hunsent (by simp [hstage]) (by rw [hstage]; rfl)
        refine ⟨"", fun w (hw : w ∈ f.written) => ?_⟩
        rw [hnil] at hw
        cases hw
      | infer _ hmove =>
        obtain ⟨t, ht⟩ := hmove.stage
        rw [ht] at hs'
        cases hs'
      | hedged _ hstage hhedge => exact hedgedOnce_step hstage hunsent hhedge
  exact h.2

theorem length_collapse_le {id : String} (h : ∀ w ∈ responses, w.replicaId = id) :
    (Runs.collapse (namedIds responses)).length ≤ 1 := by
  have hids : namedIds responses = List.replicate (namedIds responses).length id := by
    refine List.eq_replicate_iff.mpr ⟨rfl, fun x hx => ?_⟩
    obtain ⟨w, hw, rfl⟩ := List.mem_map.mp (List.mem_of_mem_filter hx)
    exact h w hw
  rw [hids]
  cases (namedIds responses).length with
  | zero => exact Nat.zero_le _
  | succ n =>
    unfold Runs.collapse
    rw [Runs.foldl_push_replicate, Runs.push_of_notMem List.not_mem_nil]
    exact le_rfl

/-- What the loops collect of the first responses of a call: the first tokens, and the replicas that
served them. -/
structure Collected (f : InferCall) (responses : List InferResponse) : Prop where
  tokens : (responses.foldl InferResult.collect {}).tokens = responses.map (·.token)
  plain : f.Plain → (responses.foldl InferResult.collect {}).replicaIds <+: served f ∧
    (responses.foldl InferResult.collect {}).replicaIds.Nodup ∧
    (responses.foldl InferResult.collect {}).replicaIds.length ≤ maxRetries
  hedged : ¬ f.Plain → (responses.foldl InferResult.collect {}).replicaIds.length ≤ 1
  all : responses = f.written → f.Plain →
    (responses.foldl InferResult.collect {}).replicaIds = served f

theorem collected_of_run {g₀ : GatewayState} {es : List GatewayLabel} {p : GatewayPool}
    (hrun : Run (gatewayProgram hash).step ⟨g₀, []⟩ es p) (hf : .infer f ∈ p.calls)
    (hread : responses <+: f.written) : Collected f responses := by
  have hexclusive := exclusive_of_run hrun hf
  obtain ⟨htokens, hids⟩ := foldl_collect {} responses
  have hids : (responses.foldl InferResult.collect {}).replicaIds =
      Runs.collapse (namedIds responses) := hids
  have hpre : f.Plain → Runs.collapse (namedIds responses) <+: served f := by
    intro hplain
    rw [← collapse_written hexclusive hplain]
    exact Runs.collapse_prefix ((hread.map _).filter _)
  refine ⟨htokens.trans (List.nil_append _), ?_, ?_, ?_⟩
  · rw [hids]
    intro hplain
    exact ⟨hpre hplain, (served_nodup hexclusive).sublist (hpre hplain).sublist,
      (hpre hplain).length_le.trans (length_served_le hexclusive)⟩
  · rw [hids]
    intro hhedged
    have hstage : ∃ s, f.stage = .hedged s := by
      by_contra hnone
      exact hhedged fun s hs => hnone ⟨s, hs⟩
    obtain ⟨id, hid⟩ := hedgedOnce_of_run hrun hf hstage
    exact length_collapse_le fun w hw => hid w (hread.subset hw)
  · rw [hids]
    rintro rfl
    exact collapse_written hexclusive

/-- **The result of a client.** In every run of a gateway, for every call and whatever its client
receives of it: the tokens are the first ones the gateway wrote. The replica ids of a call that is
not hedged name no replica twice and `max_retries` at most, and are, in order, the first of the
replicas that served it; those of a hedged call are one at most. A success means that the gateway
returned OK and that nothing it wrote is missing, tokens or replicas. -/
theorem infer_result (hash : List UInt8 → ℕ) (g₀ : GatewayState) (es : List GatewayLabel)
    (p : GatewayPool) (hrun : Run (gatewayProgram hash).step ⟨g₀, []⟩ es p) :
    ∀ f, .infer f ∈ p.calls → ∀ r, Receives f r →
      (infer r).tokens <+: f.written.map (·.token) ∧
      (f.Plain → (infer r).replicaIds <+: served f ∧ (infer r).replicaIds.Nodup ∧
        (infer r).replicaIds.length ≤ maxRetries) ∧
      (¬ f.Plain → (infer r).replicaIds.length ≤ 1) ∧
      ((infer r).success = true → f.stage.status = some .ok ∧
        (infer r).tokens = f.written.map (·.token) ∧
        (f.Plain → (infer r).replicaIds = served f)) := by
  intro f hf r hr
  have h := collected_of_run hrun hf hr.responses
  have hsuccess : (infer r).success = true ↔ r.status.code = .ok := decide_eq_true_iff
  have htokens : (infer r).tokens = r.responses.map (·.token) := h.tokens
  rw [htokens, hsuccess]
  refine ⟨hr.responses.map _, h.plain, h.hedged, fun hok => ?_⟩
  obtain ⟨hstatus, hall⟩ := hr.complete hok
  exact ⟨hstatus, by rw [hall], h.all hall⟩

/-- The first replica fails after `token_0`, the second one serves both tokens. -/
theorem infer_result_failover :
    let first : ReplicaStream := ⟨[{ response := ⟨"token_0", false⟩ }], false⟩
    let es := twoReplicas ++ attemptWith [1] first ++ attemptWith [] wholeStream
    let f := servedBySecond first [⟨"token_0", false, "replica-1"⟩]
    ∃ p, Run (gatewayProgram fun _ => 0).step (newGateway 150 {} 100) es p ∧ .infer f ∈ p.calls ∧
      (infer ⟨f.written, .ok⟩).replicaIds = ["replica-1", "replica-2"] ∧
      (infer ⟨f.written, .ok⟩).replicaIds.Nodup := by
  intro first es f
  have hrun : Run (gatewayProgram fun _ => 0).step (newGateway 150 {} 100) es _ :=
    run_get (by decide +kernel)
  have hcalls : ((exec (gatewayProgram fun _ => 0).step (newGateway 150 {} 100) es).get
      (by decide +kernel)).calls = [.infer f] := by decide +kernel
  have hmem : .infer f ∈ ((exec (gatewayProgram fun _ => 0).step (newGateway 150 {} 100) es).get
      (by decide +kernel)).calls := by
    rw [hcalls]
    exact List.mem_singleton_self _
  have hreceives : Receives f ⟨f.written, .ok⟩ := ⟨List.prefix_rfl, fun _ => ⟨rfl, rfl⟩⟩
  have h := infer_result _ _ es _ hrun f hmem _ hreceives
  exact ⟨_, hrun, hmem, by decide +kernel, (h.2.1 (by intro s hs; cases hs)).2.1⟩

/-- **The result of a client with a callback.** In every run of a gateway, for every call, callback
and reading: the tokens are the first ones the gateway wrote, the callback has gone on after each of
them but the last, and if there was more to read it has refused the last one. The replica ids are as
for `Infer`. A success is a cancelled call, the client's own doing or not, or it means that the
gateway returned OK and that the tokens are all of them, unless the callback has refused one. -/
theorem inferWithCallback_result (hash : List UInt8 → ℕ) (g₀ : GatewayState)
    (es : List GatewayLabel) (p : GatewayPool)
    (hrun : Run (gatewayProgram hash).step ⟨g₀, []⟩ es p) :
    ∀ f, .infer f ∈ p.calls → ∀ r, Receives f r → ∀ onToken,
      (inferWithCallback onToken r).tokens <+: f.written.map (·.token) ∧
      (∀ (k : ℕ) w, f.written[k]? = some w → k + 1 < (inferWithCallback onToken r).tokens.length →
        ¬ Refused onToken k w) ∧
      ((inferWithCallback onToken r).tokens.length < r.responses.length →
        ∃ (k : ℕ) (w : InferResponse), k + 1 = (inferWithCallback onToken r).tokens.length ∧
          f.written[k]? = some w ∧ Refused onToken k w) ∧
      (f.Plain → (inferWithCallback onToken r).replicaIds <+: served f ∧
        (inferWithCallback onToken r).replicaIds.Nodup ∧
        (inferWithCallback onToken r).replicaIds.length ≤ maxRetries) ∧
      (¬ f.Plain → (inferWithCallback onToken r).replicaIds.length ≤ 1) ∧
      ((inferWithCallback onToken r).success = true → r.status.code ≠ .cancelled →
        f.stage.status = some .ok ∧
          ((inferWithCallback onToken r).tokens.length < r.responses.length ∨
            (inferWithCallback onToken r).tokens = f.written.map (·.token))) := by
  intro f hf r hr onToken
  have hpre := readUntil_prefix onToken 0 r.responses
  have h := collected_of_run hrun hf (hpre.trans hr.responses)
  have htokens : (inferWithCallback onToken r).tokens =
      (readUntil onToken 0 r.responses).map (·.token) := h.tokens
  -- the responses read are the first ones written
  have hwritten : ∀ (k : ℕ), k < (readUntil onToken 0 r.responses).length →
      (readUntil onToken 0 r.responses)[k]? = f.written[k]? := by
    obtain ⟨rest, hrest⟩ := hpre.trans hr.responses
    intro k hk
    rw [← hrest, List.getElem?_append_left hk]
  rw [htokens, List.length_map]
  refine ⟨(hpre.trans hr.responses).map _, ?_, ?_, h.plain, h.hedged, ?_⟩
  · intro k w hw hk
    rw [← hwritten k (by omega)] at hw
    simpa using not_refused_of_lt onToken 0 r.responses hw hk
  · intro hshort
    obtain ⟨k, w, hk, hw, hrefused⟩ := refused_last onToken 0 r.responses hshort
    rw [hwritten k (by omega)] at hw
    exact ⟨k, w, hk, hw, by simpa using hrefused⟩
  · intro hsuccess hnot
    have hok : r.status.code = .ok :=
      (decide_eq_true_iff.mp hsuccess).resolve_right hnot
    obtain ⟨hstatus, hall⟩ := hr.complete hok
    refine ⟨hstatus, ?_⟩
    rcases hpre.length_le.lt_or_eq with hlt | heq
    · exact Or.inl hlt
    · rw [hpre.eq_of_length heq, hall]
      exact Or.inr rfl

/-- The callback stops a call after the token that the second replica repeats. -/
theorem inferWithCallback_result_stopped :
    let first : ReplicaStream := ⟨[{ response := ⟨"token_0", false⟩ }], false⟩
    let es := twoReplicas ++ attemptWith [1] first ++ attemptWith [] wholeStream
    let f := servedBySecond first [⟨"token_0", false, "replica-1"⟩]
    let onToken : TokenCallback := fun _ id _ => id = "replica-1"
    ∃ p, Run (gatewayProgram fun _ => 0).step (newGateway 150 {} 100) es p ∧ .infer f ∈ p.calls ∧
      (inferWithCallback (some onToken) ⟨f.written, ⟨.cancelled, ""⟩⟩).tokens =
        ["token_0", "token_0"] ∧
      (inferWithCallback (some onToken) ⟨f.written, ⟨.cancelled, ""⟩⟩).success = true ∧
      ∃ (k : ℕ) (w : InferResponse), k + 1 = 2 ∧ f.written[k]? = some w ∧ Refused (some onToken) k w := by
  intro first es f onToken
  have hrun : Run (gatewayProgram fun _ => 0).step (newGateway 150 {} 100) es _ :=
    run_get (by decide +kernel)
  have hcalls : ((exec (gatewayProgram fun _ => 0).step (newGateway 150 {} 100) es).get
      (by decide +kernel)).calls = [.infer f] := by decide +kernel
  have hmem : .infer f ∈ ((exec (gatewayProgram fun _ => 0).step (newGateway 150 {} 100) es).get
      (by decide +kernel)).calls := by
    rw [hcalls]
    exact List.mem_singleton_self _
  have hreceives : Receives f ⟨f.written, ⟨.cancelled, ""⟩⟩ :=
    ⟨List.prefix_rfl, fun hok => by cases hok⟩
  have h := inferWithCallback_result _ _ es _ hrun f hmem _ hreceives (some onToken)
  exact ⟨_, hrun, hmem, by decide +kernel, by decide +kernel, h.2.2.1 (by decide +kernel)⟩

end LlmGateway.Client
