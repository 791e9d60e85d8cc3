import LlmGateway.Common.Rpc
import LlmGateway.Lib.Pool
import Mathlib.Algebra.Order.Ring.Unbundled.Rat

/-!
# The simulated replica

`ReplicaServer` serves `Generate` and `Drain` on any number of threads. A call moves from one atomic
operation to the next: the three tests of `Generate`, its `fetch_add`, the tests and writes of its
loop and its `fetch_sub`; the store of `Drain` and its polls.

1. `generate_written`: what a `Generate` call has written is the beginning of `generateResponses`.
2. `active_eq_count`: `active_requests_` counts the calls that are streaming.
3. `drained_quiet`: a `Drain` call that returns leaves the replica quiet for good unless a
   `Generate` call is between its test of `draining_` and its `fetch_add` at that moment.
-/

namespace LlmGateway.Replica

open Transition

structure ReplicaServer where
  activeRequests : ℤ := 0
  draining : Bool := false
  errorRate : ℚ := 0
  rejectAll : Bool := false
  deriving DecidableEq, Repr

/-- `ShouldInjectError`, with a draw from the unit interval. -/
def ReplicaServer.shouldInjectError (s : ReplicaServer) (draw : ℚ) : Bool :=
  if s.errorRate ≤ 0 then false
  else if 1 ≤ s.errorRate then true
  else draw < s.errorRate

/-- The response for the token `i` of a request for tokens below `stop`. -/
def generateResponse (i stop : ℤ) : GenerateResponse :=
  ⟨"token_" ++ toString i, i = stop - 1⟩

/-- The first `n` responses of a request for the tokens from `start` below `stop`. -/
def firstResponses (start stop : ℤ) (n : ℕ) : List GenerateResponse :=
  (List.range n).map fun k : ℕ => generateResponse (start + k) stop

/-- The responses of a request that is served completely. -/
def generateResponses (start stop : ℤ) : List GenerateResponse :=
  firstResponses start stop (stop - start).toNat

/-! ## The calls -/

/-- What the environment decides at a step of a call: the random draw, whether the caller has
cancelled, and whether a write reaches it. -/
structure Choice where
  draw : ℚ := 0
  cancelled : Bool := false
  written : Bool := true
  deriving DecidableEq, Repr

/-- A `Generate` call, at its next atomic operation. -/
inductive GenerateCall
  | entered (r : GenerateRequest)
  | notDraining (r : GenerateRequest)
  | notRejected (r : GenerateRequest)
  | accepted (r : GenerateRequest)
  | streaming (r : GenerateRequest) (i : ℤ) (written : List GenerateResponse)
  | writing (r : GenerateRequest) (i : ℤ) (written : List GenerateResponse)
  | leaving (r : GenerateRequest) (status : Status) (written : List GenerateResponse)
  | returned (r : GenerateRequest) (status : Status) (written : List GenerateResponse)
  deriving DecidableEq, Repr

/-- `Generate`. -/
def GenerateCall.step (s : ReplicaServer) (c : Choice) :
    GenerateCall → Option (ReplicaServer × GenerateCall)
  | .entered r =>
    if s.draining then some (s, .returned r ⟨.unavailable, "replica is draining"⟩ [])
    else some (s, .notDraining r)
  | .notDraining r =>
    if s.rejectAll then
      some (s, .returned r ⟨.internal, "replica is degraded (fault injection)"⟩ [])
    else some (s, .notRejected r)
  | .notRejected r =>
    if s.shouldInjectError c.draw then some (s, .returned r ⟨.internal, "injected error"⟩ [])
    else some (s, .accepted r)
  | .accepted r =>
    some ({ s with activeRequests := s.activeRequests + 1 },
      .streaming r r.tokensAlreadyGenerated [])
  | .streaming r i w =>
    if i < r.maxTokens then
      if c.cancelled then some (s, .leaving r .cancelled w) else some (s, .writing r i w)
    else some (s, .leaving r .ok w)
  | .writing r i w =>
    if c.written then some (s, .streaming r (i + 1) (w ++ [generateResponse i r.maxTokens]))
    else some (s, .leaving r .cancelled w)
  | .leaving r status w =>
    some ({ s with activeRequests := s.activeRequests - 1 }, .returned r status w)
  | .returned .. => none

/-- A `Drain` call, at its next atomic operation. -/
inductive DrainCall
  | entered
  | polling
  | drained
  deriving DecidableEq, Repr

/-- `Drain`. -/
def DrainCall.step (s : ReplicaServer) : DrainCall → Option (ReplicaServer × DrainCall)
  | .entered => some ({ s with draining := true }, .polling)
  | .polling => if 0 < s.activeRequests then some (s, .polling) else some (s, .drained)
  | .drained => none

inductive ReplicaCall
  | generate (g : GenerateCall)
  | drain (d : DrainCall)
  deriving DecidableEq, Repr

def ReplicaCall.step (s : ReplicaServer) (c : Choice) :
    ReplicaCall → Option (ReplicaServer × ReplicaCall)
  | .generate g => (g.step s c).map fun r => (r.1, .generate r.2)
  | .drain d => (d.step s).map fun r => (r.1, .drain r.2)

inductive ReplicaRequest
  | generate (r : GenerateRequest)
  | drain
  deriving DecidableEq, Repr

/-- The fault injection of the tests. `set_fault_config` is one of each. -/
inductive FaultSetting
  | errorRate (rate : ℚ)
  | rejectAll (reject : Bool)
  deriving DecidableEq, Repr

/-- Any number of `Generate` and `Drain` calls. -/
def replicaProgram : Program ReplicaServer ReplicaCall ReplicaRequest Choice FaultSetting where
  start
    | .generate r => .generate (.entered r)
    | .drain => .drain .entered
  call s t c := t.step s c
  env s
    | .errorRate rate => some { s with errorRate := rate }
    | .rejectAll reject => some { s with rejectAll := reject }

abbrev ReplicaPool := Pool ReplicaServer ReplicaCall

abbrev ReplicaLabel := Program.Label ReplicaRequest Choice FaultSetting

def newReplica : ReplicaPool := ⟨{}, []⟩

variable {s s' : ReplicaServer} {t t' : ReplicaCall} {c : Choice} {p p' : ReplicaPool}
  {l : ReplicaLabel} {es : List ReplicaLabel}

/-- The steps of `Generate`. -/
inductive GenerateStep (s : ReplicaServer) : GenerateCall → ReplicaServer → GenerateCall → Prop
  | draining {r : GenerateRequest} {m : String} : s.draining = true →
      GenerateStep s (.entered r) s (.returned r ⟨.unavailable, m⟩ [])
  | notDraining {r : GenerateRequest} : s.draining = false →
      GenerateStep s (.entered r) s (.notDraining r)
  | rejected {r : GenerateRequest} {m : String} :
      GenerateStep s (.notDraining r) s (.returned r ⟨.internal, m⟩ [])
  | notRejected {r : GenerateRequest} : GenerateStep s (.notDraining r) s (.notRejected r)
  | error {r : GenerateRequest} {m : String} :
      GenerateStep s (.notRejected r) s (.returned r ⟨.internal, m⟩ [])
  | accepted {r : GenerateRequest} : GenerateStep s (.notRejected r) s (.accepted r)
  | reserve {r : GenerateRequest} :
      GenerateStep s (.accepted r) { s with activeRequests := s.activeRequests + 1 }
        (.streaming r r.tokensAlreadyGenerated [])
  | cancelled {r : GenerateRequest} {i : ℤ} {w : List GenerateResponse} :
      GenerateStep s (.streaming r i w) s (.leaving r .cancelled w)
  | next {r : GenerateRequest} {i : ℤ} {w : List GenerateResponse} : i < r.maxTokens →
      GenerateStep s (.streaming r i w) s (.writing r i w)
  | finished {r : GenerateRequest} {i : ℤ} {w : List GenerateResponse} : r.maxTokens ≤ i →
      GenerateStep s (.streaming r i w) s (.leaving r .ok w)
  | write {r : GenerateRequest} {i : ℤ} {w : List GenerateResponse} :
      GenerateStep s (.writing r i w) s
        (.streaming r (i + 1) (w ++ [generateResponse i r.maxTokens]))
  | disconnected {r : GenerateRequest} {i : ℤ} {w : List GenerateResponse} :
      GenerateStep s (.writing r i w) s (.leaving r .cancelled w)
  | release {r : GenerateRequest} {status : Status} {w : List GenerateResponse} :
      GenerateStep s (.leaving r status w) { s with activeRequests := s.activeRequests - 1 }
        (.returned r status w)

theorem generateStep_cases {g g' : GenerateCall} (hs : g.step s c = some (s', g')) :
    GenerateStep s g s' g' := by
  cases g with
  | entered r =>
    simp only [GenerateCall.step] at hs
    split_ifs at hs with h <;> cases hs
    · exact .draining h
    · exact .notDraining (Bool.eq_false_iff.mpr h)
  | notDraining r =>
    simp only [GenerateCall.step] at hs
    split_ifs at hs <;> cases hs
    · exact .rejected
    · exact .notRejected
  | notRejected r =>
    simp only [GenerateCall.step] at hs
    split_ifs at hs <;> cases hs
    · exact .error
    · exact .accepted
  | accepted r =>
    cases hs
    exact .reserve
  | streaming r i w =>
    simp only [GenerateCall.step] at hs
    split_ifs at hs with h <;> cases hs
    · exact .cancelled
    · exact .next h
    · exact .finished (not_lt.mp h)
  | writing r i w =>
    simp only [GenerateCall.step] at hs
    split_ifs at hs <;> cases hs
    · exact .write
    · exact .disconnected
  | leaving r status w =>
    cases hs
    exact .release
  | returned r status w => cases hs

/-- The steps of a call. -/
inductive ReplicaStep (s : ReplicaServer) : ReplicaCall → ReplicaServer → ReplicaCall → Prop
  | generate {s' : ReplicaServer} {g g' : GenerateCall} : GenerateStep s g s' g' →
      ReplicaStep s (.generate g) s' (.generate g')
  | setFlag : ReplicaStep s (.drain .entered) { s with draining := true } (.drain .polling)
  | poll : 0 < s.activeRequests → ReplicaStep s (.drain .polling) s (.drain .polling)
  | drained : s.activeRequests ≤ 0 → ReplicaStep s (.drain .polling) s (.drain .drained)

theorem replicaStep_cases (hs : t.step s c = some (s', t')) : ReplicaStep s t s' t' := by
  cases t with
  | generate g =>
    obtain ⟨⟨s₁, g'⟩, hg, heq⟩ := Option.map_eq_some_iff.mp hs
    cases heq
    exact .generate (generateStep_cases hg)
  | drain d =>
    obtain ⟨⟨s₁, d'⟩, hd, heq⟩ := Option.map_eq_some_iff.mp hs
    cases heq
    cases d with
    | entered =>
      cases hd
      exact .setFlag
    | polling =>
      simp only [DrainCall.step] at hd
      split_ifs at hd with hactive <;> cases hd
      · exact .poll hactive
      · exact .drained (not_lt.mp hactive)
    | drained => cases hd

/-! ## What a call writes -/

theorem firstResponses_succ (start stop : ℤ) (n : ℕ) :
    firstResponses start stop (n + 1) =
      firstResponses start stop n ++ [generateResponse (start + n) stop] := by
  simp [firstResponses, List.range_succ]

theorem firstResponses_mono {start stop : ℤ} {n m : ℕ} (h : n ≤ m) :
    firstResponses start stop n <+: firstResponses start stop m := by
  induction m, h using Nat.le_induction with
  | base => exact List.prefix_refl _
  | succ m _ ih =>
    rw [firstResponses_succ]
    exact ih.trans (List.prefix_append _ _)

/-- The request of a `Generate` call and what it has written. -/
def GenerateCall.output : GenerateCall → GenerateRequest × List GenerateResponse
  | .entered r | .notDraining r | .notRejected r | .accepted r => (r, [])
  | .streaming r _ w | .writing r _ w | .leaving r _ w | .returned r _ w => (r, w)

/-- The responses written so far are the first `n`; a call in its loop is at the token after them,
and one that ends with OK has written all. -/
def GenerateCall.InOrder (g : GenerateCall) : Prop :=
  ∃ n : ℕ, n ≤ (g.output.1.maxTokens - g.output.1.tokensAlreadyGenerated).toNat ∧
    g.output.2 = firstResponses g.output.1.tokensAlreadyGenerated g.output.1.maxTokens n ∧
    match g with
    | .streaming r i _ => i = r.tokensAlreadyGenerated + n
    | .writing r i _ => i = r.tokensAlreadyGenerated + n ∧ i < r.maxTokens
    | .leaving r status _ | .returned r status _ =>
      status.code = .ok → n = (r.maxTokens - r.tokensAlreadyGenerated).toNat
    | _ => True

theorem GenerateCall.InOrder.step {g g' : GenerateCall} (hg : g.InOrder)
    (hs : GenerateStep s g s' g') : g'.InOrder := by
  obtain ⟨n, hn, hw, hpos⟩ := hg
  cases hs with
  | draining | rejected | error => exact ⟨0, Nat.zero_le _, rfl, fun h => by cases h⟩
  | notDraining | notRejected | accepted => exact ⟨0, Nat.zero_le _, rfl, trivial⟩
  | reserve => exact ⟨0, Nat.zero_le _, rfl, by simp⟩
  | cancelled => exact ⟨n, hn, hw, fun h => by cases h⟩
  | next hlt => exact ⟨n, hn, hw, hpos, hlt⟩
  | @finished r i w hle =>
    refine ⟨n, hn, hw, fun _ => ?_⟩
    have hn' : n ≤ (r.maxTokens - r.tokensAlreadyGenerated).toNat := hn
    have hi : i = r.tokensAlreadyGenerated + n := hpos
    omega
  | @write r i w =>
    obtain ⟨hi, hlt⟩ : i = r.tokensAlreadyGenerated + n ∧ i < r.maxTokens := hpos
    have hw' : w = firstResponses r.tokensAlreadyGenerated r.maxTokens n := hw
    refine ⟨n + 1, ?_, ?_, ?_⟩
    · show n + 1 ≤ (r.maxTokens - r.tokensAlreadyGenerated).toNat
      omega
    · show w ++ [generateResponse i r.maxTokens] =
        firstResponses r.tokensAlreadyGenerated r.maxTokens (n + 1)
      rw [firstResponses_succ, hi, hw']
    · show i + 1 = r.tokensAlreadyGenerated + (n + 1 : ℕ)
      omega
  | disconnected => exact ⟨n, hn, hw, fun h => by cases h⟩
  | release => exact ⟨n, hn, hw, hpos⟩

/-- **What `Generate` writes**, in every run: the first tokens of the request in order, and all of
them when it returns OK. -/
theorem generate_written (hrun : Run replicaProgram.step newReplica es p) {g : GenerateCall}
    (hg : .generate g ∈ p.calls) : g.InOrder := by
  let Q : ReplicaServer → ReplicaCall → Prop := fun _ t => ∀ g, t = .generate g → g.InOrder
  have hP : Program.Preserves replicaProgram (fun _ => True) Q := by
    refine ⟨?_, ?_, fun _ _ _ _ _ _ _ _ u hu => hu, fun _ _ _ _ _ => ⟨trivial, fun u hu => hu⟩⟩
    · rintro s (r | _) _ g hg
      · cases hg
        exact ⟨0, Nat.zero_le _, rfl, trivial⟩
      · cases hg
    · rintro s t c s' t' - hQ hs
      refine ⟨trivial, fun g' hg' => ?_⟩
      subst hg'
      cases replicaStep_cases hs with
      | generate hg => exact (hQ _ rfl).step hg
  exact (hP.invariant trivial hrun).calls _ hg g rfl

/-! ## The counter -/

/-- Between the `fetch_add` and the `fetch_sub` of a `Generate` call. -/
def ReplicaCall.streaming : ReplicaCall → Bool
  | .generate (.streaming ..) | .generate (.writing ..) | .generate (.leaving ..) => true
  | _ => false

/-- Between the test of `draining_` and the `fetch_add` of a `Generate` call. -/
def ReplicaCall.admitted : ReplicaCall → Bool
  | .generate (.notDraining _) | .generate (.notRejected _) | .generate (.accepted _) => true
  | _ => false

/-- A step of a call changes the counter by what it changes of its own streaming. -/
theorem activeRequests_step (hs : t.step s c = some (s', t')) :
    s'.activeRequests + (if t.streaming then 1 else 0) =
      s.activeRequests + if t'.streaming then 1 else 0 := by
  cases replicaStep_cases hs with
  | generate hg => cases hg <;> simp [ReplicaCall.streaming]
  | setFlag | poll | drained => rfl

theorem active_eq_count (hrun : Run replicaProgram.step newReplica es p) :
    p.shared.activeRequests = p.calls.countP ReplicaCall.streaming := by
  induction hrun with
  | nil => rfl
  | @snoc es l s u _ hs ih =>
    cases Program.step_cases hs with
    | spawn x =>
      have hx : (replicaProgram.start x).streaming = false := by cases x <;> rfl
      simp [List.countP_append, hx, ih]
    | @call i c t t' s' hi ht =>
      have hactive := activeRequests_step (t := t) ht
      have hcount : (s.calls.set i t').countP ReplicaCall.streaming + _ = _ + _ :=
        Program.countP_set hi
      show s'.activeRequests = ((s.calls.set i t').countP ReplicaCall.streaming : ℤ)
      split_ifs at hactive hcount <;> omega
    | @env d s' henv => cases d <;> cases henv <;> exact ih

theorem draining_step (hs : t.step s c = some (s', t')) (h : s.draining = true) :
    s'.draining = true := by
  cases replicaStep_cases hs with
  | generate hg => cases hg <;> exact h
  | setFlag => rfl
  | poll | drained => exact h

theorem draining_of_polling (hrun : Run replicaProgram.step newReplica es p)
    (hpoll : ReplicaCall.drain .polling ∈ p.calls) : p.shared.draining = true := by
  let Q : ReplicaServer → ReplicaCall → Prop := fun s t => t = .drain .polling → s.draining = true
  have hP : Program.Preserves replicaProgram (fun _ => True) Q := by
    refine ⟨?_, ?_, fun s t c s' t' _ _ hs u hu h => draining_step hs (hu h), ?_⟩
    · rintro s (r | _) - h <;> cases h
    · rintro s t c s' t' - hQ hs
      refine ⟨trivial, ?_⟩
      rintro rfl
      cases replicaStep_cases hs with
      | setFlag => rfl
      | poll => exact hQ rfl
    · rintro s d s' - henv
      refine ⟨trivial, fun u hu h => ?_⟩
      cases d <;> cases henv <;> exact hu h
  exact (hP.invariant trivial hrun).calls _ hpoll rfl

/-! ## Draining -/

/-- A `Drain` call has returned, always with success. -/
def Drained (p : ReplicaPool) : Prop := ReplicaCall.drain .drained ∈ p.calls

/-- No `Generate` call is streaming. -/
def Quiet (p : ReplicaPool) : Prop :=
  p.shared.activeRequests = 0 ∧ ∀ t ∈ p.calls, t.streaming = false

/-- The step `l` is the write of a token. -/
def WritesToken (p : ReplicaPool) (l : ReplicaLabel) : Prop :=
  ∃ i c r k w, l = .call i c ∧ p.calls[i]? = some (.generate (.writing r k w))

/-- The step `l` is the poll with which a `Drain` call returns. -/
def DrainReturns (p : ReplicaPool) (l : ReplicaLabel) : Prop :=
  ∃ i c, l = .call i c ∧ p.calls[i]? = some (.drain .polling) ∧ p.shared.activeRequests ≤ 0

/-- No `Generate` call is between its test of `draining_` and its `fetch_add`. -/
def NoneAdmitted (p : ReplicaPool) : Prop := ∀ t ∈ p.calls, t.admitted = false

/-- Closed for good: the flag is set, and no call is past its test of it. -/
abbrev Closed (p : ReplicaPool) : Prop :=
  Program.Holds (fun s : ReplicaServer => s.draining = true ∧ s.activeRequests = 0)
    (fun _ t => t.streaming = false ∧ t.admitted = false) p

theorem Closed.quiet (h : Closed p) : Quiet p := ⟨h.shared.2, fun t ht => (h.calls t ht).1⟩

theorem Quiet.not_writesToken (h : Quiet p) : ¬ WritesToken p l := by
  rintro ⟨i, c, r, k, w, -, hi⟩
  have hstream := h.2 _ (List.mem_of_getElem? hi)
  cases hstream

theorem closed_preserves :
    Program.Preserves replicaProgram
      (fun s : ReplicaServer => s.draining = true ∧ s.activeRequests = 0)
      (fun _ t => t.streaming = false ∧ t.admitted = false) where
  start s x _ := by cases x <;> exact ⟨rfl, rfl⟩
  call s t c s' t' hI hQ hs := by
    cases replicaStep_cases hs with
    | generate hg =>
      cases hg with
      | draining => exact ⟨hI, rfl, rfl⟩
      | notDraining h =>
        rw [hI.1] at h
        cases h
      | rejected | notRejected | error | accepted | reserve => cases hQ.2
      | cancelled | next | finished | write | disconnected | release => cases hQ.1
    | setFlag => exact ⟨⟨rfl, hI.2⟩, rfl, rfl⟩
    | poll | drained => exact ⟨hI, rfl, rfl⟩
  others s t c s' t' _ _ _ u hu := hu
  env s d s' hI henv := by cases d <;> cases henv <;> exact ⟨hI, fun u hu => hu⟩

/-- Where `Drain` returns with no call admitted, the replica is closed. -/
theorem closed_of_drainReturns (hrun : Run replicaProgram.step newReplica es p)
    (hl : DrainReturns p l) (hnone : NoneAdmitted p) : Closed p := by
  obtain ⟨i, c, rfl, hi, hle⟩ := hl
  have hcount := active_eq_count hrun
  have hzero : p.calls.countP ReplicaCall.streaming = 0 := by omega
  refine ⟨⟨draining_of_polling hrun (List.mem_of_getElem? hi), by omega⟩, fun t ht => ?_⟩
  have hstream := List.countP_eq_zero.mp hzero t ht
  exact ⟨Bool.eq_false_iff.mpr hstream, hnone t ht⟩

/-- A run from `p` after which one more call is counted. -/
def CanReserve (p : ReplicaPool) : Prop :=
  ∃ fs q, Run replicaProgram.step p fs q ∧ q.shared.activeRequests = p.shared.activeRequests + 1

/-- A setting of the fault injection and a step of a call lead to where one more is counted. -/
theorem CanReserve.after {d : FaultSetting} {c : Choice} {i : ℕ} {p₁ p₂ : ReplicaPool}
    (h : CanReserve p₂) (h₁ : replicaProgram.step p (.env d) = some p₁)
    (h₂ : replicaProgram.step p₁ (.call i c) = some p₂)
    (hactive : p₂.shared.activeRequests = p.shared.activeRequests) : CanReserve p := by
  obtain ⟨fs, q, hq, hq'⟩ := h
  exact ⟨_, q, ((Run.snoc .nil h₁).snoc h₂).append hq, by rw [hq', hactive]⟩

theorem canReserve_accepted {i : ℕ} {r : GenerateRequest}
    (hi : p.calls[i]? = some (.generate (.accepted r))) : CanReserve p :=
  ⟨[.call i {}], _, Run.snoc .nil (Program.step_call hi rfl), rfl⟩

theorem canReserve_notRejected {i : ℕ} {r : GenerateRequest}
    (hi : p.calls[i]? = some (.generate (.notRejected r))) : CanReserve p := by
  let p₁ : ReplicaPool := ⟨{ p.shared with errorRate := 0 }, p.calls⟩
  have hnext : CanReserve ⟨p₁.shared, p.calls.set i (.generate (.accepted r))⟩ :=
    canReserve_accepted (List.getElem?_set_self (List.getElem?_eq_some_iff.mp hi).1)
  refine hnext.after (d := .errorRate 0) (c := {}) (i := i) rfl (Program.step_call hi ?_) rfl
  simp [replicaProgram, ReplicaCall.step, GenerateCall.step, ReplicaServer.shouldInjectError, p₁]

theorem canReserve_notDraining {i : ℕ} {r : GenerateRequest}
    (hi : p.calls[i]? = some (.generate (.notDraining r))) : CanReserve p := by
  let p₁ : ReplicaPool := ⟨{ p.shared with rejectAll := false }, p.calls⟩
  have hnext : CanReserve ⟨p₁.shared, p.calls.set i (.generate (.notRejected r))⟩ :=
    canReserve_notRejected (List.getElem?_set_self (List.getElem?_eq_some_iff.mp hi).1)
  exact hnext.after (d := .rejectAll false) (c := {}) (i := i) rfl (Program.step_call hi rfl) rfl

theorem canReserve {i : ℕ} (hi : p.calls[i]? = some t) (ht : t.admitted = true) :
    CanReserve p := by
  cases t with
  | drain d => cases ht
  | generate g =>
    cases g with
    | notDraining r => exact canReserve_notDraining hi
    | notRejected r => exact canReserve_notRejected hi
    | accepted r => exact canReserve_accepted hi
    | _ => cases ht

theorem exists_active_of_admitted (hl : DrainReturns p l) (hsome : ¬ NoneAdmitted p) :
    ∃ fs q, Run replicaProgram.step p (l :: fs) q ∧
      q.shared.activeRequests = p.shared.activeRequests + 1 := by
  obtain ⟨t, ht, hadmitted⟩ : ∃ t ∈ p.calls, t.admitted = true := by
    simpa [NoneAdmitted] using hsome
  obtain ⟨j, hj⟩ := List.getElem?_of_mem ht
  obtain ⟨i, c, rfl, hi, hle⟩ := hl
  have hne : i ≠ j := by
    rintro rfl
    rw [hi] at hj
    cases hj
    cases hadmitted
  let p' : ReplicaPool := ⟨p.shared, p.calls.set i (.drain .drained)⟩
  have hpoll : replicaProgram.step p (.call i c) = some p' := by
    refine Program.step_call hi ?_
    simp [replicaProgram, ReplicaCall.step, DrainCall.step, not_lt.mpr hle]
  have hj' : p'.calls[j]? = some t := by
    show (p.calls.set i (.drain .drained))[j]? = some t
    rw [List.getElem?_set_ne hne, hj]
  obtain ⟨fs, q, hq, hactive⟩ := canReserve hj' hadmitted
  exact ⟨fs, q, (Run.snoc .nil hpoll).append hq, hactive⟩

theorem Closed.run {q : ReplicaPool} (h : Closed p) (hrun : Run replicaProgram.step p es q) :
    Closed q :=
  hrun.invariant h fun _ _ _ h hs => closed_preserves.step h hs

/-- Only the last poll of a `Drain` call makes it return. -/
theorem drained_step (hs : replicaProgram.step p l = some p') (h : Drained p') :
    Drained p ∨ DrainReturns p l := by
  cases Program.step_cases hs with
  | spawn x =>
    rcases List.mem_append.mp h with h | h
    · exact Or.inl h
    · cases x <;> simp [replicaProgram] at h
  | @call i c t t' s' hi ht =>
    rcases List.mem_or_eq_of_mem_set h with h | rfl
    · exact Or.inl h
    · cases replicaStep_cases ht with
      | drained hactive => exact Or.inr ⟨i, c, rfl, hi, hactive⟩
  | env henv => exact Or.inl h

/-- **Draining.** In a run in which no `Generate` call is between its test of `draining_` and its
`fetch_add` whenever a `Drain` call returns, nothing streams and no token is written once one has
returned. And whatever the run, a `Drain` call leaves the replica quiet in all that can follow its
return exactly when no `Generate` call is there at that moment. -/
theorem drained_quiet (es : List ReplicaLabel) (p : ReplicaPool)
    (hrun : Run replicaProgram.step newReplica es p) :
    ((EveryStep replicaProgram.step newReplica es fun _ p l => DrainReturns p l → NoneAdmitted p) →
      (Always replicaProgram.step newReplica es fun _ p => Drained p → Quiet p) ∧
      EveryStep replicaProgram.step newReplica es fun _ p l => Drained p → ¬ WritesToken p l) ∧
    ∀ l, DrainReturns p l →
      ((∀ fs q, Run replicaProgram.step p (l :: fs) q → Quiet q ∧ ∀ m, ¬ WritesToken q m) ↔
        NoneAdmitted p) := by
  constructor
  · intro hreturn
    have hclosed : Always replicaProgram.step newReplica es fun _ p => Drained p → Closed p := by
      refine always_of_everyStep hrun (fun h => by cases h) ?_ hreturn
      intro pre p l p' hpre hp hl hs hdrained
      rcases drained_step hs hdrained with hbefore | hret
      · exact closed_preserves.step (hp hbefore) hs
      · exact closed_preserves.step (closed_of_drainReturns hpre hret (hl hret)) hs
    refine ⟨hclosed.mono fun _ p _ h hdrained => (h hdrained).quiet, ?_⟩
    intro pre l p hpre hp hdrained
    exact (hclosed pre p ((List.prefix_append _ _).trans hpre) hp hdrained).quiet.not_writesToken
  · intro l hl
    constructor
    · intro hquiet
      by_contra hsome
      obtain ⟨fs, q, hq, hactive⟩ := exists_active_of_admitted hl hsome
      have hzero := (hquiet fs q hq).1.1
      have hcount := active_eq_count hrun
      omega
    · intro hnone fs q hq
      have hquiet := ((closed_of_drainReturns hrun hl hnone).run hq).quiet
      exact ⟨hquiet, fun m => hquiet.not_writesToken⟩

/-- A `Drain` call polls while a `Generate` call streams, and returns when that one has ended. -/
theorem drained_quiet_streamed :
    let r : GenerateRequest := ⟨"req-1", "hello", 1, 0⟩
    let es : List ReplicaLabel := [.spawn (.generate r), .call 0 {}, .call 0 {}, .call 0 {}, .call 0 {},
      .spawn .drain, .call 1 {}, .call 0 {}, .call 1 {}, .call 0 {}, .call 0 {}, .call 0 {}]
    ∃ p, Run replicaProgram.step newReplica es p ∧
      p.calls = [.generate (.returned r .ok [⟨"token_0", true⟩]), .drain .polling] ∧
      DrainReturns p (.call 1 {}) ∧
      ∀ fs q, Run replicaProgram.step p (.call 1 {} :: fs) q → Quiet q ∧ ∀ m, ¬ WritesToken q m := by
  intro r es
  have hrun : Run replicaProgram.step newReplica es _ := run_get (by decide)
  have hcalls : ((exec replicaProgram.step newReplica es).get (by decide)).calls =
      [.generate (.returned r .ok [⟨"token_0", true⟩]), .drain .polling] := by decide
  have hl : DrainReturns ((exec replicaProgram.step newReplica es).get (by decide))
      (.call 1 {}) := ⟨1, {}, rfl, by decide, by decide⟩
  refine ⟨_, hrun, hcalls, hl, ((drained_quiet es _ hrun).2 _ hl).mpr ?_⟩
  intro t ht
  rw [hcalls] at ht
  rcases List.mem_pair.mp ht with rfl | rfl <;> rfl

/-- A `Generate` call passes the test of `draining_`, a `Drain` call sets the flag, finds nothing
active and returns, and the `Generate` call is counted and comes to write a token. -/
theorem not_drained_quiet_admitted :
    let r : GenerateRequest := ⟨"req-1", "hello", 1, 0⟩
    let es : List ReplicaLabel := [.spawn (.generate r), .spawn .drain, .call 0 {}, .call 1 {},
      .call 1 {}, .call 0 {}, .call 0 {}, .call 0 {}, .call 0 {}]
    ∃ p, Run replicaProgram.step newReplica es p ∧ Drained p ∧ ¬ Quiet p ∧
      WritesToken p (.call 0 {}) := by
  intro r es
  have hrun : Run replicaProgram.step newReplica es _ := run_get (by decide)
  refine ⟨_, hrun, ?_, ?_, ⟨0, {}, r, 0, [], rfl, by decide⟩⟩
  · show ReplicaCall.drain .drained ∈ _
    decide
  · rintro ⟨hzero, -⟩
    revert hzero
    decide

end LlmGateway.Replica
