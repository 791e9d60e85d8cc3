import LlmGateway.Gateway.Race

/-!
# A loser that hangs

`InferHedged` joins both race threads before it cancels the loser and writes the winner's first
token. `HangsOn` is the invariant of a race with a thread whose first `Read` has not returned: as
long as that thread takes no step, whatever everybody else does, nothing is written
(`hangsOn_run`), so the main thread alone does not get there (`not_writesByMain`).
-/

namespace LlmGateway.Gateway

open Transition World

/-- The race of a call, while its threads run or are joined. -/
def Stage.race : Stage → Option Race
  | .hedged (.waiting r) | .hedged (.joining r _) => some r
  | _ => none

/-- In the race of the call `i` a thread has read its first token and set the promise, and the
first `Read` of the other one, `b`, has not returned. -/
def LoserHangs (p : GatewayPool) (i : ℕ) (b : Actor) : Prop :=
  ∃ f r a token, p.calls[i]? = some (.infer f) ∧ f.stage.race = some r ∧ a ≠ .main ∧ b ≠ .main ∧
    r.promise = some a.number ∧ (r.get a).firstToken = some token ∧ (r.get b).thread = .reading

/-- A step of the main thread of the call `i`. -/
def MainStep (i : ℕ) (l : GatewayLabel) : Prop := ∃ c, l = .call i c ∧ c.actor = .main

/-- The call `i` has written to its client. -/
def Wrote (p : GatewayPool) (i : ℕ) : Prop :=
  ∃ f, p.calls[i]? = some (.infer f) ∧ f.written ≠ []

/-- Steps of its main thread alone bring the call `i` to write to its client. -/
def WritesByMain (hash : List UInt8 → ℕ) (p : GatewayPool) (i : ℕ) : Prop :=
  ∃ es s, (∀ l ∈ es, MainStep i l) ∧ Run (gatewayProgram hash).step p es s ∧ Wrote s i

/-- The call is in its race and has written nothing, and the thread `b` is at its first `Read`. -/
def InferCall.HangsOn (f : InferCall) (b : Actor) : Prop :=
  f.written = [] ∧ ∃ r, f.stage.race = some r ∧ (r.get b).thread = .reading

variable {hash : List UInt8 → ℕ} {g g' : GatewayState} {c : InferChoice} {f f' : InferCall}
  {b : Actor} {p p' : GatewayPool} {es : List GatewayLabel} {l : GatewayLabel} {i : ℕ}

theorem get_of_threadStep {r r' : Race} {a : Actor} {request : ℕ → GenerateRequest}
    {firstRead : Option GenerateResponse} (ha : a ≠ .main) (hb : b ≠ .main) (hne : b ≠ a)
    (hs : r.threadStep a request firstRead = some r') : r'.get b = r.get b := by
  have hother : ∀ x winnerSet promise,
      ({ r.setRacer a x with winnerSet, promise } : Race).get b = r.get b := by
    intro x winnerSet promise
    rw [get_setRacer ha hb, if_neg hne]
  rw [threadStep_eq ha] at hs
  split at hs
  · split at hs
    · cases hs
      exact hother _ _ _
    · split_ifs at hs
      cases hs
      exact hother _ _ _
  · split_ifs at hs <;> cases hs <;> exact hother _ _ _
  · cases hs
    exact hother _ _ _
  · cases hs

/-- **One step.** The call stays in its race, unless the thread that hangs goes on. -/
theorem InferCall.HangsOn.step (h : f.HangsOn b) (hb : b ≠ .main) (hc : c.actor ≠ b)
    (hs : f.step hash g c = some (g', f')) : f'.HangsOn b := by
  obtain ⟨hwritten, r, hrace, hreading⟩ := h
  cases stepMove hs with
  | pending => exact ⟨hwritten, r, hrace, hreading⟩
  | enter _ hstage | enterHedged _ hstage =>
    rw [hstage] at hrace
    cases hrace
  | infer _ hmove =>
    obtain ⟨s, hstage⟩ := hmove.source
    rw [hstage] at hrace
    cases hrace
  | hedged _ hstage hhedge =>
    rw [hstage] at hrace
    cases hedgeMove hhedge with
    | take | giveUp =>
      cases hrace
      exact ⟨hwritten, r, rfl, hreading⟩
    | @race _ r' hmain hthread | @late _ r' _ hmain hthread =>
      cases hrace
      refine ⟨hwritten, r', rfl, ?_⟩
      rw [get_of_threadStep hmain hb hc.symm hthread, hreading]
    | join _ hfirst hsecond =>
      -- the threads are not both done
      cases hrace
      cases b with
      | main => exact absurd rfl hb
      | first => exact absurd (hreading.symm.trans hfirst) nofun
      | second => exact absurd (hreading.symm.trans hsecond) nofun
    | _ => cases hrace

theorem hangsOn_step (hb : b ≠ .main) (hi : p.calls[i]? = some (.infer f)) (h : f.HangsOn b)
    (hl : ∀ c, l = .call i c → c.actor ≠ b) (hs : (gatewayProgram hash).step p l = some p') :
    ∃ f', p'.calls[i]? = some (.infer f') ∧ f'.HangsOn b := by
  have hlt := (List.getElem?_eq_some_iff.mp hi).1
  cases Program.step_cases hs with
  | spawn x => exact ⟨f, (List.getElem?_append_left hlt).trans hi, h⟩
  | env => exact ⟨f, hi, h⟩
  | @call j c t t' s hj ht =>
    by_cases hji : j = i
    · subst hji
      rw [hi] at hj
      cases hj
      obtain ⟨⟨g', f'⟩, hf, heq⟩ := Option.map_eq_some_iff.mp ht
      cases heq
      exact ⟨f', List.getElem?_set_self hlt, h.step hb (hl c rfl) hf⟩
    · exact ⟨f, (List.getElem?_set_ne hji).trans hi, h⟩

/-- **The whole run.** As long as the thread hangs, the call stays in its race. -/
theorem hangsOn_run (hb : b ≠ .main) (hi : p.calls[i]? = some (.infer f)) (h : f.HangsOn b)
    (hes : ∀ l ∈ es, ∀ c, l = .call i c → c.actor ≠ b)
    (hrun : Run (gatewayProgram hash).step p es p') :
    ∃ f', p'.calls[i]? = some (.infer f') ∧ f'.HangsOn b := by
  induction hrun with
  | nil => exact ⟨f, hi, h⟩
  | snoc hrun hs ih =>
    obtain ⟨f₁, hi₁, h₁⟩ := ih fun l hl => hes l (List.mem_append_left _ hl)
    exact hangsOn_step hb hi₁ h₁ (hes _ (List.mem_append_right _ (List.mem_singleton_self _))) hs

theorem LoserHangs.hangsOn {g₀ : GatewayState} (h : LoserHangs p i b)
    (hrun : Run (gatewayProgram hash).step ⟨g₀, []⟩ es p) :
    b ≠ .main ∧ ∃ f, p.calls[i]? = some (.infer f) ∧ f.HangsOn b := by
  obtain ⟨f, r, a, token, hi, hrace, -, hb, -, -, hreading⟩ := h
  refine ⟨hb, f, hi, unsent_of_run hrun (List.mem_of_getElem? hi) ?_ ?_, r, hrace, hreading⟩
  · intro s hs
    rw [hs] at hrace
    cases hrace
  · cases hstage : f.stage with
    | entered | infer s =>
      rw [hstage] at hrace
      cases hrace
    | hedged t =>
      rw [hstage] at hrace
      cases t with
      | returned status => cases hrace
      | _ => rfl

/-- **The client waits for the loser.** In no reachable state with a winner and a loser that hangs
do steps of the main thread bring the winner's first token to the client, and no run does in which
the loser goes on hanging. -/
theorem not_writesByMain (hash : List UInt8 → ℕ) (g₀ : GatewayState) (p : GatewayPool) (i : ℕ)
    (b : Actor) (hp : Reaches (gatewayProgram hash).step ⟨g₀, []⟩ p) (hhangs : LoserHangs p i b) :
    ¬ WritesByMain hash p i ∧
      ∀ es s, (∀ l ∈ es, ∀ c, l = .call i c → c.actor ≠ b) →
        Run (gatewayProgram hash).step p es s → ¬ Wrote s i := by
  obtain ⟨es₀, hrun₀⟩ := hp
  obtain ⟨hb, f, hi, hf⟩ := hhangs.hangsOn hrun₀
  have hrest : ∀ es s, (∀ l ∈ es, ∀ c, l = .call i c → c.actor ≠ b) →
      Run (gatewayProgram hash).step p es s → ¬ Wrote s i := by
    rintro es s hes hrun ⟨f₁, hi₁, hwrote⟩
    obtain ⟨f', hi', hwritten, -⟩ := hangsOn_run hb hi hf hes hrun
    rw [hi'] at hi₁
    cases hi₁
    exact hwrote hwritten
  refine ⟨?_, hrest⟩
  rintro ⟨es, s, hmain, hrun, hwrote⟩
  refine hrest es s (fun l hl c hc => ?_) hrun hwrote
  obtain ⟨c', rfl, hc'⟩ := hmain l hl
  cases hc
  rw [hc']
  exact hb.symm

/-- A thread reads a first token and sets the promise. -/
def winsRace (a : Actor) : List GatewayLabel :=
  [.call 0 { actor := a, firstRead := some ⟨"token_0", true⟩ }, .call 0 { actor := a },
    .call 0 { actor := a }]

/-- The race then: the other thread has not come back from its first `Read`. -/
def wonRace (a : Actor) : Race :=
  let r := newRace 0 ⟨"replica-1", "a:7001"⟩ ⟨"replica-2", "b:7002"⟩
  { r.setRacer a { r.get a with thread := .finished, firstToken := some ⟨"token_0", true⟩ } with
    winnerSet := true, promise := some a.number }

theorem not_writesByMain_second :
    ∃ p, Reaches (gatewayProgram fun _ => 0).step (newGateway 150 {} 100) p ∧
      LoserHangs p 0 .first ∧ ¬ WritesByMain (fun _ => 0) p 0 := by
  have hrun : Run (gatewayProgram fun _ => 0).step (newGateway 150 {} 100)
      (hedgedStart ++ winsRace .second) _ := run_get (by decide +kernel)
  have hcall : ((exec (gatewayProgram fun _ => 0).step (newGateway 150 {} 100)
      (hedgedStart ++ winsRace .second)).get (by decide +kernel)).calls[0]? =
        some (.infer { request := ⟨"client", "hello", 1, true⟩,
                       stage := .hedged (.waiting (wonRace .second)) }) := by decide +kernel
  have hhangs : LoserHangs _ 0 .first :=
    ⟨_, wonRace .second, .second, ⟨"token_0", true⟩, hcall, rfl, nofun, nofun, rfl, rfl, rfl⟩
  exact ⟨_, ⟨_, hrun⟩, hhangs, (not_writesByMain _ _ _ 0 .first ⟨_, hrun⟩ hhangs).1⟩

/-- The first thread has its token, and the second replica hangs: the main thread leaves its wait
for the promise, and then waits for the second thread. -/
theorem client_waits_for_loser :
    ∃ p, Reaches (gatewayProgram fun _ => 0).step (newGateway 150 {} 100) p ∧
      LoserHangs p 0 .second ∧ ¬ WritesByMain (fun _ => 0) p 0 := by
  have hrun : Run (gatewayProgram fun _ => 0).step (newGateway 150 {} 100)
      (hedgedStart ++ winsRace .first) _ := run_get (by decide +kernel)
  have hcall : ((exec (gatewayProgram fun _ => 0).step (newGateway 150 {} 100)
      (hedgedStart ++ winsRace .first)).get (by decide +kernel)).calls[0]? =
        some (.infer { request := ⟨"client", "hello", 1, true⟩,
                       stage := .hedged (.waiting (wonRace .first)) }) := by decide +kernel
  refine ⟨_, ⟨_, hrun⟩, ⟨_, wonRace .first, .first, ⟨"token_0", true⟩, hcall, rfl, nofun, nofun, rfl,
    rfl, rfl⟩, ?_⟩
  rintro ⟨es, s, hmain, hes, f, hi, hwrote⟩
  -- steps of the main thread leave the call in its race
  obtain ⟨f', hi', hwritten, -⟩ := hangsOn_run (b := .second) nofun hcall
    ⟨rfl, wonRace .first, rfl, rfl⟩ (fun l hl c hc => by
      obtain ⟨c', rfl, hc'⟩ := hmain l hl
      cases hc
      rw [hc']
      exact nofun) hes
  rw [hi'] at hi
  cases hi
  exact hwrote hwritten

end LlmGateway.Gateway
