import LlmGateway.Gateway.World

/-!
# The race of a hedged call

Two race threads read the first token of their replicas, and the main thread waits for the winner.

1. `thread_progress`: a race thread that is not done takes a step, and leaves the other one alone.
2. `ends_joining`: when the main thread has an answer, the threads are joined, and it stands; with a
   thread whose first `Read` does not return, that has no end.
3. `ends_reading`: the thread that is next and reads a token wins; `ends_no_token`: without a token
   the other one is next; `not_ends_waiting`: the deadline passes.
4. `ends_race`: the race comes to its `winner`, and the call to what the winner `Carries`.
-/

namespace LlmGateway.Gateway

open Outcome Replica

namespace World

variable {W : World} {hash : List UInt8 → ℕ} {P : GatewayState × InferCall → Prop}
  {g : GatewayState} {f : InferCall} {n : ℤ} {id : String}

/-! ## The threads -/

theorem faster_ne_main (r : Race) : W.faster n r ≠ .main := by
  unfold faster
  split_ifs <;> exact nofun

theorem slower_ne_main (r : Race) : W.slower n r ≠ .main := by
  unfold slower
  split_ifs <;> exact nofun

theorem slower_ne_faster (r : Race) : W.slower n r ≠ W.faster n r := by
  unfold slower faster
  split_ifs <;> exact nofun

theorem eq_faster_or_slower (W : World) (n : ℤ) (r : Race) {a : Actor} (ha : a ≠ .main) :
    a = W.faster n r ∨ a = W.slower n r := by
  unfold faster slower
  cases a with
  | main => exact absurd rfl ha
  | first => split_ifs <;> simp
  | second => split_ifs <;> simp

/-- The main thread has its turn when both race threads are done. -/
theorem nextThread_eq_main {r : Race} :
    W.nextThread n r = .main ↔ r.first.thread = .finished ∧ r.second.thread = .finished := by
  have hfaster := W.faster_ne_main (n := n) r
  have hslower := W.slower_ne_main (n := n) r
  have hboth : ((r.get (W.faster n r)).thread = .finished ∧
      (r.get (W.slower n r)).thread = .finished) ↔
      r.first.thread = .finished ∧ r.second.thread = .finished := by
    unfold faster slower
    split_ifs
    · rfl
    · exact and_comm
  rw [← hboth]
  unfold nextThread
  by_cases h₁ : (r.get (W.faster n r)).thread = .finished
  · rw [if_neg (not_not.mpr h₁)]
    by_cases h₂ : (r.get (W.slower n r)).thread = .finished
    · rw [if_neg (not_not.mpr h₂)]
      exact iff_of_true rfl ⟨h₁, h₂⟩
    · rw [if_pos h₂]
      exact iff_of_false hslower fun h => h₂ h.2
  · rw [if_pos h₁]
    exact iff_of_false hfaster fun h => h₁ h.1

theorem nextThread_unfinished {r : Race} (h : W.nextThread n r ≠ .main) :
    (r.get (W.nextThread n r)).thread ≠ .finished := by
  unfold nextThread at h ⊢
  split_ifs at h ⊢ with h₁ h₂
  · exact h₁
  · exact h₂
  · exact absurd rfl h

/-- The same race, for the question which thread is faster. -/
structure Alike (r r' : Race) : Prop where
  deadline : r'.deadline = r.deadline
  selection : ∀ a, (r'.get a).selection = (r.get a).selection

namespace Alike

variable {r r' : Race}

theorem faster_slower (h : Alike r r') :
    W.faster n r' = W.faster n r ∧ W.slower n r' = W.slower n r := by
  have hfirst : r'.first.selection = r.first.selection := h.selection .first
  have hsecond : r'.second.selection = r.second.selection := h.selection .second
  unfold World.faster World.slower
  rw [hfirst, hsecond]
  exact ⟨rfl, rfl⟩

theorem arrival (h : Alike r r') (a : Actor) : W.arrival n r' a = W.arrival n r a := by
  unfold World.arrival
  rw [h.deadline, h.selection]

end Alike

/-- The first token of a replica's stream. -/
def token (W : World) (n : ℤ) (id : String) : Option GenerateResponse :=
  (W.stream n id 0).reads.head?.map (·.response)

theorem token_serves {r : GenerateRequest} {tok : GenerateResponse} (hn : r.maxTokens = n)
    (hstart : r.tokensAlreadyGenerated = 0) (htok : W.token n id = some tok) :
    (⟨[{ response := tok }], true⟩ : ReplicaStream).Serves r := by
  obtain ⟨e, he, rfl⟩ := Option.map_eq_some_iff.mp htok
  have hserves : (W.stream n id 0).Serves r := stream_serves hn hstart
  unfold ReplicaStream.Serves at hserves ⊢
  obtain ⟨rest, hrest⟩ := List.head?_eq_some_iff.mp he
  rw [hrest] at hserves
  rw [List.map_cons] at hserves
  exact (List.prefix_append [e.response] _).trans hserves

theorem get_setRacer {r : Race} {a b : Actor} {x : Racer} {winnerSet : Bool} {promise : Option ℕ}
    (ha : a ≠ .main) (hb : b ≠ .main) :
    ({ r.setRacer a x with winnerSet, promise } : Race).get b = if b = a then x else r.get b := by
  cases a <;> cases b <;> first | rfl | exact absurd rfl ha | exact absurd rfl hb

theorem alike_setRacer {r : Race} {a : Actor} {x : Racer} {winnerSet : Bool} {promise : Option ℕ}
    (hselection : x.selection = (r.get a).selection) :
    Alike r { r.setRacer a x with winnerSet, promise } where
  deadline := by cases a <;> rfl
  selection b := by cases a <;> cases b <;> first | rfl | exact hselection

theorem promise_setRacer (r : Race) (a : Actor) (x : Racer) :
    (r.setRacer a x).promise = r.promise ∧ (r.setRacer a x).winnerSet = r.winnerSet := by
  cases a <;> exact ⟨rfl, rfl⟩

theorem threadStep_eq {r : Race} {a : Actor} (ha : a ≠ .main) (request : ℕ → GenerateRequest)
    (firstRead : Option GenerateResponse) : r.threadStep a request firstRead =
      match (r.get a).thread with
      | .reading =>
        match firstRead with
        | none => some (r.setRacer a { r.get a with thread := .finished })
        | some response =>
          if (⟨[{ response }], true⟩ : ReplicaStream).Serves (request a.number) then
            some (r.setRacer a { r.get a with thread := .swapping, firstToken := response })
          else none
      | .swapping =>
        if r.winnerSet then some (r.setRacer a { r.get a with thread := .finished })
        else some { r.setRacer a { r.get a with thread := .setting } with winnerSet := true }
      | .setting =>
        some { r.setRacer a { r.get a with thread := .finished } with promise := some a.number }
      | .finished => none := by
  cases a with
  | main => exact absurd rfl ha
  | first => rfl
  | second => rfl

/-- The steps of a race thread that are left. -/
def remaining : RaceThread → ℕ
  | .reading => 3
  | .swapping => 2
  | .setting => 1
  | .finished => 0

theorem thread_progress {r : Race} {a : Actor} (ha : a ≠ .main)
    (hthread : (r.get a).thread ≠ .finished) (prompt : String) :
    ∃ r', r.threadStep a (hedgeRequest prompt n)
        (W.token n (r.get a).selection.replicaId) = some r' ∧
      remaining (r'.get a).thread < remaining (r.get a).thread ∧ Alike r r' ∧
      ∀ b, b ≠ .main → b ≠ a → r'.get b = r.get b := by
  have hself : ∀ x winnerSet promise k, remaining x.thread < k →
      remaining (({ r.setRacer a x with winnerSet, promise } : Race).get a).thread < k := by
    intro x winnerSet promise k hk
    rw [get_setRacer ha ha, if_pos rfl]
    exact hk
  have hother : ∀ x winnerSet promise b, b ≠ .main → b ≠ a →
      ({ r.setRacer a x with winnerSet, promise } : Race).get b = r.get b := by
    intro x winnerSet promise b hb hne
    rw [get_setRacer ha hb, if_neg hne]
  rw [threadStep_eq ha]
  cases hpc : (r.get a).thread with
  | finished => exact absurd hpc hthread
  | reading =>
    cases htok : W.token n (r.get a).selection.replicaId with
    | none =>
      refine ⟨_, rfl, hself _ _ _ _ ?_, alike_setRacer rfl, hother _ _ _⟩
      exact (by decide : 0 < 3)
    | some tok =>
      refine ⟨_, if_pos (W.token_serves rfl rfl htok), hself _ _ _ _ ?_, alike_setRacer rfl, hother _ _ _⟩
      exact (by decide : 2 < 3)
  | swapping =>
    by_cases hset : r.winnerSet = true
    · refine ⟨_, if_pos hset, hself _ _ _ _ ?_, alike_setRacer rfl, hother _ _ _⟩
      exact (by decide : 0 < 2)
    · refine ⟨_, if_neg hset, hself _ _ _ _ ?_, alike_setRacer rfl, hother _ _ _⟩
      exact (by decide : 1 < 2)
  | setting =>
    refine ⟨_, rfl, hself _ _ _ _ ?_, alike_setRacer rfl, hother _ _ _⟩
    exact (by decide : 0 < 1)

theorem hedgeStep_thread {c : InferChoice} {r : Race} (ha : c.actor ≠ .main) (k : ℕ) :
    f.hedgeStep hash g c (.waiting r) =
        (r.threadStep c.actor (hedgeRequest f.request.prompt f.request.maxTokens) c.firstRead).map
          (fun r' => (g, f.hedge (.waiting r'))) ∧
      f.hedgeStep hash g c (.joining r k) =
        (r.threadStep c.actor (hedgeRequest f.request.prompt f.request.maxTokens) c.firstRead).map
          fun r' => (g, f.hedge (.joining r' k)) := by
  unfold InferCall.hedgeStep
  cases hactor : c.actor with
  | main => exact absurd hactor ha
  | first => exact ⟨rfl, rfl⟩
  | second => exact ⟨rfl, rfl⟩

/-! ## Joining the threads -/

theorem remaining_lt {r r' : Race} {a : Actor} (ha : a ≠ .main)
    (hless : remaining (r'.get a).thread < remaining (r.get a).thread)
    (hother : ∀ b, b ≠ .main → b ≠ a → r'.get b = r.get b) :
    remaining r'.first.thread + remaining r'.second.thread <
      remaining r.first.thread + remaining r.second.thread := by
  cases a with
  | main => exact absurd rfl ha
  | first =>
    have hsecond : r'.second = r.second := hother .second nofun nofun
    rw [hsecond]
    exact Nat.add_lt_add_right hless _
  | second =>
    have hfirst : r'.first = r.first := hother .first nofun nofun
    rw [hfirst]
    exact Nat.add_lt_add_left hless _

/-- While the threads are joined, whoever is not done goes on once its first `Read` has returned;
what holds of the race all the while decides the outcome. -/
theorem ends_joining {k : ℕ} {Q : Prop} (Inv : Race → Prop)
    (hinv : ∀ r r' a, Inv r → a ≠ .main → (r.get a).thread ≠ .finished →
      W.arrival f.request.maxTokens r a ≠ ⊤ → Alike r r' →
      (∀ b, b ≠ .main → b ≠ a → r'.get b = r.get b) → Inv r')
    (hdone : ∀ g r, Inv r → r.first.thread = .finished → r.second.thread = .finished →
      (Ends (W.step hash) P (g, f.afterRace r k) ↔ Q))
    (hstuck : ∀ g r a, Inv r → a ≠ .main → W.arrival f.request.maxTokens r a = ⊤ →
      (P (g, f.hedge (.joining r k)) ↔ Q))
    (hpending : f.pending = []) {r : Race} (hr : Inv r) :
    Ends (W.step hash) P (g, f.hedge (.joining r k)) ↔ Q := by
  induction hm : remaining r.first.thread + remaining r.second.thread using Nat.strong_induction_on
    generalizing r g with
  | _ m ih =>
    have hturn : W.turn g.now (f.hedge (.joining r k)) = _ := if_neg (not_not.mpr hpending)
    by_cases hnext : W.nextThread f.request.maxTokens r = .main
    · obtain ⟨hfirst, hsecond⟩ := nextThread_eq_main.mp hnext
      have hmain : W.step hash (g, f.hedge (.joining r k)) = some (g, f.afterRace r k) := by
        rw [step_hedged (f := f.hedge (.joining r k)) rfl hpending (hturn.trans (if_pos hnext))]
        exact if_pos ⟨hfirst, hsecond⟩
      rw [ends_iff_of_step hmain]
      exact hdone _ _ hr hfirst hsecond
    · have hunfinished := nextThread_unfinished hnext
      by_cases hsilent : W.arrival f.request.maxTokens r (W.nextThread f.request.maxTokens r) = ⊤
      · rw [ends_iff_of_stop
          (step_silent (hturn.trans ((if_neg hnext).trans (if_pos hsilent))))]
        exact hstuck g r _ hr hnext hsilent
      · obtain ⟨r', hr', hless, halike, hother⟩ :=
          W.thread_progress (n := f.request.maxTokens) hnext hunfinished f.request.prompt
        have hthread : W.step hash (g, f.hedge (.joining r k)) = _ :=
          (step_hedged (f := f.hedge (.joining r k)) rfl hpending
            (hturn.trans ((if_neg hnext).trans (if_neg hsilent)))).trans
            (hedgeStep_thread (c := W.choice g (W.nextThread f.request.maxTokens r)
              (f.hedge (.joining r k))) hnext k).2
        rw [ends_iff_of_step (hthread.trans (congrArg (Option.map _) hr'))]
        refine ih _ ?_ (hinv _ _ _ hr hnext hunfinished hsilent halike hother) rfl
        rw [← hm]
        exact remaining_lt hnext hless hother

/-! ## What comes of the race -/

theorem not_ends_joining (hpending : f.pending = []) {r : Race} :
    ¬ Ends (W.step hash) (fun x => x.2.Delivered) (g, f.hedge (.joining r 0)) := by
  refine (ends_joining (fun _ => True) (fun _ _ _ _ _ _ _ _ _ => trivial) (fun g r _ _ _ => ?_)
    (fun g r a _ _ _ => ?_) hpending trivial).not.mpr not_false
  · have hstage : (f.afterRace r 0).stage =
        .hedged (.returned ⟨.unavailable, "both hedged replicas failed"⟩) := rfl
    rw [ends_returned hstage, iff_false]
    exact not_delivered (congrArg Stage.status hstage) (by decide)
  · rw [iff_false]
    exact nofun

theorem ends_forwarding {k : ℕ} {s : Selection} {tok : GenerateResponse}
    (hwritten : f.written = []) (htok : W.token f.request.maxTokens s.replicaId = some tok)
    (ops : List Operation) :
    Ends (W.step hash) (fun x => x.2.Delivered)
        (g, { f.hedge (.forwarding k s tok) with pending := ops }) ↔
      W.Whole f.request.maxTokens s ∧ (W.ending s.replicaId 0).isSome := by
  rw [ends_pending]
  dsimp only
  generalize ops.foldl Operation.apply g = g₁
  have hturn : W.turn g₁.now { f.hedge (.forwarding k s tok) with pending := [] } =
      if (W.ending s.replicaId 0).isSome then some (.main, g₁.now) else none := rfl
  by_cases hended : (W.ending s.replicaId 0).isSome
  · obtain ⟨e, he, rfl⟩ := Option.map_eq_some_iff.mp htok
    obtain ⟨rest, hrest⟩ := List.head?_eq_some_iff.mp he
    have hattended := W.stream_attended f.request.maxTokens s.replicaId 0
    have hsame : ({ response := e.response } : StreamRead) = e := by
      have hmem : e ∈ (W.stream f.request.maxTokens s.replicaId 0).reads := List.mem_of_mem_head? he
      obtain ⟨_, -, rfl⟩ := List.mem_map.mp hmem
      rfl
    have hserves : (⟨{ response := e.response } ::
        (W.stream f.request.maxTokens s.replicaId 0).reads.tail,
          (W.stream f.request.maxTokens s.replicaId 0).ok⟩ : ReplicaStream).Serves
            (hedgeRequest f.request.prompt f.request.maxTokens k) := by
      rw [hsame, hrest]
      unfold ReplicaStream.Serves
      rw [List.tail_cons, ← hrest]
      exact stream_serves rfl rfl
    have hrun : W.step hash (g₁, { f.hedge (.forwarding k s e.response) with pending := [] }) = some
        (g₁, { f.hedge (.returned .ok) with
          written := f.written ++ [inferResponse s.replicaId e.response] ++
            (forward s.replicaId true 1 (W.stream f.request.maxTokens s.replicaId 0).reads.tail).1
          pending := [.decrementActive s.replicaId, .notifyCapacityAvailable] }) := by
      rw [step_hedged (s := .forwarding k s e.response) rfl rfl (hturn.trans (if_pos hended))]
      exact if_pos hserves
    have hrest' : (forward s.replicaId true 1 rest).1 =
        rest.map fun e => inferResponse s.replicaId e.response :=
      forward_attended fun e' he' => hattended e' (hrest ▸ List.mem_cons_of_mem e he')
    have hall : [inferResponse s.replicaId e.response] ++
        (rest.map fun e => inferResponse s.replicaId e.response) =
        (W.stream f.request.maxTokens s.replicaId 0).reads.map fun e =>
          inferResponse s.replicaId e.response := by
      rw [hrest]
      rfl
    rw [ends_iff_of_step hrun, ends_returned rfl, hwritten, hrest, List.tail_cons, hrest',
      List.nil_append, hall, and_iff_left hended]
    exact delivered_iff_whole rfl rfl
  · -- the call waits for the rest of the stream
    rw [ends_iff_of_stop (step_silent (hturn.trans (if_neg hended)))]
    exact iff_of_false nofun fun h => hended h.2

theorem afterRace_winner {r : Race} {a : Actor} {tok : GenerateResponse} (ha : a ≠ .main)
    (hfirst : (r.get a).firstToken = some tok) : ∃ ops, f.afterRace r a.number =
      { f.hedge (.forwarding a.number (r.get a).selection tok) with pending := ops } := by
  cases a with
  | main => exact absurd rfl ha
  | first =>
    have hwon : r.first.firstToken = some tok := hfirst
    refine ⟨(f.afterRace r 1).pending, (?_ : f.afterRace r 1 = _)⟩
    simp only [InferCall.afterRace, ↓reduceIte, hwon]
    rfl
  | second =>
    have hwon : r.second.firstToken = some tok := hfirst
    refine ⟨(f.afterRace r 2).pending, (?_ : f.afterRace r 2 = _)⟩
    simp only [InferCall.afterRace, OfNat.ofNat_ne_one, ↓reduceIte, hwon]
    rfl

theorem arrival_eq_top {r : Race} {a : Actor} : W.arrival n r a = ⊤ ↔
    W.firstRead n (r.get a).selection.replicaId = ⊤ := by
  unfold arrival
  rw [WithTop.add_eq_top]
  exact or_iff_right (WithTop.natCast_ne_top _)

/-- A thread whose first `Read` does not return is at it. -/
def SilentRead (W : World) (n : ℤ) (r : Race) : Prop :=
  ∀ a, a ≠ .main → W.firstRead n (r.get a).selection.replicaId = ⊤ → (r.get a).thread = .reading

/-- What a race rests on that the replica of `s` wins: both first `Read`s return, because the threads
are joined, and the stream has all the tokens and ends. -/
def Carries (W : World) (n : ℤ) (r : Race) (s : Selection) : Prop :=
  (∀ a, a ≠ .main → W.firstRead n (r.get a).selection.replicaId ≠ ⊤) ∧ W.Whole n s ∧
    (W.ending s.replicaId 0).isSome

theorem Alike.carries {r r' : Race} {s : Selection} (h : Alike r r') :
    W.Carries n r' s ↔ W.Carries n r s := by
  unfold Carries
  simp only [h.selection]

theorem ends_joining_winner {a : Actor} {x : Racer} {tok : GenerateResponse} (ha : a ≠ .main)
    (hpending : f.pending = []) (hwritten : f.written = []) (hthread : x.thread = .finished)
    (hfirst : x.firstToken = some tok)
    (htok : W.token f.request.maxTokens x.selection.replicaId = some tok) {r : Race}
    (hr : r.get a = x) (hsilent : W.SilentRead f.request.maxTokens r) :
    Ends (W.step hash) (fun x => x.2.Delivered) (g, f.hedge (.joining r a.number)) ↔
      W.Carries f.request.maxTokens r x.selection := by
  refine ends_joining (fun r' => Alike r r' ∧ r'.get a = x ∧ W.SilentRead f.request.maxTokens r')
    ?_ ?_ ?_ hpending ⟨⟨rfl, fun _ => rfl⟩, hr, hsilent⟩
  · rintro r₁ r₂ b ⟨halike, hwinner, hsilent⟩ hb hbusy hreturns halike' hother
    refine ⟨⟨halike'.deadline.trans halike.deadline,
      fun c => (halike'.selection c).trans (halike.selection c)⟩, ?_, fun c hc hnever => ?_⟩
    · rw [hother a ha, hwinner]
      rintro rfl
      rw [hwinner] at hbusy
      exact hbusy hthread
    · rw [halike'.selection] at hnever
      rw [hother c hc, hsilent c hc hnever]
      rintro rfl
      exact hreturns (arrival_eq_top.mpr hnever)
  · rintro g r' ⟨halike, rfl, hsilent⟩ hdone₁ hdone₂
    have hreturns : ∀ c, c ≠ .main →
        W.firstRead f.request.maxTokens (r.get c).selection.replicaId ≠ ⊤ := by
      intro c hc hnever
      rw [← halike.selection] at hnever
      have hreading := hsilent c hc hnever
      cases c with
      | main => exact hc rfl
      | first => exact absurd (hreading.symm.trans hdone₁) nofun
      | second => exact absurd (hreading.symm.trans hdone₂) nofun
    obtain ⟨ops, hafter⟩ := afterRace_winner (f := f) ha hfirst
    rw [hafter, ends_forwarding hwritten htok ops]
    exact (and_iff_right hreturns).symm
  · rintro g r' b ⟨halike, -, -⟩ hb hnever
    refine iff_of_false nofun fun h => h.1 b hb ?_
    rw [← halike.selection]
    exact arrival_eq_top.mp hnever

/-! ## The race -/

/-- There is no winner yet, and the race thread is next and in time. -/
structure Ahead (W : World) (n : ℤ) (r : Race) (a : Actor) : Prop where
  promise : r.promise = none
  ne_main : a ≠ .main
  next : W.nextThread n r = a
  inTime : W.arrival n r a ≤ r.deadline
  silent : W.SilentRead n r

theorem Ahead.returns {r : Race} {a : Actor} (h : W.Ahead n r a) :
    W.firstRead n (r.get a).selection.replicaId ≠ ⊤ := by
  intro hnever
  have hintime := h.inTime
  rw [arrival_eq_top.mpr hnever] at hintime
  exact absurd hintime (by simp)

theorem SilentRead.setRacer {r : Race} {a : Actor} {x : Racer} {winnerSet : Bool}
    {promise : Option ℕ} (h : W.SilentRead n r) (ha : a ≠ .main)
    (hreturns : W.firstRead n (r.get a).selection.replicaId ≠ ⊤)
    (hselection : x.selection = (r.get a).selection) :
    W.SilentRead n { r.setRacer a x with winnerSet, promise } := by
  intro b hb hnever
  rw [get_setRacer ha hb] at hnever ⊢
  split_ifs at hnever ⊢ with hsame
  · rw [hselection] at hnever
    exact absurd hnever hreturns
  · exact h b hb hnever

theorem Ahead.setRacer {r : Race} {a : Actor} {x : Racer} {winnerSet : Bool} (h : W.Ahead n r a)
    (hselection : x.selection = (r.get a).selection) (hthread : x.thread ≠ .finished) :
    W.Ahead n { r.setRacer a x with winnerSet } a := by
  have hbusy : (r.get a).thread ≠ .finished := by
    obtain ⟨-, ha, rfl, -, -⟩ := h
    exact nextThread_unfinished ha
  have halike : Alike r { r.setRacer a x with winnerSet } := alike_setRacer hselection
  have hfinished : ∀ b, b ≠ .main → ((({ r.setRacer a x with winnerSet } : Race).get b).thread ≠
      .finished ↔ (r.get b).thread ≠ .finished) := by
    intro b hb
    rw [get_setRacer h.ne_main hb]
    split_ifs with hsame
    · subst hsame
      exact iff_of_true hthread hbusy
    · rfl
  have hnext : W.nextThread n { r.setRacer a x with winnerSet } = W.nextThread n r := by
    unfold nextThread
    rw [halike.faster_slower.1, halike.faster_slower.2]
    simp only [hfinished _ (W.faster_ne_main r), hfinished _ (W.slower_ne_main r)]
  refine ⟨(promise_setRacer r a x).1.trans h.promise, h.ne_main, hnext.trans h.next, ?_,
    h.silent.setRacer h.ne_main h.returns hselection⟩
  rw [halike.arrival, halike.deadline]
  exact h.inTime

/-- A step of the race thread that is next. -/
theorem step_waiting {r r' : Race} {a : Actor} (hpending : f.pending = [])
    (h : W.Ahead f.request.maxTokens r a)
    (hs : r.threadStep a (hedgeRequest f.request.prompt f.request.maxTokens)
      (W.token f.request.maxTokens (r.get a).selection.replicaId) = some r') :
    W.step hash (g, f.hedge (.waiting r)) =
      some ({ g with now := max g.now ((W.arrival f.request.maxTokens r a).untopD g.now) },
        f.hedge (.waiting r')) := by
  obtain ⟨hpromise, ha, rfl, hintime, -⟩ := h
  have hnobody : ¬ r.promise.isSome = true := by
    rw [hpromise]
    exact Bool.false_ne_true
  have hturn : W.turn g.now (f.hedge (.waiting r)) = _ :=
    (if_neg (not_not.mpr hpending)).trans ((if_neg hnobody).trans (if_pos ⟨ha, hintime⟩))
  have hthread : W.step hash (g, f.hedge (.waiting r)) = _ :=
    (step_hedged (f := f.hedge (.waiting r)) rfl hpending hturn).trans
      (hedgeStep_thread (c := W.choice g (W.nextThread f.request.maxTokens r)
        (f.hedge (.waiting r))) ha 0).1
  exact hthread.trans (congrArg (Option.map _) hs)

theorem step_waiting_main {r : Race} {k now : ℕ} (hpending : f.pending = [])
    (hturn : W.turn g.now (f.hedge (.waiting r)) = some (.main, now))
    (hk : r.promise = some k ∨ r.promise = none ∧ k = 0 ∧ r.deadline ≤ now) :
    W.step hash (g, f.hedge (.waiting r)) = some ({ g with now }, f.hedge (.joining r k)) := by
  rw [W.step_hedged (f := f.hedge (.waiting r)) rfl hpending hturn]
  unfold InferCall.hedgeStep
  dsimp only [choice, InferCall.hedge]
  rcases hk with hk | ⟨hk, rfl, hlate⟩
  · rw [hk]
  · rw [hk]
    exact if_pos hlate

theorem not_ends_waiting {r : Race} (hpending : f.pending = []) (hpromise : r.promise = none)
    (hlate : W.nextThread f.request.maxTokens r ≠ .main →
      r.deadline < W.arrival f.request.maxTokens r (W.nextThread f.request.maxTokens r)) :
    ¬ Ends (W.step hash) (fun x => x.2.Delivered) (g, f.hedge (.waiting r)) := by
  have hnobody : ¬ r.promise.isSome = true := by
    rw [hpromise]
    exact Bool.false_ne_true
  have hturn : W.turn g.now (f.hedge (.waiting r)) = some (.main, max g.now r.deadline) :=
    (if_neg (not_not.mpr hpending)).trans ((if_neg hnobody).trans
      (if_neg fun h => absurd h.2 (not_le.mpr (hlate h.1))))
  rw [ends_iff_of_step (step_waiting_main hpending hturn
    (Or.inr ⟨hpromise, rfl, le_max_right _ _⟩))]
  exact not_ends_joining hpending

section Winning

variable {r : Race} {a : Actor} {tok : GenerateResponse}

theorem ends_setting (hpending : f.pending = []) (hwritten : f.written = [])
    (h : W.Ahead f.request.maxTokens r a) (hthread : (r.get a).thread = .setting) (hfirst : (r.get a).firstToken = some tok)
    (htok : W.token f.request.maxTokens (r.get a).selection.replicaId = some tok) :
    Ends (W.step hash) (fun x => x.2.Delivered) (g, f.hedge (.waiting r)) ↔
      W.Carries f.request.maxTokens r (r.get a).selection := by
  have hset : r.threadStep a (hedgeRequest f.request.prompt f.request.maxTokens)
      (W.token f.request.maxTokens (r.get a).selection.replicaId) =
        some { r.setRacer a { r.get a with thread := .finished } with
          promise := some a.number } := by
    rw [threadStep_eq h.ne_main, hthread]
  have halike : Alike r { r.setRacer a { r.get a with thread := .finished } with
      promise := some a.number } := alike_setRacer rfl
  have hsilent : W.SilentRead f.request.maxTokens
      { r.setRacer a { r.get a with thread := .finished } with promise := some a.number } :=
    h.silent.setRacer h.ne_main h.returns rfl
  have hturn : ∀ (g : GatewayState) (r : Race), r.promise = some a.number →
      W.turn g.now (f.hedge (.waiting r)) = some (.main, g.now) := by
    intro g r hr
    exact (if_neg (not_not.mpr hpending)).trans (if_pos (by rw [hr]; rfl))
  rw [ends_iff_of_step (step_waiting hpending h hset), ends_iff_of_step (step_waiting_main
    (k := a.number) hpending (hturn _ _ rfl) (Or.inl rfl)), ← halike.carries]
  refine ends_joining_winner (x := { r.get a with thread := .finished }) h.ne_main hpending hwritten
    rfl hfirst htok ?_ hsilent
  rw [get_setRacer h.ne_main h.ne_main, if_pos rfl]

theorem ends_swapping (hpending : f.pending = []) (hwritten : f.written = [])
    (h : W.Ahead f.request.maxTokens r a) (hunset : r.winnerSet = false) (hthread : (r.get a).thread = .swapping)
    (hfirst : (r.get a).firstToken = some tok)
    (htok : W.token f.request.maxTokens (r.get a).selection.replicaId = some tok) :
    Ends (W.step hash) (fun x => x.2.Delivered) (g, f.hedge (.waiting r)) ↔
      W.Carries f.request.maxTokens r (r.get a).selection := by
  have hset : r.threadStep a (hedgeRequest f.request.prompt f.request.maxTokens)
      (W.token f.request.maxTokens (r.get a).selection.replicaId) =
        some { r.setRacer a { r.get a with thread := .setting } with winnerSet := true } := by
    rw [threadStep_eq h.ne_main, hthread]
    exact if_neg (by rw [hunset]; exact Bool.false_ne_true)
  have hself : ({ r.setRacer a { r.get a with thread := .setting } with
      winnerSet := true } : Race).get a = { r.get a with thread := .setting } := by
    rw [get_setRacer h.ne_main h.ne_main, if_pos rfl]
  have halike : Alike r { r.setRacer a { r.get a with thread := .setting } with
      winnerSet := true } := alike_setRacer rfl
  have hahead : W.Ahead f.request.maxTokens { r.setRacer a { r.get a with thread := .setting } with
      winnerSet := true } a := h.setRacer rfl nofun
  rw [ends_iff_of_step (step_waiting hpending h hset), ← halike.carries]
  refine (ends_setting hpending hwritten hahead (congrArg Racer.thread hself)
    ((congrArg Racer.firstToken hself).trans hfirst) ?_).trans ?_
  · rw [hself]
    exact htok
  · rw [hself]

theorem ends_reading (hpending : f.pending = []) (hwritten : f.written = [])
    (h : W.Ahead f.request.maxTokens r a) (hunset : r.winnerSet = false) (hthread : (r.get a).thread = .reading)
    (htok : W.token f.request.maxTokens (r.get a).selection.replicaId = some tok) :
    Ends (W.step hash) (fun x => x.2.Delivered) (g, f.hedge (.waiting r)) ↔
      W.Carries f.request.maxTokens r (r.get a).selection := by
  have hread : r.threadStep a (hedgeRequest f.request.prompt f.request.maxTokens)
      (W.token f.request.maxTokens (r.get a).selection.replicaId) =
        some (r.setRacer a { r.get a with thread := .swapping, firstToken := tok }) := by
    rw [threadStep_eq h.ne_main, hthread, htok]
    exact if_pos (W.token_serves rfl rfl htok)
  have hself : (r.setRacer a { r.get a with thread := .swapping, firstToken := tok }).get a =
      { r.get a with thread := .swapping, firstToken := tok } :=
    (get_setRacer h.ne_main h.ne_main).trans (if_pos rfl)
  have halike : Alike r (r.setRacer a { r.get a with thread := .swapping, firstToken := tok }) :=
    alike_setRacer rfl
  have hahead : W.Ahead f.request.maxTokens
      (r.setRacer a { r.get a with thread := .swapping, firstToken := tok }) a :=
    h.setRacer rfl nofun
  have hstill : (r.setRacer a { r.get a with thread := .swapping, firstToken := tok }).winnerSet =
      false := (promise_setRacer r a _).2.trans hunset
  rw [ends_iff_of_step (step_waiting hpending h hread), ← halike.carries]
  refine (ends_swapping hpending hwritten hahead hstill (congrArg Racer.thread hself)
    (congrArg Racer.firstToken hself) ?_).trans ?_
  · rw [hself]
    exact htok
  · rw [hself]

end Winning

theorem ends_no_token {r : Race} {a : Actor} {Q : Prop} (hpending : f.pending = [])
    (h : W.Ahead f.request.maxTokens r a) (hthread : (r.get a).thread = .reading)
    (htok : W.token f.request.maxTokens (r.get a).selection.replicaId = none)
    (hrest : ∀ g : GatewayState, Ends (W.step hash) P
      (g, f.hedge (.waiting (r.setRacer a { r.get a with thread := .finished }))) ↔ Q) :
    Ends (W.step hash) P (g, f.hedge (.waiting r)) ↔ Q := by
  have hread : r.threadStep a (hedgeRequest f.request.prompt f.request.maxTokens)
      (W.token f.request.maxTokens (r.get a).selection.replicaId) =
        some (r.setRacer a { r.get a with thread := .finished }) := by
    rw [threadStep_eq h.ne_main, hthread, htok]
  rw [ends_iff_of_step (step_waiting hpending h hread)]
  exact hrest _

theorem ends_last {r : Race} {a : Actor} (hpending : f.pending = []) (hwritten : f.written = [])
    (hpromise : r.promise = none) (hunset : r.winnerSet = false) (ha : a ≠ .main)
    (hnext : W.nextThread f.request.maxTokens r = a) (hthread : (r.get a).thread = .reading)
    (hother : ∀ b, b ≠ .main → b ≠ a → (r.get b).thread = .finished)
    (hsilent : W.SilentRead f.request.maxTokens r) :
    Ends (W.step hash) (fun x => x.2.Delivered) (g, f.hedge (.waiting r)) ↔
      (W.arrival f.request.maxTokens r a ≤ r.deadline ∧
        W.token f.request.maxTokens (r.get a).selection.replicaId ≠ none) ∧
      W.Carries f.request.maxTokens r (r.get a).selection := by
  by_cases hintime : W.arrival f.request.maxTokens r a ≤ r.deadline
  · have hahead : W.Ahead f.request.maxTokens r a := ⟨hpromise, ha, hnext, hintime, hsilent⟩
    cases htok : W.token f.request.maxTokens (r.get a).selection.replicaId with
    | some tok =>
      rw [ends_reading hpending hwritten hahead hunset hthread htok]
      exact ⟨fun h => ⟨⟨hintime, nofun⟩, h⟩, fun h => h.2⟩
    | none =>
      refine ends_no_token hpending hahead hthread htok fun g => iff_of_false ?_ fun h => h.1.2 rfl
      have hdone : ∀ b, b ≠ .main →
          ((r.setRacer a { r.get a with thread := .finished }).get b).thread = .finished := by
        intro b hb
        rw [show (r.setRacer a _).get b = _ from get_setRacer ha hb]
        split_ifs with hsame
        · rfl
        · exact hother b hb hsame
      have hover : W.nextThread f.request.maxTokens
          (r.setRacer a { r.get a with thread := .finished }) = .main :=
        nextThread_eq_main.mpr ⟨hdone .first nofun, hdone .second nofun⟩
      exact not_ends_waiting hpending ((promise_setRacer r a _).1.trans hpromise)
        fun h => absurd hover h
  · refine iff_of_false (not_ends_waiting hpending hpromise fun _ => ?_) fun h => hintime h.1.1
    rw [hnext]
    exact not_le.mp hintime

/-- The race at its start. -/
def newRace (now : ℕ) (s₁ s₂ : Selection) : Race where
  first := { selection := s₁ }
  second := { selection := s₂ }
  deadline := now + raceTimeout

theorem token_eq_none {id : String} : W.token n id = none ↔ (W.stream n id 0).reads = [] := by
  unfold token
  rw [Option.map_eq_none_iff, List.head?_eq_none_iff]

/-- The replica sends a first token, and in time. -/
def Contends (W : World) (n : ℤ) (s : Selection) : Prop :=
  W.firstRead n s.replicaId ≤ raceTimeout ∧ (W.stream n s.replicaId 0).reads ≠ []

instance (W : World) (n : ℤ) (s : Selection) : Decidable (W.Contends n s) :=
  inferInstanceAs (Decidable (_ ∧ _))

/-- The winner is the faster replica, or else the slower one, that sends a first token in time. -/
theorem exists_winner_iff (now : ℕ) (s₁ s₂ : Selection) {Q : Selection → Prop} :
    (∃ s, W.winner n s₁ s₂ = some s ∧ Q s) ↔
      let a := ((newRace now s₁ s₂).get (W.faster n (newRace now s₁ s₂))).selection
      let b := ((newRace now s₁ s₂).get (W.slower n (newRace now s₁ s₂))).selection
      if W.Contends n a then Q a else W.Contends n b ∧ Q b := by
  have hfind : ∀ a b : Selection, (∃ s, ([a, b].find? fun s => W.Contends n s) = some s ∧ Q s) ↔
      if W.Contends n a then Q a else W.Contends n b ∧ Q b := by
    intro a b
    rw [List.find?_cons, List.find?_cons, List.find?_nil]
    by_cases ha : W.Contends n a
    · simp [ha]
    · by_cases hb : W.Contends n b <;> simp [ha, hb]
  by_cases hle : W.firstRead n s₁.replicaId ≤ W.firstRead n s₂.replicaId
  · have hfaster : W.faster n (newRace now s₁ s₂) = .first := if_pos hle
    have hslower : W.slower n (newRace now s₁ s₂) = .second := if_pos hle
    rw [hfaster, hslower, winner, if_pos hle]
    exact hfind s₁ s₂
  · have hfaster : W.faster n (newRace now s₁ s₂) = .second := if_neg hle
    have hslower : W.slower n (newRace now s₁ s₂) = .first := if_neg hle
    rw [hfaster, hslower, winner, if_neg hle]
    exact hfind s₂ s₁

theorem faster_le_slower (r : Race) : W.firstRead n (r.get (W.faster n r)).selection.replicaId ≤
    W.firstRead n (r.get (W.slower n r)).selection.replicaId := by
  unfold faster slower
  split_ifs with h
  · exact h
  · exact le_of_not_ge h

/-- The faster replica has ended its stream without a token. -/
theorem ends_slower {r : Race} (hpending : f.pending = []) (hwritten : f.written = [])
    (hpromise : r.promise = none) (hunset : r.winnerSet = false)
    (hthread : (r.get (W.slower f.request.maxTokens r)).thread = .reading)
    (hsilent : W.SilentRead f.request.maxTokens r)
    (hreturns : W.firstRead f.request.maxTokens
      (r.get (W.faster f.request.maxTokens r)).selection.replicaId ≠ ⊤) :
    let a := W.faster f.request.maxTokens r
    let b := W.slower f.request.maxTokens r
    Ends (W.step hash) (fun x => x.2.Delivered) (g, f.hedge (.waiting
        (r.setRacer a { r.get a with thread := .finished }))) ↔
      (W.arrival f.request.maxTokens r b ≤ r.deadline ∧
        W.token f.request.maxTokens (r.get b).selection.replicaId ≠ none) ∧
      W.Carries f.request.maxTokens r (r.get b).selection := by
  intro a b
  have ha : a ≠ .main := W.faster_ne_main r
  have hb : b ≠ .main := W.slower_ne_main r
  have hself : (r.setRacer a { r.get a with thread := .finished }).get a =
      { r.get a with thread := .finished } := (get_setRacer ha ha).trans (if_pos rfl)
  have hslow : (r.setRacer a { r.get a with thread := .finished }).get b = r.get b :=
    (get_setRacer ha hb).trans (if_neg (W.slower_ne_faster r))
  have halike : Alike r (r.setRacer a { r.get a with thread := .finished }) := alike_setRacer rfl
  have hsilent' : W.SilentRead f.request.maxTokens
      (r.setRacer a { r.get a with thread := .finished }) := hsilent.setRacer ha hreturns rfl
  obtain ⟨hpromise', hunset'⟩ := promise_setRacer r a { r.get a with thread := .finished }
  generalize r.setRacer a { r.get a with thread := .finished } = r₁ at *
  have hnext : W.nextThread f.request.maxTokens r₁ = b := by
    unfold nextThread
    rw [halike.faster_slower.1, halike.faster_slower.2, hself, hslow, hthread]
    rfl
  rw [ends_last hpending hwritten (hpromise'.trans hpromise) (hunset'.trans hunset) hb hnext
    (by rw [hslow, hthread]) ?_ hsilent', halike.arrival, halike.deadline, halike.carries, hslow]
  intro c hc hne
  rw [(W.eq_faster_or_slower f.request.maxTokens r hc).resolve_right hne, hself]

/-- **The race.** It comes to the winner, and to all its tokens if the other one answers too. -/
theorem ends_race (hpending : f.pending = []) (hwritten : f.written = []) (now : ℕ)
    (s₁ s₂ : Selection) :
    Ends (W.step hash) (fun x => x.2.Delivered) (g, f.hedge (.waiting (newRace now s₁ s₂))) ↔
      ∃ s, W.winner f.request.maxTokens s₁ s₂ = some s ∧
        W.Carries f.request.maxTokens (newRace now s₁ s₂) s := by
  rw [W.exists_winner_iff now]
  have hreading : ∀ c, ((newRace now s₁ s₂).get c).thread = .reading := fun c => by cases c <;> rfl
  have hintime : ∀ c, W.arrival f.request.maxTokens (newRace now s₁ s₂) c ≤
      (newRace now s₁ s₂).deadline ↔ W.firstRead f.request.maxTokens
        ((newRace now s₁ s₂).get c).selection.replicaId ≤ raceTimeout := by
    intro c
    unfold arrival
    dsimp only [newRace]
    rw [Nat.add_sub_cancel, Nat.cast_add]
    exact WithTop.add_le_add_iff_left (WithTop.natCast_ne_top now)
  have hunset : (newRace now s₁ s₂).winnerSet = false := rfl
  have hpromise : (newRace now s₁ s₂).promise = none := rfl
  generalize newRace now s₁ s₂ = r at *
  dsimp only
  have hsilent : W.SilentRead f.request.maxTokens r := fun c _ _ => hreading c
  have hnext : W.nextThread f.request.maxTokens r = W.faster f.request.maxTokens r :=
    if_pos (by rw [hreading]; exact nofun)
  by_cases hlate : W.firstRead f.request.maxTokens
      (r.get (W.faster f.request.maxTokens r)).selection.replicaId ≤ raceTimeout
  · have hahead : W.Ahead f.request.maxTokens r (W.faster f.request.maxTokens r) :=
      ⟨hpromise, W.faster_ne_main r, hnext, (hintime _).mpr hlate, hsilent⟩
    cases htok : W.token f.request.maxTokens
        (r.get (W.faster f.request.maxTokens r)).selection.replicaId with
    | some tok =>
      have hread := fun h => Option.some_ne_none _ (htok.symm.trans (token_eq_none.mpr h))
      rw [if_pos ⟨hlate, hread⟩]
      exact ends_reading hpending hwritten hahead hunset (hreading _) htok
    | none =>
      rw [if_neg fun h => h.2 (token_eq_none.mp htok)]
      refine ends_no_token hpending hahead (hreading _) htok fun g => ?_
      refine (ends_slower hpending hwritten hpromise hunset (hreading _) hsilent
        hahead.returns).trans ?_
      rw [hintime, ne_eq, token_eq_none]
      rfl
  · -- neither is in time, because the slower one is not faster
    have horder := W.faster_le_slower (n := f.request.maxTokens) r
    rw [if_neg fun h => hlate h.1]
    refine iff_of_false (not_ends_waiting hpending hpromise fun _ => ?_)
      fun h => hlate (horder.trans h.1.1)
    rw [hnext]
    exact not_le.mp (mt (hintime _).mp hlate)

end World

end LlmGateway.Gateway
