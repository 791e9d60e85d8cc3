import LlmGateway.Gateway.Failover
import LlmGateway.Gateway.HungLoser
import LlmGateway.Gateway.InferMove

/-!
# The source of what a hedged call writes

Two race threads and the main thread of `InferHedged` share a flag and a promise. The first token of
the winner is written on another path than the rest of its stream.

1. `RaceEvent`: what the threads do, in the order they do it, as a history of the call.
2. `Race.Logged`: the flag lets one thread through, so the promise is set once. A step of a thread
   keeps that (`Race.Logged.threadStep`).
3. `forwardEvents`: the loop of the main thread hands on what it reads.
4. `singleSource`: so whatever is written comes from one of the two replicas, in order.
-/

namespace LlmGateway.Gateway

open Transition Replica World

/-! ## The events of the race -/

/-- What the threads of a hedged call do: the race of two replicas starts, a `Read` on the stream of
a racer brings a response, a thread sets the promise, the main thread gets its value, and a `Write`
with what it returns. -/
inductive RaceEvent
  | started (first second : Selection)
  | read (number : ℕ) (response : GenerateResponse)
  | promised (number : ℕ)
  | taken (number : ℕ)
  | wrote (response : InferResponse) (ok : Bool)
  deriving DecidableEq, Repr

/-- The pairs of replicas raced. -/
def starts (ws : List RaceEvent) : List (Selection × Selection) :=
  ws.filterMap fun | .started first second => some (first, second) | _ => none

/-- The stream of a racer, as far as it has been read. -/
def reads (number : ℕ) (ws : List RaceEvent) : List GenerateResponse :=
  ws.filterMap fun | .read k response => if k = number then some response else none | _ => none

/-- The values the promise is set to. -/
def promises (ws : List RaceEvent) : List ℕ :=
  ws.filterMap fun | .promised number => some number | _ => none

/-- The winners the main thread gets. -/
def takes (ws : List RaceEvent) : List ℕ :=
  ws.filterMap fun | .taken number => some number | _ => none

/-- The calls of `Write`. -/
def writes (ws : List RaceEvent) : List (InferResponse × Bool) :=
  ws.filterMap fun | .wrote response ok => some (response, ok) | _ => none

/-- The responses handed to `Write`. -/
def handed (ws : List RaceEvent) : List InferResponse := (writes ws).map Prod.fst

/-- The responses of the `Write` calls that succeed. -/
def delivered (ws : List RaceEvent) : List InferResponse := ((writes ws).filter Prod.snd).map Prod.fst

/-- A stream to the client that is closed stays closed: after a `Write` that fails, none succeeds. -/
def StaysClosed (ws : List RaceEvent) : Prop :=
  (writes ws).Pairwise fun a b => a.2 = false → b.2 = false

/-- The events of a step of a race thread. -/
def Race.raceEvents (r : Race) (c : InferChoice) : List RaceEvent :=
  match r.racer c.actor with
  | none => []
  | some (x, number) =>
    match x.thread with
    | .reading => c.firstRead.toList.map (.read number)
    | .setting => [.promised number]
    | _ => []

/-- The events of the loop that forwards the rest of the winner's stream. -/
def forwardEvents (number : ℕ) (replicaId : String) : List StreamRead → List RaceEvent
  | [] => []
  | e :: es =>
    .read number e.response ::
      if e.cancelled then []
      else
        .wrote (inferResponse replicaId e.response) e.written ::
          if e.written then forwardEvents number replicaId es else []

/-- The events of the next step of `InferHedged`. -/
def HedgeStage.raceEvents (c : InferChoice) : HedgeStage → List RaceEvent
  | .starting first second => [.started first second]
  | .waiting r => if c.actor = .main then r.promise.toList.map .taken else r.raceEvents c
  | .joining r _ => r.raceEvents c
  | .forwarding number winner firstToken =>
    .wrote (inferResponse winner.replicaId firstToken) c.firstWritten ::
      forwardEvents number winner.replicaId c.stream.reads
  | _ => []

/-- The events of the next step of a call. -/
def InferCall.raceEvents (f : InferCall) (c : InferChoice) : List RaceEvent :=
  match f.pending, f.stage with
  | [], .hedged s => s.raceEvents c
  | _, _ => []

/-- The events of the call `i` in a run from `g`. -/
def raceHistory (hash : List UInt8 → ℕ) (g : GatewayState) (i : ℕ) (es : List GatewayLabel) :
    List RaceEvent :=
  Program.history
    (fun _ t c =>
      match t with
      | .infer f => f.raceEvents c
      | .rebuildRing _ => [])
    (gatewayProgram hash) g i es

/-- What the client gets of a race: at most one value for the promise, two different replicas, and
what is written comes from the stream of the winner alone, in order and without duplicates. -/
structure SingleSource (maxTokens : ℤ) (first second : Selection) (ws : List RaceEvent)
    (written : List InferResponse) : Prop where
  once : (promises ws).length ≤ 1
  distinct : first.replicaId ≠ second.replicaId
  written_eq : written = delivered ws
  unwritten : takes ws = [] → handed ws = []
  source : handed ws ≠ [] → ∃ number winner loser,
    (number, winner, loser) ∈ [(1, first, second), (2, second, first)] ∧
    takes ws = [number] ∧ promises ws = [number] ∧
    reads number ws <+: generateResponses 0 maxTokens ∧
    handed ws <+: (reads number ws).map (inferResponse winner.replicaId) ∧
    (handed ws).Nodup ∧
    (∀ r ∈ handed ws, r.replicaId = winner.replicaId ∧ r.replicaId ≠ loser.replicaId) ∧
    (StaysClosed ws → written <+: (reads number ws).map (inferResponse winner.replicaId))

section

variable {ws vs : List RaceEvent} {number k : ℕ} {replicaId : String}

@[simp] theorem starts_append : starts (ws ++ vs) = starts ws ++ starts vs := List.filterMap_append

@[simp] theorem reads_append : reads k (ws ++ vs) = reads k ws ++ reads k vs := List.filterMap_append

theorem reads_cons (response : GenerateResponse) :
    reads number (.read number response :: ws) = response :: reads number ws :=
  List.filterMap_cons_some (if_pos rfl)

@[simp] theorem promises_append : promises (ws ++ vs) = promises ws ++ promises vs :=
  List.filterMap_append

@[simp] theorem takes_append : takes (ws ++ vs) = takes ws ++ takes vs := List.filterMap_append

@[simp] theorem writes_append : writes (ws ++ vs) = writes ws ++ writes vs := List.filterMap_append

/-! ## Forwarding -/

theorem forwardEvents_quiet (es : List StreamRead) :
    starts (forwardEvents number replicaId es) = [] ∧
      promises (forwardEvents number replicaId es) = [] ∧
      takes (forwardEvents number replicaId es) = [] := by
  induction es with
  | nil => exact ⟨rfl, rfl, rfl⟩
  | cons e es ih =>
    unfold forwardEvents
    split_ifs
    · exact ⟨rfl, rfl, rfl⟩
    · exact ih
    · exact ⟨rfl, rfl, rfl⟩

theorem reads_forwardEvents (es : List StreamRead) :
    reads number (forwardEvents number replicaId es) <+: es.map (·.response) := by
  induction es with
  | nil => exact List.prefix_refl _
  | cons e es ih =>
    unfold forwardEvents
    rw [reads_cons, List.map_cons, List.prefix_cons_inj]
    split_ifs
    · exact List.nil_prefix
    · exact ih
    · exact List.nil_prefix

theorem handed_forwardEvents (es : List StreamRead) :
    handed (forwardEvents number replicaId es) <+:
      (reads number (forwardEvents number replicaId es)).map (inferResponse replicaId) := by
  induction es with
  | nil => exact List.prefix_refl _
  | cons e es ih =>
    unfold forwardEvents
    rw [reads_cons, List.map_cons]
    split_ifs
    · exact List.nil_prefix
    · exact (List.prefix_cons_inj _).mpr ih
    · exact (List.prefix_cons_inj _).mpr List.nil_prefix

theorem delivered_forwardEvents (n : ℤ) (es : List StreamRead) :
    delivered (forwardEvents number replicaId es) = (forward replicaId true n es).1 := by
  induction es generalizing n with
  | nil => rfl
  | cons e es ih =>
    unfold forwardEvents forward
    by_cases hcancelled : e.cancelled = true
    · rw [if_pos hcancelled, if_pos hcancelled]
      rfl
    · rw [if_neg hcancelled, if_neg hcancelled]
      cases hwritten : e.written with
      | false => rfl
      | true => exact congrArg (inferResponse replicaId e.response :: ·) (ih (n + 1))

/-! ## What is written -/

/-- If the stream to the client stays closed, the responses delivered are the first ones handed to
`Write`. -/
theorem delivered_prefix_handed (h : StaysClosed ws) : delivered ws <+: handed ws := by
  unfold StaysClosed at h
  unfold delivered handed
  generalize writes ws = l at h ⊢
  induction l with
  | nil => exact List.prefix_refl _
  | cons w l ih =>
    rw [List.pairwise_cons] at h
    obtain ⟨hfirst, hrest⟩ := h
    cases hok : w.2 with
    | true =>
      rw [List.filter_cons_of_pos hok, List.map_cons, List.map_cons, List.prefix_cons_inj]
      exact ih hrest
    | false =>
      have hnone : l.filter Prod.snd = [] :=
        List.filter_eq_nil_iff.mpr fun b hb => Bool.not_eq_true _ ▸ hfirst b hb hok
      rw [List.filter_cons_of_neg (Bool.not_eq_true _ ▸ hok), hnone]
      exact List.nil_prefix

theorem nodup_generateResponses (stop : ℤ) : (generateResponses 0 stop).Nodup := by
  refine List.Nodup.map (fun i j hij => ?_) List.nodup_range
  have htoken : tokenName (0 + i) = tokenName (0 + j) := congrArg GenerateResponse.token hij
  rw [Int.zero_add, Int.zero_add] at htoken
  exact tokenName_injective htoken

theorem inferResponse_injective (replicaId : String) :
    Function.Injective (inferResponse replicaId) := by
  rintro ⟨token, isFinal⟩ ⟨token', isFinal'⟩ h
  cases h
  rfl

end

/-! ## The race -/

/-- A racer up to some point: what has been read of its stream is what its `first_token` holds. -/
structure Racer.Logged (x : Racer) (number : ℕ) (ws : List RaceEvent) : Prop where
  reads : reads number ws = x.firstToken.toList
  fresh : x.thread = .reading → x.firstToken = none
  token : x.thread = .swapping ∨ x.thread = .setting → x.firstToken.isSome

/-- The flag lets one thread through. Until that thread sets the promise, nobody has. -/
structure Race.OneSetter (r : Race) : Prop where
  exclusive : ∀ a b, a ≠ .main → b ≠ .main → (r.get a).thread = .setting →
    (r.get b).thread = .setting → a = b
  pending : ∀ a, a ≠ .main → (r.get a).thread = .setting → r.promise = none ∧ r.winnerSet = true
  free : r.winnerSet = false → r.promise = none

/-- A race up to some point: the promise is what has been set, for a racer that has read a token. -/
structure Race.Logged (r : Race) (ws : List RaceEvent) : Prop where
  started : starts ws = [(r.first.selection, r.second.selection)]
  distinct : r.first.selection.replicaId ≠ r.second.selection.replicaId
  racers : ∀ a, a ≠ .main → (r.get a).Logged a.number ws
  setter : r.OneSetter
  promises : promises ws = r.promise.toList
  winner : ∀ k ∈ Gateway.promises ws, ∃ a : Actor, a ≠ .main ∧ k = a.number ∧ reads k ws ≠ []
  unwritten : writes ws = []

section

variable {r r' : Race} {ws vs : List RaceEvent} {c : InferChoice} {maxTokens : ℤ} {prompt : String}
  {a : Actor} {x : Racer} {number : ℕ} {winnerSet : Bool} {promise : Option ℕ}

theorem number_injective {b : Actor} (h : a.number = b.number) : a = b := by
  cases a <;> cases b <;> first | rfl | cases h

theorem logged_start {first second : Selection} {deadline : ℕ}
    (hne : second.replicaId ≠ first.replicaId) :
    Race.Logged { first := { selection := first }, second := { selection := second }, deadline }
      [.started first second] where
  started := rfl
  distinct := hne.symm
  racers a ha := by cases a <;> exact ⟨rfl, fun _ => rfl, nofun⟩
  setter := ⟨fun a => by cases a <;> exact nofun, fun a => by cases a <;> exact nofun, fun _ => rfl⟩
  promises := rfl
  winner := nofun
  unwritten := rfl

/-! ### What a thread does to the history -/

theorem raceEvents_eq (ha : c.actor ≠ .main) : r.raceEvents c =
    match (r.get c.actor).thread with
    | .reading => c.firstRead.toList.map (.read c.actor.number)
    | .setting => [.promised c.actor.number]
    | _ => [] := by
  unfold Race.raceEvents
  cases hactor : c.actor with
  | main => exact absurd hactor ha
  | first => rfl
  | second => rfl

theorem raceEvents_quiet (r : Race) (ha : c.actor ≠ .main) :
    starts (r.raceEvents c) = [] ∧ writes (r.raceEvents c) = [] ∧ takes (r.raceEvents c) = [] ∧
      ∀ b, b ≠ c.actor → reads b.number (r.raceEvents c) = [] := by
  rw [raceEvents_eq ha]
  cases (r.get c.actor).thread with
  | reading =>
    cases c.firstRead with
    | none => exact ⟨rfl, rfl, rfl, fun _ _ => rfl⟩
    | some tok =>
      refine ⟨rfl, rfl, rfl, fun b hb => ?_⟩
      exact List.filterMap_cons_none (if_neg fun hn => hb (number_injective hn).symm)
  | swapping => exact ⟨rfl, rfl, rfl, fun _ _ => rfl⟩
  | setting => exact ⟨rfl, rfl, rfl, fun _ _ => rfl⟩
  | finished => exact ⟨rfl, rfl, rfl, fun _ _ => rfl⟩

/-- A thread sets the promise to its own number, once it has read a token. -/
theorem Race.Logged.winner_raceEvents (h : r.Logged ws) (ha : c.actor ≠ .main) :
    ∀ k ∈ Gateway.promises (r.raceEvents c), k = c.actor.number ∧ reads k ws ≠ [] := by
  intro k hk
  rw [raceEvents_eq ha] at hk
  cases hthread : (r.get c.actor).thread with
  | reading =>
    rw [hthread] at hk
    cases hread : c.firstRead <;> rw [hread] at hk <;> cases hk
  | swapping => rw [hthread] at hk; cases hk
  | setting =>
    rw [hthread] at hk
    obtain rfl : k = c.actor.number := List.mem_singleton.mp hk
    obtain ⟨hreads, -, htoken⟩ := h.racers c.actor ha
    obtain ⟨tok, htok⟩ := Option.isSome_iff_exists.mp (htoken (Or.inr hthread))
    rw [hreads, htok]
    exact ⟨rfl, List.cons_ne_nil _ _⟩
  | finished => rw [hthread] at hk; cases hk

/-! ### What a thread does to the race -/

theorem Racer.Logged.finish (h : x.Logged number ws) (hvs : Gateway.reads number vs = []) :
    Racer.Logged { x with thread := .finished } number (ws ++ vs) where
  reads := by rw [reads_append, hvs, List.append_nil, h.reads]
  fresh := nofun
  token := nofun

/-- The racer of a thread is replaced, and the flag and the promise with it: a thread that wins the
flag finds it free. -/
theorem Race.OneSetter.setRacer (h : r.OneSetter) (ha : a ≠ .main)
    (hsetting : x.thread = .setting → r.winnerSet = false ∧ promise = none ∧ winnerSet = true)
    (hpending : ∀ b, b ≠ .main → b ≠ a → (r.get b).thread = .setting →
      promise = none ∧ winnerSet = true)
    (hfree : winnerSet = false → promise = none) :
    Race.OneSetter { r.setRacer a x with winnerSet, promise } := by
  have hget : ∀ b, b ≠ .main → ({ r.setRacer a x with winnerSet, promise } : Race).get b =
      if b = a then x else r.get b := fun b hb => get_setRacer ha hb
  refine ⟨fun b d hb hd hbs hds => ?_, fun b hb hbs => ?_, hfree⟩
  · rw [hget b hb] at hbs
    rw [hget d hd] at hds
    split_ifs at hbs hds with hba hda hda
    · rw [hba, hda]
    · have hset := (h.pending d hd hds).2
      rw [(hsetting hbs).1] at hset
      cases hset
    · have hset := (h.pending b hb hbs).2
      rw [(hsetting hds).1] at hset
      cases hset
    · exact h.exclusive b d hb hd hbs hds
  · rw [hget b hb] at hbs
    split_ifs at hbs with hba
    · exact (hsetting hbs).2
    · exact hpending b hb hba hbs

theorem Race.Logged.setRacer (h : r.Logged ws) (ha : c.actor ≠ .main)
    (hselection : x.selection = (r.get c.actor).selection)
    (hracer : x.Logged c.actor.number (ws ++ r.raceEvents c))
    (hsetter : Race.OneSetter { r.setRacer c.actor x with winnerSet, promise })
    (hpromises : r.promise.toList ++ Gateway.promises (r.raceEvents c) = promise.toList) :
    Race.Logged { r.setRacer c.actor x with winnerSet, promise } (ws ++ r.raceEvents c) := by
  obtain ⟨hstarts, hwrites, -, hothers⟩ := raceEvents_quiet r ha
  have hget : ∀ b, b ≠ .main → ({ r.setRacer c.actor x with winnerSet, promise } : Race).get b =
      if b = c.actor then x else r.get b := fun b hb => get_setRacer ha hb
  have hselections : ∀ b, (({ r.setRacer c.actor x with winnerSet, promise } : Race).get b).selection =
      (r.get b).selection := (alike_setRacer hselection).selection
  have hfirst := hselections .first
  have hsecond := hselections .second
  constructor
  case started =>
    rw [starts_append, hstarts, List.append_nil, h.started]
    exact congrArg (fun p => [p]) (Prod.ext hfirst.symm hsecond.symm)
  case distinct =>
    intro heq
    exact h.distinct ((congrArg _ hfirst.symm).trans (heq.trans (congrArg _ hsecond)))
  case racers =>
    intro b hb
    rw [hget b hb]
    split_ifs with hba
    · rw [hba]
      exact hracer
    · obtain ⟨hreads, hfresh, htoken⟩ := h.racers b hb
      exact ⟨by rw [reads_append, hothers b hba, List.append_nil, hreads], hfresh, htoken⟩
  case setter => exact hsetter
  case promises => rw [promises_append, h.promises, hpromises]
  case winner =>
    intro k hk
    rw [promises_append] at hk
    rw [reads_append]
    rcases List.mem_append.mp hk with hk | hk
    · obtain ⟨b, hb, hnumber, hreads⟩ := h.winner k hk
      exact ⟨b, hb, hnumber, List.append_ne_nil_of_left_ne_nil hreads _⟩
    · obtain ⟨hnumber, hreads⟩ := h.winner_raceEvents ha k hk
      exact ⟨c.actor, ha, hnumber, List.append_ne_nil_of_left_ne_nil hreads _⟩
  case unwritten =>
    rw [writes_append, hwrites, List.append_nil]
    exact h.unwritten

/-- A thread that does not touch the flag or the promise. -/
theorem Race.Logged.setRacer_of_unset (h : r.Logged ws) (ha : c.actor ≠ .main)
    (hselection : x.selection = (r.get c.actor).selection)
    (hracer : x.Logged c.actor.number (ws ++ r.raceEvents c)) (hthread : x.thread ≠ .setting)
    (hnone : Gateway.promises (r.raceEvents c) = []) :
    (r.setRacer c.actor x).Logged (ws ++ r.raceEvents c) := by
  have hkeep : r.setRacer c.actor x =
      { r.setRacer c.actor x with winnerSet := r.winnerSet, promise := r.promise } := by
    rw [← (promise_setRacer r c.actor x).1, ← (promise_setRacer r c.actor x).2]
  rw [hkeep]
  refine h.setRacer ha hselection hracer ?_ (by rw [hnone, List.append_nil])
  exact h.setter.setRacer ha (fun hsetting => absurd hsetting hthread)
    (fun b hb _ hbs => h.setter.pending b hb hbs) h.setter.free

/-- **One step of a race thread.** -/
theorem Race.Logged.threadStep (h : r.Logged ws) (ha : c.actor ≠ .main)
    (hs : r.threadStep c.actor (hedgeRequest prompt maxTokens) c.firstRead = some r') :
    r'.Logged (ws ++ r.raceEvents c) := by
  have hevents := raceEvents_eq (r := r) ha
  have hself := h.racers c.actor ha
  rw [threadStep_eq ha] at hs
  cases hthread : (r.get c.actor).thread with
  | reading =>
    rw [hthread] at hs hevents
    cases hread : c.firstRead with
    | none =>
      rw [hread] at hs hevents
      cases hs
      exact h.setRacer_of_unset ha rfl (hself.finish (by rw [hevents]; rfl)) nofun
        (by rw [hevents]; rfl)
    | some tok =>
      rw [hread] at hs hevents
      dsimp only at hs
      split_ifs at hs
      cases hs
      refine h.setRacer_of_unset ha rfl ⟨?_, nofun, fun _ => rfl⟩ nofun (by rw [hevents]; rfl)
      rw [reads_append, hself.reads, hself.fresh hthread, hevents]
      exact reads_cons tok
  | swapping =>
    rw [hthread] at hs hevents
    dsimp only at hs
    split_ifs at hs with hset
    · cases hs
      exact h.setRacer_of_unset ha rfl (hself.finish (by rw [hevents]; rfl)) nofun
        (by rw [hevents]; rfl)
    · cases hs
      have hunset : r.winnerSet = false := Bool.not_eq_true _ ▸ hset
      have hnone := h.setter.free hunset
      rw [(promise_setRacer r c.actor _).1]
      refine h.setRacer ha rfl ⟨?_, nofun, fun _ => hself.token (Or.inl hthread)⟩ ?_ ?_
      · rw [hevents, List.append_nil, hself.reads]
      · exact h.setter.setRacer ha (fun _ => ⟨hunset, hnone, rfl⟩) (fun _ _ _ _ => ⟨hnone, rfl⟩) nofun
      · rw [hevents]
        exact List.append_nil _
  | setting =>
    rw [hthread] at hs hevents
    cases hs
    obtain ⟨hnone, hset⟩ := h.setter.pending _ ha hthread
    dsimp only
    rw [(promise_setRacer r c.actor _).2]
    refine h.setRacer ha rfl (hself.finish (by rw [hevents]; rfl)) ?_ (by rw [hevents, hnone]; rfl)
    refine h.setter.setRacer ha nofun (fun b hb hne hbs => ?_) fun hfree => ?_
    · exact absurd (h.setter.exclusive b _ hb ha hbs hthread) hne
    · rw [hset] at hfree
      cases hfree
  | finished =>
    rw [hthread] at hs
    cases hs

/-! ### The main thread -/

theorem Race.Logged.taken (h : r.Logged ws) (k : ℕ) : r.Logged (ws ++ [.taken k]) := by
  have hreads : ∀ j, Gateway.reads j (ws ++ [.taken k]) = Gateway.reads j ws := fun j => by
    rw [reads_append]
    exact List.append_nil _
  have hpromises : Gateway.promises (ws ++ [.taken k]) = Gateway.promises ws := by
    rw [promises_append]
    exact List.append_nil _
  refine ⟨?_, h.distinct, fun a ha => ?_, h.setter, hpromises.trans h.promises, ?_, ?_⟩
  · rw [starts_append, h.started]; rfl
  · exact ⟨(hreads _).trans (h.racers a ha).reads, (h.racers a ha).fresh, (h.racers a ha).token⟩
  · simp only [hreads, hpromises]
    exact h.winner
  · rw [writes_append, h.unwritten]; rfl

theorem Race.Logged.promise_eq {k : ℕ} (h' : r'.Logged (ws ++ vs)) (h : r.Logged ws)
    (hk : r.promise = some k) : r'.promise = some k := by
  have hall := h'.promises
  rw [promises_append, h.promises, hk, Option.toList_some] at hall
  cases hpromise : r'.promise with
  | none =>
    rw [hpromise] at hall
    cases hall
  | some j =>
    rw [hpromise] at hall
    injection hall with hkj
    rw [hkj]

end

/-! ## The call -/

/-- The main thread has the winner of a race, and has written nothing. -/
structure Won (maxTokens : ℤ) (number : ℕ) (winner : Selection) (firstToken : GenerateResponse)
    (ws : List RaceEvent) : Prop where
  racers : ∃ first second loser, starts ws = [(first, second)] ∧
    first.replicaId ≠ second.replicaId ∧
    (number, winner, loser) ∈ [(1, first, second), (2, second, first)]
  promises : promises ws = [number]
  takes : takes ws = [number]
  reads : reads number ws = [firstToken]
  unwritten : writes ws = []

/-- A call with its history, by where it is. -/
def InferCall.Logged (f : InferCall) (ws : List RaceEvent) : Prop :=
  match f.stage with
  | .entered => ws = [] ∧ f.written = []
  | .infer _ => ws = []
  | .hedged (.selecting _) | .hedged (.selectingSecond _ _) | .hedged (.single _) =>
    ws = [] ∧ f.written = []
  | .hedged (.starting first second) =>
    ws = [] ∧ f.written = [] ∧ second.replicaId ≠ first.replicaId
  | .hedged (.waiting r) => r.Logged ws ∧ f.written = [] ∧ takes ws = []
  | .hedged (.joining r number) =>
    r.Logged ws ∧ f.written = [] ∧
      (takes ws = [] ∧ number = 0 ∨ takes ws = [number] ∧ r.promise = some number)
  | .hedged (.forwarding number winner firstToken) =>
    f.written = [] ∧ Won f.request.maxTokens number winner firstToken ws
  | .hedged (.returned _) => ∀ first second, (first, second) ∈ starts ws →
    SingleSource f.request.maxTokens first second ws f.written

variable {hash : List UInt8 → ℕ} {g g' : GatewayState} {c : InferChoice} {f f' : InferCall}
  {ws : List RaceEvent} {maxTokens : ℤ} {number : ℕ} {winner : Selection}
  {firstToken : GenerateResponse}

theorem singleSource_unwritten {first second : Selection} (hpromises : (promises ws).length ≤ 1)
    (hne : first.replicaId ≠ second.replicaId) (hunwritten : writes ws = []) :
    SingleSource maxTokens first second ws [] := by
  have hhanded : handed ws = [] := congrArg (List.map Prod.fst) hunwritten
  have hdelivered : delivered ws = [] :=
    congrArg (fun l : List (InferResponse × Bool) => (l.filter Prod.snd).map Prod.fst) hunwritten
  exact ⟨hpromises, hne, hdelivered.symm, fun _ => hhanded, fun hsome => absurd hhanded hsome⟩

/-- The threads are joined: the main thread goes on with a winner or with none. -/
theorem logged_afterRace {r : Race} (h : r.Logged ws) (hwritten : f.written = [])
    (htakes : takes ws = [] ∧ number = 0 ∨ takes ws = [number] ∧ r.promise = some number) :
    (f.afterRace r number).Logged ws := by
  rcases htakes with ⟨htakes, rfl⟩ | ⟨htakes, hpromise⟩
  · show ∀ first second, (first, second) ∈ starts ws →
      SingleSource f.request.maxTokens first second ws f.written
    intro first second hstart
    rw [h.started, List.mem_singleton] at hstart
    cases hstart
    rw [hwritten]
    refine singleSource_unwritten ?_ h.distinct h.unwritten
    rw [h.promises]
    exact Option.length_toList_le
  · have hmem : number ∈ promises ws := by
      rw [h.promises, hpromise]
      exact List.mem_singleton_self _
    obtain ⟨a, ha, rfl, hreads⟩ := h.winner number hmem
    rw [(h.racers a ha).reads] at hreads
    obtain ⟨tok, htok⟩ := Option.ne_none_iff_exists'.mp (mt Option.toList_eq_nil_iff.mpr hreads)
    obtain ⟨ops, hafter⟩ := afterRace_winner (f := f) ha htok
    rw [hafter]
    refine ⟨hwritten, ?_, ?_, htakes, ?_, h.unwritten⟩
    · refine ⟨_, _, (r.get (if a = .first then .second else .first)).selection, h.started,
        h.distinct, ?_⟩
      cases a with
      | main => exact absurd rfl ha
      | first => exact List.mem_cons_self
      | second => exact List.mem_cons_of_mem _ List.mem_cons_self
    · rw [h.promises, hpromise, Option.toList_some]
    · rw [(h.racers a ha).reads, htok, Option.toList_some]

/-- The main thread has forwarded the stream of the winner. -/
theorem singleSource_of_won (h : Won maxTokens number winner firstToken ws) {prompt : String}
    (hserves : (⟨{ response := firstToken } :: c.stream.reads, c.stream.ok⟩ : ReplicaStream).Serves
      (hedgeRequest prompt maxTokens number)) {vs : List RaceEvent}
    (hvs : vs = .wrote (inferResponse winner.replicaId firstToken) c.firstWritten ::
      forwardEvents number winner.replicaId c.stream.reads) {first second : Selection}
    (hstart : (first, second) ∈ starts (ws ++ vs)) :
    SingleSource maxTokens first second (ws ++ vs)
      ((if c.firstWritten then [inferResponse winner.replicaId firstToken] else []) ++
        (forward winner.replicaId true 1 c.stream.reads).1) := by
  obtain ⟨first', second', loser, hstarts, hne, hmem⟩ := h.racers
  obtain ⟨hquiet₁, hquiet₂, hquiet₃⟩ :=
    @forwardEvents_quiet number winner.replicaId c.stream.reads
  have hpromises : promises (ws ++ vs) = [number] := by
    rw [promises_append, h.promises, hvs]
    exact congrArg (number :: ·) hquiet₂
  have htakes : takes (ws ++ vs) = [number] := by
    rw [takes_append, h.takes, hvs]
    exact congrArg (number :: ·) hquiet₃
  have hreads : reads number (ws ++ vs) =
      firstToken :: reads number (forwardEvents number winner.replicaId c.stream.reads) := by
    rw [reads_append, h.reads, hvs]
    rfl
  have hwrites : writes (ws ++ vs) = (inferResponse winner.replicaId firstToken, c.firstWritten) ::
      writes (forwardEvents number winner.replicaId c.stream.reads) := by
    rw [writes_append, h.unwritten, hvs]
    rfl
  have hhanded : handed (ws ++ vs) <+:
      (reads number (ws ++ vs)).map (inferResponse winner.replicaId) := by
    unfold handed
    rw [hwrites, hreads, List.map_cons, List.map_cons, List.prefix_cons_inj]
    exact handed_forwardEvents _
  have hstream : reads number (ws ++ vs) <+: generateResponses 0 maxTokens := by
    refine List.IsPrefix.trans ?_ hserves
    rw [hreads, List.map_cons, List.prefix_cons_inj]
    exact reads_forwardEvents _
  have hwritten : (if c.firstWritten then [inferResponse winner.replicaId firstToken] else []) ++
      (forward winner.replicaId true 1 c.stream.reads).1 = delivered (ws ++ vs) := by
    unfold delivered
    rw [hwrites, ← @delivered_forwardEvents number]
    cases c.firstWritten <;> rfl
  -- the race that was started is the one whose winner is written
  have hrace : starts (ws ++ vs) = [(first', second')] := by
    rw [starts_append, hstarts, hvs]
    exact congrArg ((first', second') :: ·) hquiet₁
  rw [hrace, List.mem_singleton] at hstart
  cases hstart
  have hdifferent : winner.replicaId ≠ loser.replicaId := by
    rcases List.mem_cons.mp hmem with heq | hmem
    · cases heq
      exact hne
    · cases List.mem_singleton.mp hmem
      exact hne.symm
  refine ⟨?_, hne, hwritten, ?_, fun _ => ⟨number, winner, loser, hmem, htakes, hpromises, hstream,
    hhanded, ?_, ?_, ?_⟩⟩
  · rw [hpromises]
    exact le_refl 1
  · intro hnone
    rw [htakes] at hnone
    cases hnone
  · refine (hhanded.sublist).nodup (List.Nodup.map (inferResponse_injective _) ?_)
    exact hstream.sublist.nodup (nodup_generateResponses maxTokens)
  · intro response hresponse
    obtain ⟨r, -, rfl⟩ := List.mem_map.mp (hhanded.subset hresponse)
    exact ⟨rfl, hdifferent⟩
  · intro hclosed
    rw [hwritten]
    exact (delivered_prefix_handed hclosed).trans hhanded

theorem raceEvents_main {r : Race} (hmain : c.actor = .main) : r.raceEvents c = [] := by
  unfold Race.raceEvents
  rw [hmain]
  rfl

/-- **One step of `InferHedged`.** -/
theorem InferCall.Logged.hedgeStep {s : HedgeStage} (h : f.Logged ws) (hstage : f.stage = .hedged s)
    (hs : f.hedgeStep hash g c s = some (g', f')) : f'.Logged (ws ++ s.raceEvents c) := by
  unfold InferCall.Logged at h
  rw [hstage] at h
  cases hedgeMove hs with
  | scan | choose | rescan | alone =>
    obtain ⟨rfl, hwritten⟩ := h
    exact ⟨rfl, hwritten⟩
  | starve | stream =>
    obtain ⟨rfl, -⟩ := h
    exact fun _ _ hstart => absurd hstart List.not_mem_nil
  | pair _ hne =>
    obtain ⟨rfl, hwritten⟩ := h
    exact ⟨rfl, hwritten, hne⟩
  | start =>
    obtain ⟨rfl, hwritten, hne⟩ := h
    exact ⟨logged_start hne, hwritten, rfl⟩
  | @take r number hmain hpromise =>
    obtain ⟨hr, hwritten, htakes⟩ := h
    simp only [HedgeStage.raceEvents, if_pos hmain, hpromise]
    refine ⟨hr.taken number, hwritten, Or.inr ⟨?_, hpromise⟩⟩
    rw [takes_append, htakes]
    rfl
  | giveUp hmain hpromise =>
    obtain ⟨hr, hwritten, htakes⟩ := h
    simp only [HedgeStage.raceEvents, if_pos hmain, hpromise]
    rw [Option.toList_none, List.map_nil, List.append_nil]
    exact ⟨hr, hwritten, Or.inl ⟨htakes, rfl⟩⟩
  | @race r r' hmain hthread =>
    obtain ⟨hr, hwritten, htakes⟩ := h
    simp only [HedgeStage.raceEvents, if_neg hmain]
    refine ⟨hr.threadStep hmain hthread, hwritten, ?_⟩
    rw [takes_append, htakes, (raceEvents_quiet r hmain).2.2.1, List.nil_append]
  | join hmain =>
    obtain ⟨hr, hwritten, htakes⟩ := h
    rw [HedgeStage.raceEvents, raceEvents_main hmain, List.append_nil]
    exact logged_afterRace hr hwritten htakes
  | @late r r' number hmain hthread =>
    obtain ⟨hr, hwritten, htakes⟩ := h
    have hr' := hr.threadStep hmain hthread
    refine ⟨hr', hwritten, ?_⟩
    rw [HedgeStage.raceEvents, takes_append, (raceEvents_quiet r hmain).2.2.1, List.append_nil]
    exact htakes.imp_right fun htaken => ⟨htaken.1, hr'.promise_eq hr htaken.2⟩
  | forward hserves =>
    obtain ⟨hwritten, hwon⟩ := h
    intro first second hstart
    dsimp only
    rw [hwritten, List.nil_append]
    exact singleSource_of_won hwon hserves rfl hstart

/-- **One step of a call.** -/
theorem InferCall.Logged.step (h : f.Logged ws) (hs : f.step hash g c = some (g', f')) :
    f'.Logged (ws ++ f.raceEvents c) := by
  unfold InferCall.raceEvents
  cases stepMove hs with
  | @pending op ops hpending =>
    rw [hpending, List.append_nil]
    exact h
  | enter hpending hstage =>
    unfold InferCall.Logged at h
    rw [hstage] at h
    rw [hpending, hstage, h.1]
    rfl
  | enterHedged hpending hstage =>
    unfold InferCall.Logged at h
    rw [hstage] at h
    rw [hpending, hstage, h.1]
    exact ⟨rfl, h.2⟩
  | infer hpending hmove =>
    obtain ⟨s, hstage⟩ := hmove.source
    obtain ⟨s', hstage'⟩ := hmove.stage
    unfold InferCall.Logged at h ⊢
    rw [hstage] at h
    rw [hpending, hstage, hstage', h]
    rfl
  | @hedged s g' f' hpending hstage hhedge =>
    rw [hpending, hstage]
    exact h.hedgeStep hstage hhedge

theorem logged_of_run {es : List GatewayLabel} {p : GatewayPool} {i : ℕ}
    (hrun : Run (gatewayProgram hash).step ⟨g, []⟩ es p) (hi : p.calls[i]? = some (.infer f)) :
    f.Logged (raceHistory hash g i es) := by
  refine Program.history_invariant (J := fun _ _ => True)
    (Q := fun ws t => ∀ f, t = .infer f → f.Logged ws) (fun _ _ _ _ _ => trivial) ?_ ?_ hrun hi f rfl
  · intro request f hf
    cases request with
    | infer request =>
      cases hf
      exact ⟨rfl, rfl⟩
    | rebuildRing => cases hf
  · intro g t c g' t' ws _ hQ hcall f' hf'
    rcases gatewayCall_cases hcall with ⟨f, f₁, rfl, rfl, hs⟩ | ⟨b, b', rfl, rfl, -⟩
    · cases hf'
      exact (hQ f rfl).step hs
    · cases hf'

/-- **One source.** At every moment of every run, however the two race threads and the main thread of
a hedged call take turns, whatever the first reads bring, and whether the wait expires or not: the
promise has been set at most once, the two replicas are different, and what has been written to the
client comes, in order and without duplicates, from the stream of the winner alone, if the main
thread has got one. -/
theorem singleSource (hash : List UInt8 → ℕ) (g : GatewayState) (es : List GatewayLabel)
    (p : GatewayPool) (hrun : Run (gatewayProgram hash).step ⟨g, []⟩ es p) (i : ℕ) (f : InferCall)
    (hi : p.calls[i]? = some (.infer f)) (first second : Selection)
    (hstart : .started first second ∈ raceHistory hash g i es) :
    SingleSource f.request.maxTokens first second (raceHistory hash g i es) f.written := by
  have hlogged := logged_of_run hrun hi
  have hmem : (first, second) ∈ starts (raceHistory hash g i es) :=
    List.mem_filterMap.mpr ⟨_, hstart, rfl⟩
  generalize raceHistory hash g i es = ws at hlogged hmem
  have hnil : ws ≠ [] := by
    rintro rfl
    cases hmem
  -- before the call returns, nothing is written
  have hrunning : ∀ r : Race, r.Logged ws → f.written = [] →
      SingleSource f.request.maxTokens first second ws f.written := by
    intro r hr hwritten
    rw [hr.started, List.mem_singleton] at hmem
    cases hmem
    rw [hwritten]
    refine singleSource_unwritten ?_ hr.distinct hr.unwritten
    rw [hr.promises]
    exact Option.length_toList_le
  unfold InferCall.Logged at hlogged
  split at hlogged
  · exact absurd hlogged.1 hnil
  · exact absurd hlogged hnil
  · exact absurd hlogged.1 hnil
  · exact absurd hlogged.1 hnil
  · exact absurd hlogged.1 hnil
  · exact absurd hlogged.1 hnil
  · exact hrunning _ hlogged.1 hlogged.2.1
  · exact hrunning _ hlogged.1 hlogged.2.1
  · obtain ⟨hwritten, hwon⟩ := hlogged
    obtain ⟨first', second', loser, hstarts, hne, -⟩ := hwon.racers
    rw [hstarts, List.mem_singleton] at hmem
    cases hmem
    rw [hwritten]
    refine singleSource_unwritten ?_ hne hwon.unwritten
    rw [hwon.promises]
    exact le_refl 1
  · exact hlogged first second hmem

/-- The first thread wins, the second one reads nothing, and the first token is forwarded. -/
def forwardsFirst : List GatewayLabel :=
  winsRace .first ++ [.call 0 { actor := .second }] ++ List.replicate 6 (.call 0 {})

theorem singleSource_first :
    ∃ p f, Run (gatewayProgram fun _ => 0).step ⟨(newGateway 150 {} 100).shared, []⟩
        (hedgedStart ++ forwardsFirst) p ∧ p.calls[0]? = some (.infer f) ∧
      f.written = [⟨"token_0", true, "replica-1"⟩] ∧
      SingleSource f.request.maxTokens ⟨"replica-1", "a:7001"⟩ ⟨"replica-2", "b:7002"⟩
        (raceHistory (fun _ => 0) (newGateway 150 {} 100).shared 0 (hedgedStart ++ forwardsFirst))
        f.written := by
  have hrun : Run (gatewayProgram fun _ => 0).step ⟨(newGateway 150 {} 100).shared, []⟩
      (hedgedStart ++ forwardsFirst) _ := run_get (by decide +kernel)
  have hcall : ((exec (gatewayProgram fun _ => 0).step ⟨(newGateway 150 {} 100).shared, []⟩
      (hedgedStart ++ forwardsFirst)).get (by decide +kernel)).calls[0]? =
        some (.infer { request := ⟨"client", "hello", 1, true⟩,
                       stage := .hedged (.returned .ok),
                       pending := [.decrementActive "replica-1", .notifyCapacityAvailable],
                       written := [⟨"token_0", true, "replica-1"⟩] }) := by decide +kernel
  exact ⟨_, _, hrun, hcall, rfl, singleSource _ _ _ _ hrun 0 _ hcall _ _ (by decide +kernel)⟩

end LlmGateway.Gateway
