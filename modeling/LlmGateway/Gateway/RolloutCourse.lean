import LlmGateway.Gateway.DrainTimeout
import LlmGateway.Lib.Completion

/-!
# The course of a rolling update

`Update` goes through its list in order. It stops and restarts every replica once, one after the
other, and it returns false exactly if a Drain call has run into its deadline, with the replicas
before that one updated and the ones after it left alone. When it returns, it leaves no draining
mark behind (`update_course`). And it returns, after a number of steps that the length of the list
and the timeout of `WaitForRejoin` bound (`update_returns`).
-/

namespace LlmGateway.Gateway

open Gossip Replica Transition

/-- A call of `stop_fn` or of `restart_fn`. -/
inductive RolloutCallback
  | stop (id : String)
  | restart (id : String)
  deriving DecidableEq, Repr

/-- The callbacks of an update of all the replicas. -/
def course (ids : List String) : List RolloutCallback :=
  ids.flatMap fun id => [.stop id, .restart id]

/-- The callback a step of `Update` makes. -/
def Rollout.callbacks (s : Rollout) : RolloutAct → List RolloutCallback
  | .update =>
    match s.pc with
    | .stopFn id _ => [.stop id]
    | .restartFn id _ => [.restart id]
    | _ => []
  | _ => []

namespace UpdatePc

/-- The replicas that `Update` is not done with. -/
def Left (rest : List String) : UpdatePc → Prop
  | .next r | .clearRing _ r | .waitForRejoin _ r | .readClock _ r _ | .poll _ r _
  | .sleep _ r _ _ => rest = r
  | .drainRing id r | .getReplica id r | .drainRpc id r | .stopFn id r | .restartFn id r
  | .restarted id r | .clearDraining id r => rest = id :: r
  | .undrain id | .undrainRing id => ∃ r, rest = id :: r
  | .returned success => rest = [] ↔ success = true

/-- The callbacks it has made when it is done with `finished`. -/
def called (finished : List String) : UpdatePc → List RolloutCallback
  | .restartFn id _ => course finished ++ [.stop id]
  | .restarted id _ | .clearDraining id _ => course finished ++ [.stop id, .restart id]
  | _ => course finished

/-- The drains that have timed out. -/
def expired (rest : List String) : UpdatePc → List String
  | .undrain _ | .undrainRing _ | .returned _ => rest.take 1
  | _ => []

/-- The replica it has marked draining. -/
def marks : UpdatePc → Option String
  | .drainRing id _ | .getReplica id _ | .drainRpc id _ | .stopFn id _ | .restartFn id _
  | .restarted id _ | .clearDraining id _ | .undrain id => some id
  | _ => none

/-- The replicas whose marks it has cleared. -/
def cleared (finished rest : List String) : UpdatePc → List String
  | .undrainRing _ | .returned _ => finished ++ rest.take 1
  | _ => finished

end UpdatePc

/-- **Where an update stands**, by the replicas it is done with, those that are left, the callbacks
and the drains that have timed out. A replica is not draining if it was not at the start, or if its
mark has been cleared; except the one that is marked. -/
structure Course (r₀ : ReplicaRegistry) (finished rest : List String) (cs : List RolloutCallback)
    (ts : List String) (pc : UpdatePc) (r : ReplicaRegistry) : Prop where
  left : pc.Left rest
  called : cs = pc.called finished
  expired : ts = pc.expired rest
  routable : ∀ id, pc.marks ≠ some id → r₀.Routable id ∨ id ∈ pc.cleared finished rest →
    r.Routable id

theorem course_append (ids ids' : List String) : course (ids ++ ids') = course ids ++ course ids' :=
  List.flatMap_append

theorem ReplicaRegistry.Routable.setDraining_of_ne {r : ReplicaRegistry} {id id' : String}
    {draining : Bool} (h : r.Routable id) (hid : id ≠ id') :
    (r.setDraining id' draining).Routable id := by
  intro info hinfo
  unfold ReplicaRegistry.setDraining at hinfo
  rw [ReplicaRegistry.getReplica_modify_of_ne _ hid] at hinfo
  exact h info hinfo

theorem ReplicaRegistry.Routable.setDraining_false {r : ReplicaRegistry} {id id' : String}
    (h : id ≠ id' → r.Routable id) : (r.setDraining id' false).Routable id := by
  by_cases hid : id = id'
  · exact hid ▸ routable_setDraining r id'
  · exact (h hid).setDraining_of_ne hid

variable {r₀ r r' : ReplicaRegistry} {finished rest : List String} {cs : List RolloutCallback}
  {ts : List String} {pc pc' : UpdatePc}

theorem Course.goto (h : Course r₀ finished rest cs ts pc r) (hleft : pc'.Left rest)
    (hcalled : pc'.called finished = pc.called finished)
    (hexpired : pc'.expired rest = pc.expired rest) (hmarks : pc.marks = pc'.marks)
    (hcleared : pc'.cleared finished rest = pc.cleared finished rest) :
    Course r₀ finished rest cs ts pc' r where
  left := hleft
  called := h.called.trans hcalled.symm
  expired := h.expired.trans hexpired.symm
  routable id hid hclear := h.routable id (hmarks ▸ hid) (hcleared ▸ hclear)

namespace Rollout

variable {s s' : Rollout} {l : RolloutAct} {ms : ℤ}

/-- **One step of `Update`.** -/
theorem course_updateStep (h : Course r₀ finished rest cs ts s.pc s.registry)
    (hs : s.updateStep ms = some s') :
    ∃ finished' rest', finished' ++ rest' = finished ++ rest ∧
      Course r₀ finished' rest' (cs ++ s.callbacks .update) ts s'.pc s'.registry := by
  unfold Rollout.callbacks
  unfold Rollout.updateStep at hs
  cases hpc : s.pc <;> rw [hpc] at h hs <;> dsimp only at hs ⊢
  case drainRpc | returned => cases hs
  case next r =>
    obtain ⟨rfl, hcalled, hexpired, hroutable⟩ := h
    rw [List.append_nil]
    cases rest with
    | nil =>
      cases hs
      exact ⟨finished, [], rfl,
        ⟨iff_of_true rfl rfl, hcalled, hexpired, by simpa [UpdatePc.cleared]⟩⟩
    | cons id rest =>
      cases hs
      refine ⟨finished, id :: rest, rfl, ⟨rfl, hcalled, hexpired, fun id' hid' hclear => ?_⟩⟩
      exact (hroutable id' (by rintro ⟨⟩) hclear).setDraining_of_ne fun heq =>
        hid' (by rw [heq]; rfl)
  case undrain id =>
    cases hs
    obtain ⟨⟨r, rfl⟩, hcalled, hexpired, hroutable⟩ := h
    rw [List.append_nil]
    refine ⟨finished, id :: r, rfl, ⟨⟨r, rfl⟩, hcalled, hexpired, fun id' _ hclear => ?_⟩⟩
    refine ReplicaRegistry.Routable.setDraining_false fun hne => hroutable id' ?_ ?_
    · exact fun heq => hne (Option.some.inj heq).symm
    · refine hclear.imp_right fun hmem => ?_
      exact (List.mem_append.mp hmem).resolve_right fun hid => hne (List.mem_singleton.mp hid)
  case undrainRing id =>
    cases hs
    obtain ⟨⟨r, rfl⟩, hcalled, hexpired, hroutable⟩ := h
    rw [List.append_nil]
    exact ⟨finished, id :: r, rfl, ⟨iff_of_false (by rintro ⟨⟩) (by rintro ⟨⟩), hcalled, hexpired,
      hroutable⟩⟩
  case stopFn id r | restartFn id r =>
    cases hs
    obtain ⟨rfl, hcalled, hexpired, hroutable⟩ := h
    subst hcalled
    exact ⟨finished, id :: r, rfl, ⟨rfl, by simp [UpdatePc.called], hexpired, hroutable⟩⟩
  case clearDraining id r =>
    cases hs
    obtain ⟨rfl, hcalled, hexpired, hroutable⟩ := h
    subst hcalled
    refine ⟨finished ++ [id], r, by simp, ⟨rfl, ?_, hexpired, fun id' _ hclear => ?_⟩⟩
    · simp [UpdatePc.called, course]
    · refine ReplicaRegistry.Routable.setDraining_false fun hne => hroutable id' ?_ ?_
      · exact fun heq => hne (Option.some.inj heq).symm
      · refine hclear.imp_right fun hmem => ?_
        exact (List.mem_append.mp hmem).resolve_right fun hid => hne (List.mem_singleton.mp hid)
  case getReplica | readClock | poll | sleep =>
    split_ifs at hs <;> cases hs <;> rw [List.append_nil] <;>
      exact ⟨finished, rest, rfl, h.goto h.left rfl rfl rfl rfl⟩
  all_goals
    cases hs
    rw [List.append_nil]
    exact ⟨finished, rest, rfl, h.goto h.left rfl rfl rfl rfl⟩

/-- **One step**, of `Update` or of what goes on next to it. -/
theorem course_step (h : Course r₀ finished rest cs ts s.pc s.registry)
    (hs : s.step ms l = some s') :
    ∃ finished' rest', finished' ++ rest' = finished ++ rest ∧
      Course r₀ finished' rest' (cs ++ s.callbacks l) (ts ++ s.expires l) s'.pc s'.registry := by
  by_cases hl : l = .update
  · subst hl
    rw [show s.expires .update = [] from rfl, List.append_nil]
    exact course_updateStep h hs
  · have hnone : s.callbacks l = [] := by
      cases l with
      | update => exact absurd rfl hl
      | _ => rfl
    rw [hnone, List.append_nil]
    refine ⟨finished, rest, rfl, ?_⟩
    obtain ⟨-, ⟨hpc, hexpires, hregistry⟩ | ⟨r, id, rest', rfl, hpc⟩⟩ := outside_step hl hs
    · rw [hexpires, List.append_nil, hpc]
      exact ⟨h.left, h.called, h.expired, fun id hid hclear =>
        hregistry id (h.routable id hid hclear)⟩
    · rw [hpc] at h
      obtain ⟨rfl, hcalled, hexpired, hroutable⟩ := h
      subst hexpired
      unfold expires
      simp only [Rollout.step, Rollout.drainReply, hpc] at hs ⊢
      cases r <;> cases hs
      · exact ⟨rfl, hcalled, rfl, hroutable⟩
      · exact ⟨⟨rest', rfl⟩, hcalled, rfl, hroutable⟩
      · exact ⟨rfl, hcalled, rfl, hroutable⟩

theorem course_of_run {ids : List String} {es : List RolloutAct}
    (hrun : Run (step ms) (start r₀ ids) es s) :
    ∃ finished rest, finished ++ rest = ids ∧
      Course r₀ finished rest (trace (step ms) callbacks (start r₀ ids) es)
        (trace (step ms) expires (start r₀ ids) es) s.pc s.registry := by
  induction hrun with
  | nil => exact ⟨[], ids, rfl, ⟨rfl, rfl, rfl, fun _ _ h => h.resolve_right List.not_mem_nil⟩⟩
  | @snoc es l s s' hrun hs ih =>
    obtain ⟨finished, rest, hids, h⟩ := ih
    obtain ⟨finished', rest', hids', h'⟩ := course_step h hs
    rw [trace_snoc hrun, trace_snoc hrun]
    exact ⟨finished', rest', hids'.trans hids, h'⟩

/-- The callbacks so far are the first ones of the course. -/
theorem called_prefix (hleft : pc.Left rest) :
    pc.called finished <+: course (finished ++ rest) := by
  rw [course_append]
  cases pc with
  | restartFn id r =>
    obtain rfl := hleft
    exact (List.prefix_append_right_inj _).mpr ⟨.restart id :: course r, rfl⟩
  | restarted id r | clearDraining id r =>
    obtain rfl := hleft
    exact (List.prefix_append_right_inj _).mpr ⟨course r, rfl⟩
  | _ => exact List.prefix_append _ _

/-- **The course of a rolling update.** In every run, whatever the gossip, the answers to the Drain
calls and the times: the callbacks are the first of the course in which every replica of the list is
stopped and then restarted, one after the other. `Update` returns true with the whole course behind
it and no drain timed out. It returns false when one drain has timed out, with the course behind it
of the replicas before that one. Either way no replica is draining then for which the update has set
the mark, and none that was not draining before. -/
theorem update_course (registry : ReplicaRegistry) (ids : List String) (ms : ℤ)
    (es : List RolloutAct) (s : Rollout) (hrun : Run (step ms) (start registry ids) es s) :
    trace (step ms) callbacks (start registry ids) es <+: course ids ∧
    (s.pc = .returned true → trace (step ms) callbacks (start registry ids) es = course ids ∧
      trace (step ms) expires (start registry ids) es = [] ∧
      ∀ id ∈ ids, s.registry.Routable id) ∧
    (s.pc = .returned false → ∃ finished id rest, ids = finished ++ id :: rest ∧
      trace (step ms) callbacks (start registry ids) es = course finished ∧
      trace (step ms) expires (start registry ids) es = [id] ∧
      ∀ id' ∈ finished ++ [id], s.registry.Routable id') ∧
    ∀ success id, s.pc = .returned success → registry.Routable id → s.registry.Routable id := by
  obtain ⟨finished, rest, rfl, hleft, hcalled, hexpired, hroutable⟩ := course_of_run hrun
  refine ⟨hcalled ▸ called_prefix hleft, fun hpc => ?_, fun hpc => ?_, fun success id hpc h => ?_⟩
  · rw [hpc] at hleft hcalled hexpired hroutable
    obtain rfl : rest = [] := hleft.mpr rfl
    refine ⟨by rw [hcalled, List.append_nil]; rfl, hexpired, fun id hid => ?_⟩
    exact hroutable id (by rintro ⟨⟩) (Or.inr (by simpa [UpdatePc.cleared] using hid))
  · rw [hpc] at hleft hcalled hexpired hroutable
    cases rest with
    | nil => exact absurd (hleft.mp rfl) Bool.false_ne_true
    | cons id rest =>
      exact ⟨finished, id, rest, rfl, hcalled, hexpired, fun id' hid' =>
        hroutable id' (by rintro ⟨⟩) (Or.inr hid')⟩
  · rw [hpc] at hroutable
    exact hroutable id (by rintro ⟨⟩) (Or.inl h)

/-- The first replica is updated, and the drain of the second one times out. -/
theorem update_course_timeout :
    let es := restartFirst ++ [aboutFirst .alive 1 1] ++ List.replicate 4 .update ++
      [.drainReply .deadlineExceeded] ++ List.replicate 2 .update
    ∃ s, Run (step 10000) (start twoAlive ["replica-1", "replica-2"]) es s ∧
      s.pc = .returned false ∧
      trace (step 10000) callbacks (start twoAlive ["replica-1", "replica-2"]) es <+:
        [.stop "replica-1", .restart "replica-1", .stop "replica-2", .restart "replica-2"] ∧
      ∃ finished id rest, ["replica-1", "replica-2"] = finished ++ id :: rest ∧
        trace (step 10000) expires (start twoAlive ["replica-1", "replica-2"]) es = [id] ∧
        s.registry.Routable id := by
  intro es
  have hrun : Run (step 10000) (start twoAlive ["replica-1", "replica-2"]) es _ :=
    run_get (by decide +kernel)
  have hpc : ((exec (step 10000) (start twoAlive ["replica-1", "replica-2"]) es).get
      (by decide +kernel)).pc = .returned false := by decide +kernel
  obtain ⟨hcalled, -, hfalse, -⟩ := update_course _ _ _ es _ hrun
  obtain ⟨finished, id, rest, hids, -, hexpires, hroutable⟩ := hfalse hpc
  exact ⟨_, hrun, hpc, hcalled, finished, id, rest, hids, hexpires, hroutable id (by simp)⟩

/-! ## How long it takes -/

/-- How often `WaitForRejoin` can poll until the deadline: every 200 ms. -/
def pollsLeft (deadline clock : ℤ) : ℕ := ((deadline - clock + 199999999) / 200000000).toNat

/-- How often `WaitForRejoin` polls with a timeout of `ms` at most. -/
def maxPolls (ms : ℤ) : ℕ := ((ms + 199) / 200).toNat

/-- The steps for one replica at most. -/
def perReplica (ms : ℤ) : ℕ := 10 + 3 * maxPolls ms

/-- The steps that `Update` may still take. -/
def budget (ms : ℤ) (clock : ℕ) : UpdatePc → ℕ
  | .next r => r.length * perReplica ms + 1
  | .drainRing _ r => 9 + 3 * maxPolls ms + (r.length * perReplica ms + 1)
  | .getReplica _ r => 8 + 3 * maxPolls ms + (r.length * perReplica ms + 1)
  | .drainRpc _ r | .stopFn _ r => 7 + 3 * maxPolls ms + (r.length * perReplica ms + 1)
  | .restartFn _ r => 6 + 3 * maxPolls ms + (r.length * perReplica ms + 1)
  | .restarted _ r => 5 + 3 * maxPolls ms + (r.length * perReplica ms + 1)
  | .clearDraining _ r => 4 + 3 * maxPolls ms + (r.length * perReplica ms + 1)
  | .clearRing _ r => 3 + 3 * maxPolls ms + (r.length * perReplica ms + 1)
  | .waitForRejoin _ r => 2 + 3 * maxPolls ms + (r.length * perReplica ms + 1)
  | .readClock _ r deadline => 1 + 3 * pollsLeft deadline clock + (r.length * perReplica ms + 1)
  | .poll _ r deadline =>
    3 + 3 * pollsLeft deadline (clock + 200000000) + (r.length * perReplica ms + 1)
  | .sleep _ r deadline wakeup =>
    2 + 3 * pollsLeft deadline (max clock wakeup) + (r.length * perReplica ms + 1)
  | .undrain _ => 2
  | .undrainRing _ => 1
  | .returned _ => 0

def budgetLeft (ms : ℤ) (s : Rollout) : ℕ := budget ms s.clock s.pc

theorem pollsLeft_anti {deadline clock clock' : ℤ} (h : clock ≤ clock') :
    pollsLeft deadline clock' ≤ pollsLeft deadline clock := by
  unfold pollsLeft
  omega

theorem pollsLeft_start (ms : ℤ) (clock : ℕ) :
    pollsLeft (clock + ms * 1000000) clock = maxPolls ms := by
  unfold pollsLeft maxPolls
  omega

theorem pollsLeft_poll {deadline clock : ℤ} (h : clock < deadline) :
    pollsLeft deadline (clock + 200000000) + 1 = pollsLeft deadline clock := by
  unfold pollsLeft
  omega

theorem budget_anti {clock clock' : ℕ} (h : clock ≤ clock') (pc : UpdatePc) :
    budget ms clock' pc ≤ budget ms clock pc := by
  cases pc with
  | readClock id r deadline =>
    have hle := @pollsLeft_anti deadline clock clock' (by exact_mod_cast h)
    simp only [budget]
    omega
  | poll id r deadline =>
    have hle := @pollsLeft_anti deadline (clock + 200000000) (clock' + 200000000) (by omega)
    simp only [budget]
    omega
  | sleep id r deadline wakeup =>
    have hle := @pollsLeft_anti deadline (max clock wakeup) (max clock' wakeup) (by omega)
    simp only [budget]
    omega
  | _ => exact le_rfl

/-- **A step of `Update` takes from its budget.** -/
theorem budget_updateStep (hs : s.updateStep ms = some s') :
    budgetLeft ms s' < budgetLeft ms s := by
  unfold budgetLeft
  unfold Rollout.updateStep at hs
  cases hpc : s.pc <;> simp only [hpc] at hs
  case drainRpc | returned => cases hs
  case next r =>
    cases r with
    | nil =>
      cases hs
      exact Nat.succ_pos _
    | cons id r =>
      cases hs
      simp only [Rollout.drain, budget, List.length_cons, Nat.succ_mul, perReplica]
      omega
  case waitForRejoin id r =>
    cases hs
    simp only [budget, pollsLeft_start]
    omega
  case readClock id r deadline =>
    split_ifs at hs with hearly <;> cases hs
    · have hpoll := pollsLeft_poll hearly
      simp only [budget]
      omega
    · simp only [budget]
      omega
  case poll id r deadline =>
    split_ifs at hs <;> cases hs
    · simp only [budget]
      omega
    · have hle := @pollsLeft_anti deadline (s.clock + 200000000)
        (max (s.clock : ℤ) ((s.clock + 200000000 : ℕ) : ℤ)) (by omega)
      simp only [budget]
      omega
  case sleep id r deadline wakeup =>
    split_ifs at hs with hawake
    cases hs
    simp only [budget, max_eq_left (Int.ofNat_le.mpr hawake)]
    omega
  case getReplica =>
    split_ifs at hs <;> cases hs <;> simp only [budget] <;> omega
  all_goals
    cases hs
    simp only [budget]
    omega

theorem budget_step (hs : s.step ms l = some s') :
    (if l = .update then 1 else 0) + budgetLeft ms s' ≤ budgetLeft ms s := by
  unfold budgetLeft
  cases l with
  | tick ns =>
    cases hs
    rw [if_neg (by rintro ⟨⟩), Nat.zero_add]
    exact budget_anti (Nat.le_add_right _ _) _
  | gossip id u inst =>
    unfold Rollout.step at hs
    dsimp only at hs
    split_ifs at hs
    cases hs
    rw [if_neg (by rintro ⟨⟩), Nat.zero_add]
    exact le_rfl
  | drainReply r =>
    rw [if_neg (by rintro ⟨⟩), Nat.zero_add]
    unfold Rollout.step Rollout.drainReply at hs
    cases hpc : s.pc <;> simp only [hpc] at hs
    case drainRpc id rest => cases r <;> cases hs <;> simp only [budget] <;> omega
    all_goals cases hs
  | update =>
    rw [if_pos rfl, Nat.add_comm]
    exact budget_updateStep hs

/-- The steps of `Update`, the time, and the deadline of a Drain call. -/
def Unaided : RolloutAct → Prop
  | .update | .tick _ | .drainReply .deadlineExceeded => True
  | _ => False

/-- An update that has not returned can go on. -/
theorem updates (hpc : ∀ success, s.pc ≠ .returned success) (ms : ℤ) :
    ∃ es t, (∀ l ∈ es, Unaided l) ∧ Run (step ms) s es t ∧ budgetLeft ms t < budgetLeft ms s := by
  have hgo : ∀ t, s.updateStep ms = some t → ∃ es t, (∀ l ∈ es, Unaided l) ∧
      Run (step ms) s es t ∧ budgetLeft ms t < budgetLeft ms s := fun t ht =>
    ⟨[.update], t, by simp [Unaided], .snoc .nil ht, budget_updateStep ht⟩
  cases hat : s.pc with
  | returned success => exact absurd hat (hpc success)
  | drainRpc id rest =>
    have hs : s.step ms (.drainReply .deadlineExceeded) = some { s with pc := .undrain id } := by
      simp only [Rollout.step, Rollout.drainReply, hat]
    refine ⟨[.drainReply .deadlineExceeded], _, by simp [Unaided], .snoc .nil hs, ?_⟩
    unfold budgetLeft
    rw [hat]
    show 2 < 7 + 3 * maxPolls ms + (rest.length * perReplica ms + 1)
    omega
  | sleep id rest deadline wakeup =>
    -- until it wakes up
    obtain ⟨t, ht⟩ : ∃ t, updateStep { s with clock := s.clock + wakeup } ms = some t := by
      simp [Rollout.updateStep, hat]
    refine ⟨[.tick wakeup, .update], t, by simp [Unaided], .snoc (.snoc .nil rfl) ht, ?_⟩
    exact (budget_updateStep ht).trans_le (budget_anti (Nat.le_add_right _ _) _)
  | next rest =>
    refine (Option.isSome_iff_exists.mp ?_).elim hgo
    cases rest <;> simp [Rollout.updateStep, hat]
  | getReplica | readClock | poll =>
    refine (Option.isSome_iff_exists.mp ?_).elim hgo
    simp only [Rollout.updateStep, hat]
    split_ifs <;> rfl
  | _ =>
    refine (Option.isSome_iff_exists.mp ?_).elim hgo
    simp [Rollout.updateStep, hat]

/-- **A rolling update comes to an end.** In every run `Update` takes at most
`10 + 3 * ⌈rejoin_timeout_ms / 200⌉` steps for each replica of its list, and one more. And from
every reachable state it can return: while nothing happens but its own steps, time, and that a Drain
call runs into its deadline. -/
theorem update_returns (registry : ReplicaRegistry) (ids : List String) (ms : ℤ)
    (es : List RolloutAct) (s : Rollout) (hrun : Run (step ms) (start registry ids) es s) :
    stepCount (step ms) (fun _ l => l = .update) (start registry ids) es ≤
      ids.length * (10 + 3 * maxPolls ms) + 1 ∧
    ∃ fs t success, (∀ l ∈ fs, Unaided l) ∧ Run (step ms) s fs t ∧ t.pc = .returned success := by
  constructor
  · have hcount : stepCount (step ms) (fun _ l => l = .update) (start registry ids) es +
        budgetLeft ms s ≤ budgetLeft ms (start registry ids) :=
      stepCount_add_le (I := fun _ => True) trivial
        (fun s l s' _ hs => ⟨trivial, by simpa using budget_step hs⟩) hrun
    exact (Nat.le_add_right _ _).trans hcount
  · have hgoes : ∀ s : Rollout, True → (¬ ∃ success, s.pc = .returned success) →
        ∃ es t, (∀ l ∈ es, Unaided l) ∧ Run (step ms) s es t ∧ True ∧
          budgetLeft ms t < budgetLeft ms s := by
      intro s _ hopen
      obtain ⟨es, t, hes, ht, hlt⟩ := updates (fun success h => hopen ⟨success, h⟩) ms
      exact ⟨es, t, hes, ht, trivial, hlt⟩
    obtain ⟨fs, t, hfs, hrun', -, success, hreturned⟩ :=
      Transition.drain (budgetLeft ms) hgoes s trivial
    exact ⟨fs, t, success, hfs, hrun', hreturned⟩

/-- The timeout of `WaitForRejoin` is over at once: at most `2 * 10 + 1` steps. -/
theorem update_returns_impatient :
    let es := restartFirst ++ List.replicate 3 .update
    stepCount (step 0) (fun _ l => l = .update) (start twoAlive ["replica-1", "replica-2"]) es ≤
      21 ∧ ∃ s fs t success, Run (step 0) (start twoAlive ["replica-1", "replica-2"]) es s ∧
      Run (step 0) s fs t ∧ t.pc = .returned success := by
  intro es
  have hrun : Run (step 0) (start twoAlive ["replica-1", "replica-2"]) es _ :=
    run_get (by decide +kernel)
  obtain ⟨hcount, fs, t, success, -, hrun', hreturned⟩ := update_returns _ _ 0 es _ hrun
  exact ⟨hcount, _, fs, t, success, hrun, hrun', hreturned⟩

end Rollout

end LlmGateway.Gateway
