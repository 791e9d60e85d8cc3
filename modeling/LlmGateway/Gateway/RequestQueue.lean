import LlmGateway.Lib.Pool
import Mathlib.Tactic.Ring

/-!
# The backpressure queue

`RequestQueue` serves its waiters by ticket. Admission and the first test of the predicate happen
under one lock acquisition (`enter`); a blocked call then leaves when its ticket is served or its
deadline has passed (`wake`). The ticket counters are the `uint64_t` of the source.

1. `waitProgram`: any number of `WaitForCapacity` calls, with notifications and the clock as the
   environment. `History` adds the numbers of tickets and of notifications so far, and every call
   remembers how many notifications there had been when it took its ticket.
2. `Matched`: the calls that returned true can be matched with notifications of their own, each
   issued after the call took its ticket.
3. `always_matched_iff`: when that holds throughout a run. A ticket taken while `serving_ticket_`
   is ahead of it is served at once, on account of a notification nobody waited for.
-/

namespace LlmGateway.Gateway

open Transition

structure RequestQueue where
  maxSize : ℤ := 100
  waitingCount : ℤ := 0
  nextTicket : ℕ := 0
  servingTicket : ℕ := 0
  deriving DecidableEq, Repr

structure Ticket where
  number : ℕ
  deadline : ℤ
  deriving DecidableEq, Repr

/-- What `WaitForCapacity` does under its first lock acquisition. -/
inductive Admission
  | rejected
  | served (t : Ticket)
  | blocked (t : Ticket)
  deriving DecidableEq, Repr

namespace RequestQueue

variable (q : RequestQueue)

/-- `WaitForCapacity`, up to where it returns or blocks. -/
def enter (now : ℕ) (timeoutMs : ℤ) : RequestQueue × Admission :=
  if q.maxSize ≤ q.waitingCount then (q, .rejected)
  else
    let t : Ticket := ⟨q.nextTicket, now + timeoutMs * 1000000⟩
    let q' := { q with nextTicket := (q.nextTicket + 1) % 2 ^ 64 }
    -- the predicate is tested before the first wait
    if t.number < q.servingTicket then (q', .served t)
    else ({ q' with waitingCount := q.waitingCount + 1 }, .blocked t)

/-- A blocked call returns: served, or at its deadline. Before that it takes no step. -/
def wake (now : ℕ) (t : Ticket) : Option (RequestQueue × Bool) :=
  if t.number < q.servingTicket then
    some ({ q with waitingCount := q.waitingCount - 1 }, true)
  else if t.deadline ≤ now then some ({ q with waitingCount := q.waitingCount - 1 }, false)
  else none

/-- `NotifyCapacityAvailable`. -/
def notifyCapacityAvailable : RequestQueue :=
  { q with servingTicket := (q.servingTicket + 1) % 2 ^ 64 }

end RequestQueue

/-! ## Calls on one queue -/

/-- A queue with the clock, and with the numbers of tickets and notifications there have been. -/
structure History where
  queue : RequestQueue
  now : ℕ := 0
  taken : ℕ := 0
  notified : ℕ := 0
  deriving DecidableEq, Repr

/-- A `WaitForCapacity` call. One with a ticket knows its number among all tickets, and how many
notifications there had been when it took it. -/
inductive WaitCall
  | entering (timeoutMs : ℤ)
  | waiting (t : Ticket) (number seen : ℕ)
  | served (number seen : ℕ)
  | gaveUp
  deriving DecidableEq, Repr

inductive QueueEvent
  | tick (ns : ℕ)
  | notify
  deriving DecidableEq, Repr

namespace WaitCall

/-- One step of a call. -/
def step (h : History) : WaitCall → Option (History × WaitCall)
  | .entering timeoutMs =>
    match h.queue.enter h.now timeoutMs with
    | (q, .rejected) => some ({ h with queue := q }, .gaveUp)
    | (q, .served _) =>
      some ({ h with queue := q, taken := h.taken + 1 }, .served h.taken h.notified)
    | (q, .blocked t) =>
      some ({ h with queue := q, taken := h.taken + 1 }, .waiting t h.taken h.notified)
  | .waiting t number seen =>
    (h.queue.wake h.now t).map fun r =>
      ({ h with queue := r.1 }, if r.2 then .served number seen else .gaveUp)
  | _ => none

end WaitCall

/-- The calls, the notifications and the clock. -/
def waitProgram : Program History WaitCall ℤ Unit QueueEvent where
  start := .entering
  call h c _ := c.step h
  env h
    | .tick ns => some { h with now := h.now + ns }
    | .notify =>
      some { h with queue := h.queue.notifyCapacityAvailable, notified := h.notified + 1 }

abbrev WaitLabel := Program.Label ℤ Unit QueueEvent

/-- A new queue that admits `maxSize` waiters. -/
def newQueue (maxSize : ℤ) : Pool History WaitCall := ⟨{ queue := { maxSize := maxSize } }, []⟩

/-- The calls that returned true have notifications of their own, issued after they took their
tickets. Notifications are numbered in the order they were issued. -/
def Matched (p : Pool History WaitCall) : Prop :=
  ∃ f : ℕ → ℕ,
    (∀ i number seen, p.calls[i]? = some (.served number seen) →
      seen ≤ f i ∧ f i < p.shared.notified) ∧
    ∀ i j, (∃ n s, p.calls[i]? = some (.served n s)) → (∃ n s, p.calls[j]? = some (.served n s)) →
      f i = f j → i = j

/-- The step `l` is a `WaitForCapacity` call taking its ticket. -/
def TakesTicket (p : Pool History WaitCall) (l : WaitLabel) : Prop :=
  ∃ i timeoutMs, l = .call i () ∧ p.calls[i]? = some (.entering timeoutMs) ∧
    p.shared.queue.waitingCount < p.shared.queue.maxSize

/-! ## The invariant -/

/-- The counters of the queue are the numbers of tickets and notifications, on 64 bits. -/
structure History.Counted (h : History) : Prop where
  next : h.queue.nextTicket = h.taken % 2 ^ 64
  serving : h.queue.servingTicket = h.notified % 2 ^ 64

/-- What a call with a ticket can rely on, when it took the ticket in time: a waiting call will be
served by a later notification, and a served one by the notification of its own number. -/
def WaitCall.InTime (h : History) : WaitCall → Prop
  | .waiting t number seen =>
    t.number = number ∧ number < 2 ^ 64 ∧ seen ≤ h.notified ∧ seen % 2 ^ 64 ≤ number
  | .served number seen =>
    number < 2 ^ 64 ∧ ∃ m, m % 2 ^ 64 = number ∧ seen ≤ m ∧ m < h.notified
  | _ => True

/-- The number of a call's ticket. -/
def WaitCall.number : WaitCall → Option ℕ
  | .waiting _ number _ => some number
  | .served number _ => some number
  | _ => none

structure QueueInv (p : Pool History WaitCall) : Prop where
  counted : p.shared.Counted
  inTime : ∀ c ∈ p.calls, c.InTime p.shared
  lt_taken : ∀ c ∈ p.calls, ∀ k, c.number = some k → k < p.shared.taken
  distinct : ∀ (i j : ℕ) (c d : WaitCall) (k : ℕ), p.calls[i]? = some c → p.calls[j]? = some d →
    c.number = some k → d.number = some k → i = j

variable {p p' : Pool History WaitCall} {l : WaitLabel} {h h' : History} {c c' : WaitCall}

theorem WaitCall.InTime.mono (hc : c.InTime h) (hn : h.notified ≤ h'.notified) : c.InTime h' := by
  cases c with
  | waiting t number seen => exact ⟨hc.1, hc.2.1, hc.2.2.1.trans hn, hc.2.2.2⟩
  | served number seen =>
    obtain ⟨hlt, m, hm, hseen, hmn⟩ := hc
    exact ⟨hlt, m, hm, hseen, hmn.trans_le hn⟩
  | _ => trivial

/-- A served ticket below `serving_ticket_` has a notification of its own: the last one so far with
its number on 64 bits. -/
theorem exists_notification {k seen notified : ℕ} (hk : k < notified % 2 ^ 64)
    (hseen : seen % 2 ^ 64 ≤ k) (hle : seen ≤ notified) :
    ∃ m, m % 2 ^ 64 = k ∧ seen ≤ m ∧ m < notified := by
  refine ⟨2 ^ 64 * (notified / 2 ^ 64) + k, ?_, ?_, ?_⟩ <;> omega

/-- **One step of a call**: it takes a ticket, gives up, or is served. -/
inductive WaitStep (h : History) : WaitCall → History → WaitCall → Prop
  | rejected {timeoutMs : ℤ} : h.queue.maxSize ≤ h.queue.waitingCount →
      WaitStep h (.entering timeoutMs) h .gaveUp
  | servedAtOnce {timeoutMs : ℤ} {q : RequestQueue} :
      h.queue.waitingCount < h.queue.maxSize → h.queue.nextTicket < h.queue.servingTicket →
      q.nextTicket = (h.queue.nextTicket + 1) % 2 ^ 64 → q.servingTicket = h.queue.servingTicket →
      WaitStep h (.entering timeoutMs) { h with queue := q, taken := h.taken + 1 }
        (.served h.taken h.notified)
  | blocked {timeoutMs : ℤ} {q : RequestQueue} {t : Ticket} :
      h.queue.waitingCount < h.queue.maxSize → h.queue.servingTicket ≤ h.queue.nextTicket →
      t.number = h.queue.nextTicket →
      q.nextTicket = (h.queue.nextTicket + 1) % 2 ^ 64 → q.servingTicket = h.queue.servingTicket →
      WaitStep h (.entering timeoutMs) { h with queue := q, taken := h.taken + 1 }
        (.waiting t h.taken h.notified)
  | served {t : Ticket} {number seen : ℕ} {q : RequestQueue} : t.number < h.queue.servingTicket →
      q.nextTicket = h.queue.nextTicket → q.servingTicket = h.queue.servingTicket →
      WaitStep h (.waiting t number seen) { h with queue := q } (.served number seen)
  | timedOut {t : Ticket} {number seen : ℕ} {q : RequestQueue} :
      q.nextTicket = h.queue.nextTicket → q.servingTicket = h.queue.servingTicket →
      WaitStep h (.waiting t number seen) { h with queue := q } .gaveUp

theorem waitStep_cases (hs : c.step h = some (h', c')) : WaitStep h c h' c' := by
  cases c with
  | entering timeoutMs =>
    unfold WaitCall.step RequestQueue.enter at hs
    dsimp only at hs
    by_cases hfull : h.queue.maxSize ≤ h.queue.waitingCount
    · rw [if_pos hfull] at hs
      cases hs
      exact .rejected hfull
    · rw [if_neg hfull] at hs
      by_cases hserved : h.queue.nextTicket < h.queue.servingTicket
      · rw [if_pos hserved] at hs
        cases hs
        exact .servedAtOnce (not_le.mp hfull) hserved rfl rfl
      · rw [if_neg hserved] at hs
        cases hs
        exact .blocked (not_le.mp hfull) (not_lt.mp hserved) rfl rfl rfl
  | waiting t number seen =>
    obtain ⟨r, hr, heq⟩ := Option.map_eq_some_iff.mp hs
    unfold RequestQueue.wake at hr
    split_ifs at hr with hserved hdead
    · cases hr
      cases heq
      exact .served hserved rfl rfl
    · cases hr
      cases heq
      exact .timedOut rfl rfl
  | served => cases hs
  | gaveUp => cases hs

/-- The condition on the state in which a ticket is taken. -/
def TakenInTime (p : Pool History WaitCall) (l : WaitLabel) : Prop :=
  TakesTicket p l → p.shared.queue.servingTicket ≤ p.shared.queue.nextTicket ∧
    p.shared.taken < 2 ^ 64

theorem QueueInv.set (hp : QueueInv p) {i : ℕ} (hi : p.calls[i]? = some c)
    (hcounted : h'.Counted) (hn : p.shared.notified ≤ h'.notified)
    (ht : p.shared.taken ≤ h'.taken) (hc' : c'.InTime h')
    (hnumber : ∀ k, c'.number = some k → k < h'.taken ∧ (c.number = some k ∨ p.shared.taken ≤ k)) :
    QueueInv ⟨h', p.calls.set i c'⟩ where
  counted := hcounted
  inTime := by
    intro d hd
    rcases List.mem_or_eq_of_mem_set hd with hd | rfl
    · exact (hp.inTime d hd).mono hn
    · exact hc'
  lt_taken := by
    intro d hd k hk
    rcases List.mem_or_eq_of_mem_set hd with hd | rfl
    · exact (hp.lt_taken d hd k hk).trans_le ht
    · exact (hnumber k hk).1
  distinct := by
    -- the number of the changed call is its old one, or above all others
    have hchanged : ∀ j d k, p.calls[j]? = some d → d.number = some k → c'.number = some k →
        i = j := by
      intro j d k hj hd hk
      rcases (hnumber k hk).2 with hc | hle
      · exact hp.distinct i j c d k hi hj hc hd
      · have hlt := hp.lt_taken d (List.mem_of_getElem? hj) k hd
        omega
    intro j₁ j₂ d₁ d₂ k h₁ h₂ hk₁ hk₂
    dsimp only at h₁ h₂
    rw [List.getElem?_set] at h₁ h₂
    by_cases hj₁ : i = j₁ <;> by_cases hj₂ : i = j₂
    · exact hj₁.symm.trans hj₂
    · rw [if_neg hj₂] at h₂
      rw [if_pos hj₁] at h₁
      split_ifs at h₁
      cases h₁
      exact absurd (hchanged j₂ d₂ k h₂ hk₂ hk₁) hj₂
    · rw [if_neg hj₁] at h₁
      rw [if_pos hj₂] at h₂
      split_ifs at h₂
      cases h₂
      exact absurd (hchanged j₁ d₁ k h₁ hk₁ hk₂) hj₁
    · rw [if_neg hj₁] at h₁
      rw [if_neg hj₂] at h₂
      exact hp.distinct j₁ j₂ d₁ d₂ k h₁ h₂ hk₁ hk₂

theorem QueueInv.append (hp : QueueInv p) (h' : History) (hcounted : h'.Counted)
    (hn : p.shared.notified ≤ h'.notified) (ht : h'.taken = p.shared.taken)
    {calls : List WaitCall} (hcalls : ∀ c ∈ calls, c.number = none ∧ c.InTime h') :
    QueueInv ⟨h', p.calls ++ calls⟩ where
  counted := hcounted
  inTime := by
    intro c hc
    rcases List.mem_append.mp hc with hc | hc
    · exact (hp.inTime c hc).mono hn
    · exact (hcalls c hc).2
  lt_taken := by
    intro c hc k hk
    rcases List.mem_append.mp hc with hc | hc
    · exact (hp.lt_taken c hc k hk).trans_eq ht.symm
    · rw [(hcalls c hc).1] at hk
      cases hk
  distinct := by
    have hold : ∀ (j : ℕ) (d : WaitCall) (k : ℕ), (p.calls ++ calls)[j]? = some d →
        d.number = some k → p.calls[j]? = some d := by
      intro j d k hj hk
      by_cases hlt : j < p.calls.length
      · rwa [List.getElem?_append_left hlt] at hj
      · rw [List.getElem?_append_right (not_lt.mp hlt)] at hj
        rw [(hcalls d (List.mem_of_getElem? hj)).1] at hk
        cases hk
    intro i j c d k hi hj hk hk'
    exact hp.distinct i j c d k (hold i c k hi hk) (hold j d k hj hk') hk hk'

/-- **A step of the queue** keeps the invariant when a ticket it takes is taken in time. -/
theorem QueueInv.step (hp : QueueInv p) (hs : waitProgram.step p l = some p')
    (hl : TakenInTime p l) : QueueInv p' := by
  cases Program.step_cases hs with
  | spawn timeoutMs =>
    refine hp.append _ hp.counted (le_refl _) rfl ?_
    intro c hc
    rw [List.mem_singleton.mp hc]
    exact ⟨rfl, trivial⟩
  | env henv =>
    rename_i d h'
    have hspec : h'.Counted ∧ p.shared.notified ≤ h'.notified ∧ h'.taken = p.shared.taken := by
      cases d with
      | tick ns =>
        cases henv
        exact ⟨⟨hp.counted.next, hp.counted.serving⟩, le_refl _, rfl⟩
      | notify =>
        cases henv
        refine ⟨⟨hp.counted.next, ?_⟩, Nat.le_succ _, rfl⟩
        show (p.shared.queue.servingTicket + 1) % 2 ^ 64 = (p.shared.notified + 1) % 2 ^ 64
        rw [hp.counted.serving]
        omega
    have hadd : QueueInv ⟨h', p.calls ++ []⟩ :=
      hp.append h' hspec.1 hspec.2.1 hspec.2.2 (by intro c hc; cases hc)
    rwa [List.append_nil] at hadd
  | @call i c t t' h' hi ht =>
    obtain ⟨hnext, hserving⟩ := hp.counted
    have hmem := List.mem_of_getElem? hi
    have hin := hp.inTime t hmem
    cases waitStep_cases ht with
    | rejected hfull =>
      exact hp.set hi hp.counted (le_refl _) (le_refl _) trivial (by simp [WaitCall.number])
    | servedAtOnce hroom hserved =>
      obtain ⟨hle, -⟩ := hl ⟨i, _, rfl, hi, hroom⟩
      omega
    | @blocked timeoutMs q t hroom hle ht hq hq' =>
      obtain ⟨-, hlt⟩ := hl ⟨i, _, rfl, hi, hroom⟩
      refine hp.set hi ⟨?_, hq'.trans hserving⟩ (le_refl _) (Nat.le_succ _) ?_ ?_
      · show q.nextTicket = (p.shared.taken + 1) % 2 ^ 64
        rw [hq, hnext]
        omega
      · have hmod : p.shared.notified % 2 ^ 64 ≤ p.shared.taken := by omega
        exact ⟨by omega, hlt, le_refl _, hmod⟩
      · intro k hk
        cases hk
        exact ⟨Nat.lt_succ_self _, Or.inr (le_refl _)⟩
    | @served t number seen q hserved hq hq' =>
      obtain ⟨hnum, hlt, hseen, hmod⟩ := hin
      refine hp.set hi ⟨hq.trans hnext, hq'.trans hserving⟩ (le_refl _) (le_refl _) ?_ ?_
      · have hserving' : number < p.shared.notified % 2 ^ 64 := by omega
        exact ⟨hlt, exists_notification hserving' hmod hseen⟩
      · intro k hk
        exact ⟨hp.lt_taken _ hmem k hk, Or.inl hk⟩
    | timedOut hq hq' =>
      exact hp.set hi ⟨hq.trans hnext, hq'.trans hserving⟩ (le_refl _) (le_refl _) trivial
        (by simp [WaitCall.number])

theorem newQueue_inv (maxSize : ℤ) : QueueInv (newQueue maxSize) where
  counted := ⟨rfl, rfl⟩
  inTime := by intro c hc; cases hc
  lt_taken := by intro c hc; cases hc
  distinct := by intro i j c d k hi; cases hi

/-- The notifications of the served calls are distinct because their numbers are. -/
theorem QueueInv.matched (hp : QueueInv p) : Matched p := by
  have hex : ∀ i : ℕ, ∃ m, ∀ number seen, p.calls[i]? = some (WaitCall.served number seen) →
      m % 2 ^ 64 = number ∧ seen ≤ m ∧ m < p.shared.notified := by
    intro i
    by_cases hserved : ∃ number seen, p.calls[i]? = some (WaitCall.served number seen)
    · obtain ⟨number, seen, hi⟩ := hserved
      obtain ⟨-, m, hm⟩ := hp.inTime _ (List.mem_of_getElem? hi)
      refine ⟨m, fun number' seen' hi' => ?_⟩
      rw [hi] at hi'
      cases hi'
      exact hm
    · exact ⟨0, fun number seen hi => absurd ⟨number, seen, hi⟩ hserved⟩
  choose f hf using hex
  refine ⟨f, fun i number seen hi => (hf i number seen hi).2, ?_⟩
  rintro i j ⟨n₁, s₁, hi⟩ ⟨n₂, s₂, hj⟩ heq
  have h₁ := (hf i n₁ s₁ hi).1
  have h₂ := (hf j n₂ s₂ hj).1
  rw [heq] at h₁
  refine hp.distinct i j _ _ n₁ hi hj rfl ?_
  rw [← h₁, h₂]
  rfl

/-! ## The runs that match -/

theorem TakesTicket.step (hl : TakesTicket p l) (hs : waitProgram.step p l = some p') :
    p'.shared.taken = p.shared.taken + 1 ∧
      (p.shared.queue.nextTicket < p.shared.queue.servingTicket →
        ∃ i : ℕ, p'.calls[i]? = some (WaitCall.served p.shared.taken p.shared.notified) ∧
          p'.shared.notified = p.shared.notified) := by
  obtain ⟨i, timeoutMs, rfl, hi, hroom⟩ := hl
  cases Program.step_cases hs with
  | @call _ _ t t' h' hi' ht =>
    rw [hi] at hi'
    cases hi'
    have hcall : WaitCall.step p.shared (.entering timeoutMs) = some (h', t') := ht
    cases waitStep_cases hcall with
    | rejected hfull => omega
    | servedAtOnce _ hserved =>
      refine ⟨rfl, fun _ => ⟨i, ?_, rfl⟩⟩
      have hlt := (List.getElem?_eq_some_iff.mp hi).1
      exact List.getElem?_set_self hlt
    | blocked _ hle => exact ⟨rfl, fun hlt => by omega⟩

theorem taken_mono {fs : List WaitLabel} (hrun : Run waitProgram.step p fs p') :
    p.shared.taken ≤ p'.shared.taken := by
  induction hrun with
  | nil => exact le_refl _
  | @snoc fs l s t _ hs ih =>
    refine ih.trans ?_
    cases Program.step_cases hs with
    | spawn x => exact le_refl _
    | @env d s henv => cases d <;> cases henv <;> exact le_refl _
    | @call i c t t' h' hi ht =>
      have hcall : WaitCall.step s.shared t = some (h', t') := ht
      cases waitStep_cases hcall with
      | servedAtOnce | blocked => exact Nat.le_succ _
      | rejected | served | timedOut => exact le_refl _

/-- **Notifications are for waiters.** In a run whose tickets, no more than `2 ^ 64`, are all taken
while `serving_ticket_` is not ahead, the calls that returned true match notifications of their
own in every state. In a run with no more tickets than that the condition is exact. -/
theorem always_matched_iff (maxSize : ℤ) (es : List WaitLabel) (s : Pool History WaitCall)
    (hrun : Run waitProgram.step (newQueue maxSize) es s) :
    (EveryStep waitProgram.step (newQueue maxSize) es (fun _ p l => TakenInTime p l) →
      Always waitProgram.step (newQueue maxSize) es fun _ p => Matched p) ∧
    (s.shared.taken ≤ 2 ^ 64 →
      ((Always waitProgram.step (newQueue maxSize) es fun _ p => Matched p) ↔
        EveryStep waitProgram.step (newQueue maxSize) es fun _ p l => TakesTicket p l →
          p.shared.queue.servingTicket ≤ p.shared.queue.nextTicket)) := by
  have hsuff : EveryStep waitProgram.step (newQueue maxSize) es (fun _ p l => TakenInTime p l) →
      Always waitProgram.step (newQueue maxSize) es fun _ p => Matched p := by
    intro hin
    have hinv := always_of_everyStep (P := fun _ p => QueueInv p) hrun (newQueue_inv maxSize)
      (fun _ p l p' _ hp hl hs => hp.step hs hl) hin
    exact hinv.mono fun _ _ _ hp => hp.matched
  refine ⟨hsuff, fun htaken => ⟨?_, ?_⟩⟩
  · intro halways pre l p hpre hp hl
    obtain ⟨p', _, hs, hp', _⟩ := hrun.step_of_prefix hpre hp
    by_contra hlt
    -- the ticket is served at once, and no later notification can be its own
    obtain ⟨i, hi, hn⟩ := (hl.step hs).2 (not_le.mp hlt)
    obtain ⟨f, hf, -⟩ := halways _ _ hpre hp'
    have := hf i _ _ hi
    omega
  · intro hin
    refine hsuff fun pre l p hpre hp hl => ⟨hin pre l p hpre hp hl, ?_⟩
    obtain ⟨p', _, hs, _, hrest⟩ := hrun.step_of_prefix hpre hp
    have h₁ := (hl.step hs).1
    have h₂ := taken_mono hrest
    omega

/-- A call waits, and a notification serves it. -/
theorem always_matched_iff_waiter :
    let es : List WaitLabel := [.spawn 30000, .call 0 (), .env .notify, .call 0 ()]
    ∃ s, Run waitProgram.step (newQueue 100) es s ∧ s.calls = [.served 0 0] ∧
      Always waitProgram.step (newQueue 100) es fun _ p => Matched p := by
  intro es
  have hrun : Run waitProgram.step (newQueue 100) es _ := run_get (by decide)
  refine ⟨_, hrun, by decide, ((always_matched_iff 100 es _ hrun).2 (by decide)).mpr ?_⟩
  refine (everyStep_cons rfl).mpr ⟨fun _ => by decide, ?_⟩
  refine (everyStep_cons rfl).mpr ⟨fun _ => by decide, ?_⟩
  refine (everyStep_cons rfl).mpr ⟨?_, ?_⟩
  · rintro ⟨i, timeoutMs, hl, -⟩
    cases hl
  refine (everyStep_cons rfl).mpr ⟨?_, everyStep_nil⟩
  rintro ⟨i, timeoutMs, hl, hi, -⟩
  cases hl
  cases hi

/-- A request ends while nobody waits. The next call takes its ticket and returns true at once,
and no notification comes after the ticket. -/
theorem not_matched_idle :
    let es : List WaitLabel := [.env .notify, .spawn 30000, .call 0 ()]
    ∃ s, Run waitProgram.step (newQueue 100) es s ∧ s.calls = [.served 0 1] ∧
      s.shared.notified = 1 ∧ ¬ Matched s := by
  intro es
  have hrun : Run waitProgram.step (newQueue 100) es _ := run_get (by decide)
  refine ⟨_, hrun, by decide, by decide, ?_⟩
  rintro ⟨f, hf, -⟩
  obtain ⟨hle, hlt⟩ := hf 0 0 1 (by decide)
  exact absurd hlt (not_lt.mpr hle)

end LlmGateway.Gateway
