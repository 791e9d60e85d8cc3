import LlmGateway.Gateway.RequestQueue

/-!
# Notifications and the calls that gave up

A call that times out takes its ticket with it, and `serving_ticket_` still has to pass that ticket.
`Took` is the history of the tickets: which call took which. By `TicketInv` the tickets of a run are
taken in order, one call each, and a call keeps its own until it gives up.

`notify_releases_iff` says which notifications release the call that has waited longest: those that
find the ticket `serving_ticket_` with a call that has not returned.
-/

namespace LlmGateway.Gateway

open Transition

/-- The call `i` is blocked with the ticket `number`, and not yet released. -/
def Unreleased (p : Pool History WaitCall) (i number : ℕ) : Prop :=
  ∃ t seen, p.calls[i]? = some (.waiting t number seen) ∧
    p.shared.queue.servingTicket ≤ t.number

/-- Of the calls that are blocked and not yet released, `i` has waited longest. -/
def LongestWaiting (p : Pool History WaitCall) (i number : ℕ) : Prop :=
  Unreleased p i number ∧ ∀ j other, Unreleased p j other → number ≤ other

/-- The step from `p` to `p'` releases the call that has waited longest. -/
def ReleasesLongest (p p' : Pool History WaitCall) : Prop :=
  ∃ i number, LongestWaiting p i number ∧ ¬ Unreleased p' i number

/-- In the run `es` the call `i` took the ticket `number`. Tickets are numbered in the order they
are taken. -/
def Took (maxSize : ℤ) (es : List WaitLabel) (i number : ℕ) : Prop :=
  ∃ pre p c, pre <+: es ∧ Run waitProgram.step (newQueue maxSize) pre p ∧
    p.calls[i]? = some c ∧ c.number = some number

/-- The ticket `serving_ticket_` is one of a call that has returned. Where the counters have gone
round, it is the ticket of that number in the pass of the longest waiter. -/
def ServesReturned (maxSize : ℤ) (es : List WaitLabel) (p : Pool History WaitCall) : Prop :=
  ∃ i number j longest, Took maxSize es i number ∧
    (∀ t n seen, p.calls[i]? ≠ some (.waiting t n seen)) ∧ LongestWaiting p j longest ∧
    number % 2 ^ 64 = p.shared.queue.servingTicket ∧ number / 2 ^ 64 = longest / 2 ^ 64

/-- The ticket `serving_ticket_` is one of a call that has given up. -/
def ServesGivenUp (maxSize : ℤ) (es : List WaitLabel) (p : Pool History WaitCall) : Prop :=
  ∃ i number, Took maxSize es i number ∧ p.calls[i]? = some .gaveUp ∧
    number = p.shared.queue.servingTicket

variable {maxSize : ℤ} {es : List WaitLabel} {p p' : Pool History WaitCall} {l : WaitLabel}
  {h h' : History} {c c' : WaitCall}

/-! ## The history of the tickets -/

theorem Took.snoc {i number : ℕ} (ht : Took maxSize es i number) :
    Took maxSize (es ++ [l]) i number := by
  obtain ⟨pre, p, c, hpre, hrest⟩ := ht
  exact ⟨pre, p, c, hpre.trans (List.prefix_append _ _), hrest⟩

theorem took_snoc (hrun : Run waitProgram.step (newQueue maxSize) (es ++ [l]) p') {i number : ℕ}
    (ht : Took maxSize (es ++ [l]) i number) :
    Took maxSize es i number ∨ ∃ c, p'.calls[i]? = some c ∧ c.number = some number := by
  obtain ⟨pre, p, c, hpre, hp, hi, hc⟩ := ht
  rcases List.prefix_concat_iff.mp hpre with rfl | hpre
  · obtain rfl := hp.deterministic hrun
    exact Or.inr ⟨c, hi, hc⟩
  · exact Or.inl ⟨pre, p, c, hpre, hp, hi, hc⟩

theorem took_now (hrun : Run waitProgram.step (newQueue maxSize) es p) {i number : ℕ}
    (hi : p.calls[i]? = some c) (hc : c.number = some number) : Took maxSize es i number :=
  ⟨es, p, c, List.prefix_refl _, hrun, hi, hc⟩

/-- What a call knows of its ticket. -/
def WaitCall.TicketOk (h : History) : WaitCall → Prop
  | .waiting t number _ => t.number = number % 2 ^ 64
  | .served number _ => h.notified < 2 ^ 64 → number % 2 ^ 64 < h.notified
  | _ => True

/-- The tickets of a run are taken in order, each by one call, which has it until it gives up. -/
structure TicketInv (maxSize : ℤ) (es : List WaitLabel) (p : Pool History WaitCall) : Prop where
  counted : p.shared.Counted
  ticket : ∀ c ∈ p.calls, c.TicketOk p.shared
  taken : ∀ number < p.shared.taken, ∃ i, Took maxSize es i number
  kept : ∀ i number, Took maxSize es i number → number < p.shared.taken ∧
    ∃ c, p.calls[i]? = some c ∧ (c = .gaveUp ∨ c.number = some number)
  unique : ∀ i j number, Took maxSize es i number → Took maxSize es j number → i = j

theorem WaitCall.TicketOk.mono (hc : c.TicketOk h) (hn : h.notified ≤ h'.notified) :
    c.TicketOk h' := by
  cases c with
  | waiting t number seen => exact hc
  | served number seen =>
    intro hlt
    have := hc (hn.trans_lt hlt)
    omega
  | _ => trivial

/-- A call keeps its ticket, if it has one, until it gives up, and it gives up for good. -/
def WaitCall.Keeps (c c' : WaitCall) : Prop :=
  c' = .gaveUp ∨ c ≠ .gaveUp ∧ ∀ k, c.number = some k → c'.number = some k

theorem WaitCall.Keeps.refl (c : WaitCall) : c.Keeps c := by
  by_cases hc : c = .gaveUp
  · exact Or.inl hc
  · exact Or.inr ⟨hc, fun _ hk => hk⟩

/-- **What a step does to the tickets of the calls**: no call gets a new one, or one call that has
none takes the next one. -/
theorem ticket_step (hs : waitProgram.step p l = some p') :
    (∀ (i : ℕ) (c : WaitCall), p.calls[i]? = some c →
      ∃ c', p'.calls[i]? = some c' ∧ c.Keeps c') ∧
    ((p'.shared.taken = p.shared.taken ∧
        ∀ (i : ℕ) (c' : WaitCall) (k : ℕ), p'.calls[i]? = some c' → c'.number = some k →
          ∃ c, p.calls[i]? = some c ∧ c.number = some k) ∨
      (p'.shared.taken = p.shared.taken + 1 ∧ ∃ (i : ℕ) (c' : WaitCall),
        p'.calls[i]? = some c' ∧ c'.number = some p.shared.taken ∧
        ∀ (j : ℕ) (d : WaitCall) (k : ℕ), p'.calls[j]? = some d → d.number = some k →
          j = i ∧ k = p.shared.taken ∨ ∃ c, p.calls[j]? = some c ∧ c.number = some k)) := by
  cases Program.step_cases hs with
  | spawn timeoutMs =>
    refine ⟨fun i c hi => ⟨c, ?_, .refl c⟩, Or.inl ⟨rfl, ?_⟩⟩
    · have hlt := (List.getElem?_eq_some_iff.mp hi).1
      show (p.calls ++ _)[i]? = some c
      rw [List.getElem?_append_left hlt, hi]
    · intro i c' k hi hk
      rcases lt_or_ge i p.calls.length with hlt | hge
      · exact ⟨c', (List.getElem?_append_left hlt).symm.trans hi, hk⟩
      · -- the new call has no ticket
        have hi' : (p.calls ++ [WaitCall.entering timeoutMs])[i]? = some c' := hi
        rw [List.getElem?_append_right hge, List.getElem?_singleton] at hi'
        split_ifs at hi'
        cases hi'
        cases hk
  | env henv =>
    rename_i d s
    have htaken : s.taken = p.shared.taken := by cases d <;> cases henv <;> rfl
    exact ⟨fun i c hi => ⟨c, hi, .refl c⟩,
      Or.inl ⟨htaken, fun i c' k hi hk => ⟨c', hi, hk⟩⟩⟩
  | @call i _ t t' s hi ht =>
    have hcall : WaitCall.step p.shared t = some (s, t') := ht
    have hafter : ∀ j : ℕ, (p.calls.set i t')[j]? = if j = i then some t' else p.calls[j]? :=
      fun j => Program.getElem?_set hi
    have hself : (p.calls.set i t')[i]? = some t' := (hafter i).trans (if_pos rfl)
    have hkept : t.Keeps t' →
        ∀ (j : ℕ) (c : WaitCall), p.calls[j]? = some c →
          ∃ c', (p.calls.set i t')[j]? = some c' ∧ c.Keeps c' := by
      intro ht j c hj
      by_cases hji : j = i
      · subst hji
        rw [hi] at hj
        cases hj
        exact ⟨t', hself, ht⟩
      · exact ⟨c, ((hafter j).trans (if_neg hji)).trans hj, .refl c⟩
    have hold : (∀ k, t'.number = some k → t.number = some k) →
        ∀ (j : ℕ) (c' : WaitCall) (k : ℕ), (p.calls.set i t')[j]? = some c' → c'.number = some k →
          ∃ c, p.calls[j]? = some c ∧ c.number = some k := by
      intro ht j c' k hj hk
      rw [hafter] at hj
      split_ifs at hj with hji
      · cases hj
        exact ⟨t, hji ▸ hi, ht k hk⟩
      · exact ⟨c', hj, hk⟩
    have hnew : t'.number = some p.shared.taken →
        ∀ (j : ℕ) (d : WaitCall) (k : ℕ), (p.calls.set i t')[j]? = some d → d.number = some k →
          j = i ∧ k = p.shared.taken ∨ ∃ c, p.calls[j]? = some c ∧ c.number = some k := by
      intro ht j d k hj hk
      rw [hafter] at hj
      split_ifs at hj with hji
      · cases hj
        rw [ht] at hk
        cases hk
        exact Or.inl ⟨hji, rfl⟩
      · exact Or.inr ⟨d, hj, hk⟩
    cases waitStep_cases hcall with
    | rejected =>
      exact ⟨hkept (Or.inl rfl), Or.inl ⟨rfl, hold fun k hk => by cases hk⟩⟩
    | servedAtOnce | blocked =>
      exact ⟨hkept (Or.inr ⟨by simp, fun k hk => by cases hk⟩),
        Or.inr ⟨rfl, i, _, hself, rfl, hnew rfl⟩⟩
    | served =>
      exact ⟨hkept (Or.inr ⟨by simp, fun k hk => hk⟩), Or.inl ⟨rfl, hold fun k hk => hk⟩⟩
    | timedOut => exact ⟨hkept (Or.inl rfl), Or.inl ⟨rfl, hold fun k hk => by cases hk⟩⟩

theorem ticketOk_step (hcounted : p.shared.Counted) (hok : ∀ c ∈ p.calls, c.TicketOk p.shared)
    (hs : waitProgram.step p l = some p') :
    p'.shared.Counted ∧ ∀ c ∈ p'.calls, c.TicketOk p'.shared := by
  obtain ⟨hnext, hserving⟩ := hcounted
  cases Program.step_cases hs with
  | spawn timeoutMs =>
    refine ⟨⟨hnext, hserving⟩, ?_⟩
    intro c hc
    rcases List.mem_append.mp hc with hc | hc
    · exact hok c hc
    · rw [List.mem_singleton.mp hc]
      trivial
  | env henv =>
    rename_i d s
    cases d with
    | tick ns =>
      cases henv
      exact ⟨⟨hnext, hserving⟩, fun c hc => (hok c hc).mono (le_refl _)⟩
    | notify =>
      cases henv
      refine ⟨⟨hnext, ?_⟩, fun c hc => (hok c hc).mono (Nat.le_succ _)⟩
      show (p.shared.queue.servingTicket + 1) % 2 ^ 64 = (p.shared.notified + 1) % 2 ^ 64
      rw [hserving]
      omega
  | @call i _ t t' s hi ht =>
    have hcall : WaitCall.step p.shared t = some (s, t') := ht
    have hin := hok t (List.mem_of_getElem? hi)
    -- it is enough to look at the call that takes the step
    suffices hnew : s.Counted ∧ s.notified = p.shared.notified ∧ t'.TicketOk s by
      refine ⟨hnew.1, ?_⟩
      intro c hc
      rcases List.mem_or_eq_of_mem_set hc with hc | rfl
      · exact (hok c hc).mono hnew.2.1.ge
      · exact hnew.2.2
    cases waitStep_cases hcall with
    | rejected => exact ⟨⟨hnext, hserving⟩, rfl, trivial⟩
    | @servedAtOnce _ q _ hserved hq hq' =>
      refine ⟨⟨?_, hq'.trans hserving⟩, rfl, ?_⟩
      · show q.nextTicket = (p.shared.taken + 1) % 2 ^ 64
        omega
      · intro hlt
        show p.shared.taken % 2 ^ 64 < p.shared.notified
        have hlt' : p.shared.notified < 2 ^ 64 := hlt
        omega
    | @blocked _ q t _ _ hnum hq hq' =>
      refine ⟨⟨?_, hq'.trans hserving⟩, rfl, hnum.trans hnext⟩
      show q.nextTicket = (p.shared.taken + 1) % 2 ^ 64
      omega
    | @served t number seen q hserved hq hq' =>
      refine ⟨⟨hq.trans hnext, hq'.trans hserving⟩, rfl, ?_⟩
      intro hlt
      show number % 2 ^ 64 < p.shared.notified
      have hnum : t.number = number % 2 ^ 64 := hin
      have hlt' : p.shared.notified < 2 ^ 64 := hlt
      omega
    | timedOut hq hq' => exact ⟨⟨hq.trans hnext, hq'.trans hserving⟩, rfl, trivial⟩

theorem ticketInv_new : TicketInv maxSize [] (newQueue maxSize) := by
  have hnone : ∀ i number, ¬ Took maxSize [] i number := by
    rintro i number ⟨pre, p, c, hpre, hp, hi, -⟩
    obtain rfl := List.prefix_nil.mp hpre
    obtain rfl := Run.deterministic .nil hp
    cases hi
  refine ⟨⟨rfl, rfl⟩, ?_, ?_, fun i k ht => absurd ht (hnone i k),
    fun i j k ht => absurd ht (hnone i k)⟩
  · intro c hc
    cases hc
  · intro k hk
    exact absurd hk (Nat.not_lt_zero k)

theorem ticketInv (hrun : Run waitProgram.step (newQueue maxSize) es p) :
    TicketInv maxSize es p := by
  induction hrun with
  | nil => exact ticketInv_new
  | @snoc es l p p' hrun hs ih =>
    have hrun' := hrun.snoc hs
    obtain ⟨hcounted, hok⟩ := ticketOk_step ih.counted ih.ticket hs
    obtain ⟨hkeep, hnew⟩ := ticket_step hs
    have hkept : ∀ i number, Took maxSize es i number →
        ∃ c, p'.calls[i]? = some c ∧ (c = .gaveUp ∨ c.number = some number) := by
      intro i number ht
      obtain ⟨-, c, hi, hc⟩ := ih.kept i number ht
      obtain ⟨c', hi', hc'⟩ := hkeep i c hi
      refine ⟨c', hi', ?_⟩
      rcases hc' with hgave | ⟨hne, hsame⟩
      · exact Or.inl hgave
      · exact Or.inr (hsame _ (hc.resolve_left hne))
    rcases hnew with ⟨htaken, hold⟩ | ⟨htaken, i₀, c₀, hi₀, hc₀, hnew⟩
    · -- no ticket was taken
      have hback : ∀ i k, Took maxSize (es ++ [l]) i k → Took maxSize es i k := by
        intro i k ht
        rcases took_snoc hrun' ht with ht | ⟨c, hi, hc⟩
        · exact ht
        · obtain ⟨d, hd, hk⟩ := hold i c k hi hc
          exact took_now hrun hd hk
      refine ⟨hcounted, hok, ?_, ?_, ?_⟩
      · intro k hk
        obtain ⟨i, ht⟩ := ih.taken k (htaken ▸ hk)
        exact ⟨i, ht.snoc⟩
      · intro i k ht
        exact ⟨htaken ▸ (ih.kept i k (hback i k ht)).1, hkept i k (hback i k ht)⟩
      · intro i j k hi hj
        exact ih.unique i j k (hback i k hi) (hback j k hj)
    · -- the call `i₀` took the ticket `taken`
      have hback : ∀ i k, Took maxSize (es ++ [l]) i k →
          Took maxSize es i k ∨ i = i₀ ∧ k = p.shared.taken := by
        intro i k ht
        rcases took_snoc hrun' ht with ht | ⟨c, hi, hc⟩
        · exact Or.inl ht
        · rcases hnew i c k hi hc with heq | ⟨d, hd, hk⟩
          · exact Or.inr heq
          · exact Or.inl (took_now hrun hd hk)
      have hlt : ∀ i k, Took maxSize es i k → k < p.shared.taken := fun i k ht =>
        (ih.kept i k ht).1
      refine ⟨hcounted, hok, ?_, ?_, ?_⟩
      · intro k hk
        rw [htaken] at hk
        rcases Nat.lt_succ_iff_lt_or_eq.mp hk with hk | hk
        · obtain ⟨i, ht⟩ := ih.taken k hk
          exact ⟨i, ht.snoc⟩
        · exact ⟨i₀, took_now hrun' hi₀ (hk ▸ hc₀)⟩
      · intro i k ht
        rw [htaken]
        rcases hback i k ht with ht | ⟨rfl, rfl⟩
        · exact ⟨(hlt i k ht).trans (Nat.lt_succ_self _), hkept i k ht⟩
        · exact ⟨Nat.lt_succ_self _, c₀, hi₀, Or.inr hc₀⟩
      · intro i j k hi hj
        rcases hback i k hi with hi | ⟨hi, hk⟩
        · rcases hback j k hj with hj | ⟨-, hk⟩
          · exact ih.unique i j k hi hj
          · exact absurd (hlt i k hi) (by omega)
        · rcases hback j k hj with hj | ⟨hj, -⟩
          · exact absurd (hlt j k hj) (by omega)
          · exact hi.trans hj.symm

/-! ## Which notifications release a waiter -/

theorem Unreleased.took (hrun : Run waitProgram.step (newQueue maxSize) es p) {i number : ℕ}
    (hi : Unreleased p i number) : Took maxSize es i number := by
  obtain ⟨t, seen, hi, -⟩ := hi
  exact took_now hrun hi rfl

/-- A blocked call that is not released has its ticket number from `serving_ticket_` on. -/
theorem Unreleased.serving_le (hrun : Run waitProgram.step (newQueue maxSize) es p) {i number : ℕ}
    (hi : Unreleased p i number) : p.shared.queue.servingTicket ≤ number % 2 ^ 64 := by
  obtain ⟨t, seen, hi, hle⟩ := hi
  have hnum : t.number = number % 2 ^ 64 := (ticketInv hrun).ticket _ (List.mem_of_getElem? hi)
  exact hle.trans_eq hnum

theorem exists_longestWaiting (hwait : ∃ i number, Unreleased p i number) :
    ∃ i number, LongestWaiting p i number := by
  have hex : ∃ number i, Unreleased p i number := by
    obtain ⟨i, number, hi⟩ := hwait
    exact ⟨number, i, hi⟩
  classical
  obtain ⟨i, hi⟩ := Nat.find_spec hex
  exact ⟨i, Nat.find hex, hi, fun j other hj => Nat.find_min' hex ⟨j, hj⟩⟩

/-- A notification releases a blocked call exactly when the ticket of the call is
`serving_ticket_`, and the counter does not go round. -/
theorem notify_releases (hrun : Run waitProgram.step (newQueue maxSize) es p)
    (hs : waitProgram.step p (.env .notify) = some p') {i number : ℕ} (hi : Unreleased p i number) :
    ¬ Unreleased p' i number ↔ number % 2 ^ 64 = p.shared.queue.servingTicket ∧
      p.shared.queue.servingTicket + 1 < 2 ^ 64 := by
  cases hs
  have hle := hi.serving_le hrun
  obtain ⟨t, seen, hi, hle'⟩ := hi
  have hnum : t.number = number % 2 ^ 64 := (ticketInv hrun).ticket _ (List.mem_of_getElem? hi)
  have hiff : Unreleased ⟨{ p.shared with
      queue := p.shared.queue.notifyCapacityAvailable, notified := p.shared.notified + 1 }, p.calls⟩
      i number ↔ (p.shared.queue.servingTicket + 1) % 2 ^ 64 ≤ t.number := by
    constructor
    · rintro ⟨t', seen', hi', hle'⟩
      have heq : some (WaitCall.waiting t' number seen') = some (.waiting t number seen) :=
        hi'.symm.trans hi
      cases heq
      exact hle'
    · intro hle'
      exact ⟨t, seen, hi, hle'⟩
  show ¬ Unreleased ⟨_, p.calls⟩ i number ↔ _
  rw [hiff, hnum]
  have hlt : p.shared.queue.servingTicket < 2 ^ 64 := by omega
  omega

theorem LongestWaiting.number_eq {i j number longest : ℕ} (hi : LongestWaiting p i number)
    (hj : LongestWaiting p j longest) : number = longest :=
  le_antisymm (hi.2 j longest hj.1) (hj.2 i number hi.1)

/-- What releases the longest waiter, for counters that may have gone round. -/
theorem releasesLongest_iff (hrun : Run waitProgram.step (newQueue maxSize) es p)
    (hwait : ∃ i number, Unreleased p i number)
    (hs : waitProgram.step p (.env .notify) = some p') :
    ReleasesLongest p p' ↔
      p.shared.queue.servingTicket + 1 < 2 ^ 64 ∧ ¬ ServesReturned maxSize es p := by
  have hinv := ticketInv hrun
  constructor
  · rintro ⟨i, number, hlong, hrel⟩
    obtain ⟨hmod, hlt⟩ := (notify_releases hrun hs hlong.1).mp hrel
    refine ⟨hlt, ?_⟩
    rintro ⟨i', m, j, longest, htook, hreturned, hj, hm, hdiv⟩
    have heq : m = number := by
      have := hlong.number_eq hj
      omega
    subst heq
    obtain rfl := hinv.unique i' i m htook (hlong.1.took hrun)
    obtain ⟨t, seen, hi, -⟩ := hlong.1
    exact hreturned t m seen hi
  · rintro ⟨hlt, hnone⟩
    obtain ⟨i, number, hlong⟩ := exists_longestWaiting hwait
    have hle := hlong.1.serving_le hrun
    have htaken := (hinv.kept i number (hlong.1.took hrun)).1
    -- the ticket `serving_ticket_` of the same pass, and the call that took it
    obtain ⟨m, hm⟩ : ∃ m, m = 2 ^ 64 * (number / 2 ^ 64) + p.shared.queue.servingTicket := ⟨_, rfl⟩
    obtain ⟨i', htook⟩ := hinv.taken m (by omega)
    have hwaits : ∃ t n seen, p.calls[i']? = some (.waiting t n seen) := by
      by_contra hreturned
      refine hnone ⟨i', m, i, number, htook, ?_, hlong, by omega, by omega⟩
      intro t n seen hi'
      exact hreturned ⟨t, n, seen, hi'⟩
    obtain ⟨t, n, seen, hi'⟩ := hwaits
    have hn : n = m := by
      obtain ⟨-, c, hc, hgave⟩ := hinv.kept i' m htook
      rw [hi'] at hc
      cases hc
      rcases hgave with hgave | hnum
      · cases hgave
      · cases hnum
        rfl
    subst hn
    have hnum : t.number = n % 2 ^ 64 := hinv.ticket _ (List.mem_of_getElem? hi')
    have hmin := hlong.2 i' n ⟨t, seen, hi', by omega⟩
    exact ⟨i, number, hlong, (notify_releases hrun hs hlong.1).mpr ⟨by omega, hlt⟩⟩

/-- Before the counters go round, a call that has returned with the ticket `serving_ticket_` has
given up: a served one has a ticket below it. -/
theorem servesReturned_iff (hrun : Run waitProgram.step (newQueue maxSize) es p)
    (hwait : ∃ i number, Unreleased p i number) (hnotified : p.shared.notified < 2 ^ 64)
    (htaken : p.shared.taken ≤ 2 ^ 64) :
    ServesReturned maxSize es p ↔ ServesGivenUp maxSize es p := by
  have hinv := ticketInv hrun
  have hserving := hinv.counted.serving
  constructor
  · rintro ⟨i, number, -, -, htook, hreturned, -, hmod, -⟩
    obtain ⟨hlt, c, hc, hkept⟩ := hinv.kept i number htook
    refine ⟨i, number, htook, ?_, by omega⟩
    rcases hkept with rfl | hnum
    · exact hc
    · cases c with
      | waiting t n seen => exact absurd hc (hreturned t n seen)
      | served n seen =>
        cases hnum
        have hok : number % 2 ^ 64 < p.shared.notified :=
          hinv.ticket _ (List.mem_of_getElem? hc) hnotified
        omega
      | entering | gaveUp => cases hnum
  · rintro ⟨i, number, htook, hgave, hnum⟩
    obtain ⟨j, longest, hlong⟩ := exists_longestWaiting hwait
    have hlt := (hinv.kept i number htook).1
    have hlt' := (hinv.kept j longest (hlong.1.took hrun)).1
    refine ⟨i, number, j, longest, htook, ?_, hlong, by omega, by omega⟩
    intro t n seen hi
    rw [hgave] at hi
    cases hi

/-- **Notifications and waiters.** While a call is blocked and not yet released, a notification
releases the one that has waited longest exactly when the counter does not go round and its ticket
is not that of a call that has returned. While there have been fewer notifications than `2 ^ 64 - 1`
and no more tickets than `2 ^ 64`, such a call is one that has given up. -/
theorem notify_releases_iff (maxSize : ℤ) (es : List WaitLabel) (p p' : Pool History WaitCall)
    (hrun : Run waitProgram.step (newQueue maxSize) es p)
    (hwait : ∃ i number, Unreleased p i number)
    (hs : waitProgram.step p (.env .notify) = some p') :
    (ReleasesLongest p p' ↔
      p.shared.queue.servingTicket + 1 < 2 ^ 64 ∧ ¬ ServesReturned maxSize es p) ∧
    (p.shared.notified + 1 < 2 ^ 64 → p.shared.taken ≤ 2 ^ 64 →
      (ReleasesLongest p p' ↔ ¬ ServesGivenUp maxSize es p)) := by
  have hiff := releasesLongest_iff hrun hwait hs
  refine ⟨hiff, fun hnotified htaken => ?_⟩
  have hserving : p.shared.queue.servingTicket = p.shared.notified % 2 ^ 64 :=
    (ticketInv hrun).counted.serving
  have hlt : p.shared.queue.servingTicket + 1 < 2 ^ 64 := by omega
  rw [hiff, servesReturned_iff hrun hwait (by omega) htaken]
  exact and_iff_right hlt

/-- Two calls wait, and the first is released. -/
theorem notify_releases_iff_two :
    let es : List WaitLabel := [.spawn 30000, .call 0 (), .spawn 30000, .call 1 ()]
    ∃ p p', Run waitProgram.step (newQueue 100) es p ∧
      waitProgram.step p (.env .notify) = some p' ∧ ReleasesLongest p p' ∧
      ¬ ServesGivenUp 100 es p := by
  intro es
  have hrun : Run waitProgram.step (newQueue 100) es _ := run_get (by decide)
  have hwait : Unreleased ((exec waitProgram.step (newQueue 100) es).get (by decide)) 0 0 :=
    ⟨⟨0, 30000000000⟩, 0, by decide, by decide⟩
  have hiff := (notify_releases_iff 100 es _ _ hrun ⟨0, 0, hwait⟩ rfl).2 (by decide) (by decide)
  have hlong : ReleasesLongest ((exec waitProgram.step (newQueue 100) es).get (by decide)) _ :=
    ⟨0, 0, ⟨hwait, fun _ _ _ => Nat.zero_le _⟩,
      (notify_releases hrun rfl hwait).mpr (by decide)⟩
  exact ⟨_, _, hrun, rfl, hlong, hiff.mp hlong⟩

/-- A call times out behind which another one waits. The notification that comes then is spent on
the ticket of the first, and releases nobody. -/
theorem notify_spent_on_gaveUp :
    let es : List WaitLabel := [.spawn 1, .call 0 (), .spawn 30000, .call 1 (),
      .env (.tick 1000000), .call 0 ()]
    ∃ p p', Run waitProgram.step (newQueue 100) es p ∧
      waitProgram.step p (.env .notify) = some p' ∧ p.calls[0]? = some .gaveUp ∧
      Unreleased p 1 1 ∧ Unreleased p' 1 1 ∧ ¬ ReleasesLongest p p' := by
  intro es
  have hrun : Run waitProgram.step (newQueue 100) es _ := run_get (by decide)
  have hwait : Unreleased ((exec waitProgram.step (newQueue 100) es).get (by decide)) 1 1 :=
    ⟨⟨1, 30000000000⟩, 0, by decide, by decide⟩
  refine ⟨_, _, hrun, rfl, by decide, hwait, ⟨⟨1, 30000000000⟩, 0, by decide, by decide⟩, ?_⟩
  have hcalls : ((exec waitProgram.step (newQueue 100) es).get (by decide)).calls =
      [.gaveUp, .waiting ⟨1, 30000000000⟩ 1 0] := by decide
  rintro ⟨i, number, ⟨hi, -⟩, hrel⟩
  -- the ticket served is 0, and the only call that waits has the ticket 1
  have hserved : number % 2 ^ 64 = 0 := ((notify_releases hrun rfl hi).mp hrel).1
  obtain ⟨t, seen, hi, -⟩ := hi
  rw [hcalls] at hi
  rcases i with _ | _ | i <;> cases hi
  omega

end LlmGateway.Gateway
