import LlmGateway.Lib.Transition
import Mathlib.Algebra.GroupWithZero.Nat
import Mathlib.Data.List.Basic

/-!
# Concurrent calls on a shared object

A program has calls that run concurrently on one shared object. A call is a value of a type of
frames (a program counter with its local variables); one step of a call reads and changes the
shared object and its own frame, and nothing else. The environment may change the shared object
between the steps. Any number of calls may be started at any time.

`Program.step` is the machine of all interleavings. `step_cases` says what one step does, and
`invariant` is the rule for invariants made of a part about the shared object and a part about each
call: a step has to keep the part of the call that takes it, and those of all the other calls.
`history_invariant` is the rule for what a call has put out in its steps so far.
-/

/-- A program: how a call starts, what a step of a call does under a choice, and what the
environment does. -/
structure Program (σ τ ν ε δ : Type*) where
  start : ν → τ
  call : σ → τ → ε → Option (σ × τ)
  env : σ → δ → Option σ

/-- The shared object and the frames of all calls, in the order they were started. -/
structure Pool (σ τ : Type*) where
  shared : σ
  calls : List τ := []
  deriving DecidableEq

namespace Program

/-- A step: a new call, a step of a call under a choice, or one of the environment. -/
inductive Label (ν ε δ : Type*)
  | spawn (x : ν)
  | call (i : ℕ) (c : ε)
  | env (d : δ)
  deriving DecidableEq

variable {σ τ ν ε δ : Type*} (P : Program σ τ ν ε δ)

def step (p : Pool σ τ) : Label ν ε δ → Option (Pool σ τ)
  | .spawn x => some ⟨p.shared, p.calls ++ [P.start x]⟩
  | .call i c => p.calls[i]?.bind fun t =>
      (P.call p.shared t c).map fun r => ⟨r.1, p.calls.set i r.2⟩
  | .env d => (P.env p.shared d).map fun s => ⟨s, p.calls⟩

variable {P} {p p' : Pool σ τ} {l : Label ν ε δ}

/-- The kinds of step. -/
inductive StepCases (P : Program σ τ ν ε δ) (p : Pool σ τ) : Label ν ε δ → Pool σ τ → Prop
  | spawn (x : ν) : StepCases P p (.spawn x) ⟨p.shared, p.calls ++ [P.start x]⟩
  | call {i : ℕ} {c : ε} {t t' : τ} {s : σ} (hi : p.calls[i]? = some t)
      (ht : P.call p.shared t c = some (s, t')) :
      StepCases P p (.call i c) ⟨s, p.calls.set i t'⟩
  | env {d : δ} {s : σ} (hs : P.env p.shared d = some s) : StepCases P p (.env d) ⟨s, p.calls⟩

theorem step_cases (h : P.step p l = some p') : StepCases P p l p' := by
  cases l with
  | spawn x =>
    cases h
    exact .spawn x
  | call i c =>
    obtain ⟨t, hi, h⟩ := Option.bind_eq_some_iff.mp h
    obtain ⟨⟨s, t'⟩, ht, rfl⟩ := Option.map_eq_some_iff.mp h
    exact .call hi ht
  | env d =>
    obtain ⟨s, hs, rfl⟩ := Option.map_eq_some_iff.mp h
    exact .env hs

theorem step_call {i : ℕ} {c : ε} {t t' : τ} {s : σ} (hi : p.calls[i]? = some t)
    (ht : P.call p.shared t c = some (s, t')) :
    P.step p (.call i c) = some ⟨s, p.calls.set i t'⟩ := by
  show (p.calls[i]?.bind _) = _
  rw [hi, Option.bind_some, ht]
  rfl

/-! ## Invariants -/

/-- `I` holds of the shared object and `Q` of every call with it. -/
structure Holds (I : σ → Prop) (Q : σ → τ → Prop) (p : Pool σ τ) : Prop where
  shared : I p.shared
  calls : ∀ t ∈ p.calls, Q p.shared t

/-- What an invariant in two parts has to be kept by. -/
structure Preserves (P : Program σ τ ν ε δ) (I : σ → Prop) (Q : σ → τ → Prop) : Prop where
  start : ∀ s x, I s → Q s (P.start x)
  call : ∀ s t c s' t', I s → Q s t → P.call s t c = some (s', t') → I s' ∧ Q s' t'
  others : ∀ s t c s' t', I s → Q s t → P.call s t c = some (s', t') → ∀ u, Q s u → Q s' u
  env : ∀ s d s', I s → P.env s d = some s' → I s' ∧ ∀ u, Q s u → Q s' u

variable {I : σ → Prop} {Q : σ → τ → Prop}

theorem Preserves.step (hP : Preserves P I Q) (h : Holds I Q p) (hs : P.step p l = some p') :
    Holds I Q p' := by
  cases step_cases hs with
  | spawn x =>
    refine ⟨h.shared, ?_⟩
    intro t ht
    rcases List.mem_append.mp ht with ht | ht
    · exact h.calls t ht
    · rw [List.mem_singleton.mp ht]
      exact hP.start _ x h.shared
  | call hi ht =>
    have hmem := List.mem_of_getElem? hi
    obtain ⟨hI, hQ⟩ := hP.call _ _ _ _ _ h.shared (h.calls _ hmem) ht
    refine ⟨hI, ?_⟩
    intro u hu
    rcases List.mem_or_eq_of_mem_set hu with hu | rfl
    · exact hP.others _ _ _ _ _ h.shared (h.calls _ hmem) ht u (h.calls u hu)
    · exact hQ
  | env henv =>
    obtain ⟨hI, hQ⟩ := hP.env _ _ _ h.shared henv
    exact ⟨hI, fun u hu => hQ u (h.calls u hu)⟩

/-- **Invariants in two parts** hold in every reachable state. -/
theorem Preserves.invariant (hP : Preserves P I Q) {s : σ} {es : List (Label ν ε δ)} (hI : I s)
    (hrun : Transition.Run P.step ⟨s, []⟩ es p) : Holds I Q p :=
  hrun.invariant ⟨hI, by simp⟩ fun _ _ _ h hs => hP.step h hs

/-! ## The history of a call -/

section

variable {ω : Type*} (out : σ → τ → ε → List ω)

/-- What the call `i` puts out in a step. -/
def outputOf (i : ℕ) (p : Pool σ τ) : Label ν ε δ → List ω
  | .spawn _ => []
  | .call j c => if j = i then p.calls[i]?.elim [] fun t => out p.shared t c else []
  | .env _ => []

/-- What the call `i` has put out in a run. -/
def history (P : Program σ τ ν ε δ) (s₀ : σ) (i : ℕ) (es : List (Label ν ε δ)) : List ω :=
  Transition.trace P.step (outputOf out i) ⟨s₀, []⟩ es

variable {out} {s₀ : σ} {es : List (Label ν ε δ)}

theorem history_snoc {i : ℕ} (hrun : Transition.Run P.step ⟨s₀, []⟩ es p) :
    history out P s₀ i (es ++ [l]) = history out P s₀ i es ++ outputOf out i p l :=
  Transition.trace_snoc hrun

theorem history_eq_nil {i : ℕ} (hrun : Transition.Run P.step ⟨s₀, []⟩ es p)
    (hi : p.calls.length ≤ i) : history out P s₀ i es = [] := by
  induction hrun with
  | nil => rfl
  | @snoc es l p p' hrun hs ih =>
    rw [history_snoc hrun]
    cases step_cases hs with
    | spawn x =>
      rw [List.length_append] at hi
      rw [ih (Nat.le_of_add_right_le hi)]
      rfl
    | @call j c t t' s hj ht =>
      rw [List.length_set] at hi
      have hne : j ≠ i := ((List.getElem?_eq_some_iff.mp hj).1.trans_le hi).ne
      rw [ih hi, outputOf, if_neg hne]
      rfl
    | env henv =>
      rw [ih hi]
      rfl

/-- **Histories.** What the start of a call has with an empty history, and every step of the call
keeps while it adds to it, holds of every call with its history. The steps may use an invariant
`J`, and what the run has all its steps meet, `K`. -/
theorem history_of_everyStep {J : σ → τ → Prop} {K : σ → τ → ε → Prop} {Q : List ω → τ → Prop}
    (hJ : ∀ es p, Transition.Run P.step ⟨s₀, []⟩ es p → ∀ t ∈ p.calls, J p.shared t)
    (hstart : ∀ x, Q [] (P.start x))
    (hcall : ∀ s t c s' t' ws, J s t → K s t c → Q ws t → P.call s t c = some (s', t') →
      Q (ws ++ out s t c) t')
    (hrun : Transition.Run P.step ⟨s₀, []⟩ es p)
    (hK : Transition.EveryStep P.step ⟨s₀, []⟩ es fun _ p l =>
      ∀ i c t, l = .call i c → p.calls[i]? = some t → K p.shared t c)
    {i : ℕ} {t : τ} (hi : p.calls[i]? = some t) : Q (history out P s₀ i es) t := by
  induction hrun generalizing i t with
  | nil => cases hi
  | @snoc es l p p' hrun hs ih =>
    rw [history_snoc hrun]
    obtain ⟨hbefore, hlast⟩ := (Transition.everyStep_snoc hrun).mp hK
    have ih := @ih hbefore
    cases step_cases hs with
    | spawn x =>
      rw [outputOf, List.append_nil]
      rcases lt_or_ge i p.calls.length with hlt | hge
      · rw [List.getElem?_append_left hlt] at hi
        exact ih hi
      · rw [List.getElem?_append_right hge, List.getElem?_singleton] at hi
        split_ifs at hi
        cases hi
        rw [history_eq_nil hrun hge]
        exact hstart x
    | @call j c u u' s hj hu =>
      by_cases hji : j = i
      · subst hji
        have hlt := (List.getElem?_eq_some_iff.mp hj).1
        rw [List.getElem?_set_self hlt] at hi
        cases hi
        rw [outputOf, if_pos rfl, hj]
        exact hcall _ _ _ _ _ _ (hJ es p hrun u (List.mem_of_getElem? hj)) (hlast j c u rfl hj)
          (ih hj) hu
      · rw [List.getElem?_set_ne hji] at hi
        rw [outputOf, if_neg hji, List.append_nil]
        exact ih hi
    | env henv =>
      rw [outputOf, List.append_nil]
      exact ih hi

theorem history_invariant {J : σ → τ → Prop} {Q : List ω → τ → Prop}
    (hJ : ∀ es p, Transition.Run P.step ⟨s₀, []⟩ es p → ∀ t ∈ p.calls, J p.shared t)
    (hstart : ∀ x, Q [] (P.start x))
    (hcall : ∀ s t c s' t' ws, J s t → Q ws t → P.call s t c = some (s', t') →
      Q (ws ++ out s t c) t')
    (hrun : Transition.Run P.step ⟨s₀, []⟩ es p) {i : ℕ} {t : τ} (hi : p.calls[i]? = some t) :
    Q (history out P s₀ i es) t :=
  history_of_everyStep (K := fun _ _ _ => True) hJ hstart
    (fun s t c s' t' ws hj _ => hcall s t c s' t' ws hj) hrun
    (fun _ _ _ _ _ _ _ _ _ _ => trivial) hi

end

/-! ## The calls after a step of one of them -/

theorem getElem?_set {l : List τ} {i j : ℕ} {t t' : τ} (hi : l[i]? = some t) :
    (l.set i t')[j]? = if j = i then some t' else l[j]? := by
  split_ifs with hji
  · subst hji
    exact List.getElem?_set_self (List.getElem?_eq_some_iff.mp hi).1
  · exact List.getElem?_set_ne (Ne.symm hji)

/-- A step of one call changes the number of calls with a property by what it changes of its own. -/
theorem countP_set {l : List τ} {q : τ → Bool} {i : ℕ} {t t' : τ} (hi : l[i]? = some t) :
    (l.set i t').countP q + (if q t then 1 else 0) = l.countP q + if q t' then 1 else 0 := by
  obtain ⟨hlt, rfl⟩ := List.getElem?_eq_some_iff.mp hi
  have hle : (if q l[i] then 1 else 0) ≤ l.countP q := by
    split_ifs with h
    · exact List.countP_pos_iff.mpr ⟨l[i], List.getElem_mem hlt, h⟩
    · exact Nat.zero_le _
  rw [List.countP_set hlt]
  omega

theorem sum_set {l : List τ} {w : τ → ℕ} {i : ℕ} {t t' : τ} (hi : l[i]? = some t) :
    ((l.set i t').map w).sum + w t = (l.map w).sum + w t' := by
  induction l generalizing i with
  | nil => cases hi
  | cons u l ih =>
    cases i with
    | zero =>
      cases hi
      simp only [List.set_cons_zero, List.map_cons, List.sum_cons]
      omega
    | succ i =>
      have hrest := ih hi
      simp only [List.set_cons_succ, List.map_cons, List.sum_cons]
      omega

end Program
