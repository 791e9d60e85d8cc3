import LlmGateway.Lib.Pool

/-!
# Calls that come to an end

A budget bounds the steps that may still be taken (`Transition.stepCount_add_le`). If every step of
a call lowers its own budget, a call takes no more steps in a run than its first budget
(`Program.work_le`), whatever the other calls and the environment do.

`Transition.drain` is the other half: if from every state short of a goal a few steps lead to a
state of smaller weight, the goal is reached.
-/

namespace Transition

variable {σ ε : Type*} {step : σ → ε → Option σ}

/-- **Draining.** While the goal is not reached, some allowed steps lower the weight; so allowed
steps lead to the goal. -/
theorem drain {I G : σ → Prop} {A : ε → Prop} (w : σ → ℕ)
    (h : ∀ s, I s → ¬ G s → ∃ es t, (∀ e ∈ es, A e) ∧ Run step s es t ∧ I t ∧ w t < w s)
    (s : σ) (hs : I s) : ∃ es t, (∀ e ∈ es, A e) ∧ Run step s es t ∧ I t ∧ G t := by
  induction hw : w s using Nat.strong_induction_on generalizing s with
  | _ n ih =>
    by_cases hgoal : G s
    · exact ⟨[], s, by simp, .nil, hs, hgoal⟩
    · obtain ⟨es, t, hes, hrun, ht, hlt⟩ := h s hs hgoal
      obtain ⟨fs, u, hfs, hrun', hu, hgoal'⟩ := ih (w t) (hw ▸ hlt) t ht rfl
      refine ⟨es ++ fs, u, ?_, hrun.append hrun', hu, hgoal'⟩
      intro e he
      exact (List.mem_append.mp he).elim (hes e) (hfs e)

/-- A measure that no step raises and every marked step lowers bounds the number of marked steps,
in a run that starts with what every step keeps. -/
theorem stepCount_add_le {p : σ → ε → Bool} {μ : σ → ℕ} {I : σ → Prop} {s t : σ} {es : List ε}
    (hI : I s) (hstep : ∀ s e t, I s → step s e = some t →
      I t ∧ (if p s e then 1 else 0) + μ t ≤ μ s)
    (hrun : Run step s es t) : stepCount step p s es + μ t ≤ μ s := by
  have hkept : I t ∧ stepCount step p s es + μ t ≤ μ s := by
    induction hrun with
    | nil => exact ⟨hI, (Nat.zero_add _).le⟩
    | snoc hrun hs ih =>
      obtain ⟨hmid, hle⟩ := ih
      obtain ⟨hlast, hnext⟩ := hstep _ _ _ hmid hs
      refine ⟨hlast, ?_⟩
      rw [stepCount_snoc hrun, Nat.add_assoc]
      exact (Nat.add_le_add_left hnext _).trans hle
  exact hkept.2

end Transition

namespace Program

open Transition

variable {σ τ ν ε δ : Type*} {P : Program σ τ ν ε δ} {p p' : Pool σ τ} {l : Label ν ε δ}
  {es : List (Label ν ε δ)} {s₀ : σ} {b : τ → ℕ} {B : ℕ} {K : σ → Prop}

/-- A step of the call `i`. -/
def takenBy (i : ℕ) (_ : Pool σ τ) : Label ν ε δ → Bool
  | .call j _ => j = i
  | _ => false

/-- What is left of the budget of the call `i`: all of it before the call is started. -/
def budgetLeft (b : τ → ℕ) (B : ℕ) (p : Pool σ τ) (i : ℕ) : ℕ := p.calls[i]?.elim B b

/-- One step of the machine takes from the budget of the call that takes it, and from no other. -/
theorem budgetLeft_step (hstart : ∀ x, b (P.start x) ≤ B)
    (hcall : ∀ s t c s' t', K s → P.call s t c = some (s', t') → b t' < b t)
    (hK : K p.shared) (hs : P.step p l = some p') (i : ℕ) :
    (if takenBy i p l then 1 else 0) + budgetLeft b B p' i ≤ budgetLeft b B p i := by
  unfold budgetLeft
  cases step_cases hs with
  | spawn x =>
    simp only [takenBy, Bool.false_eq_true, if_false, Nat.zero_add]
    rcases lt_or_ge i p.calls.length with hlt | hge
    · rw [List.getElem?_append_left hlt]
    · rw [List.getElem?_append_right hge, List.getElem?_eq_none hge, List.getElem?_singleton]
      split_ifs
      · exact hstart x
      · exact le_rfl
  | @call j c t t' s hj ht =>
    have hlt := hcall _ _ _ _ _ hK ht
    rw [getElem?_set hj]
    by_cases hji : j = i
    · subst hji
      simp only [takenBy, if_true, hj, decide_true, Option.elim_some]
      omega
    · simp [takenBy, hji, Ne.symm hji]
  | env henv =>
    simp [takenBy]

/-- **Bounded work.** In a run whose states all meet `K`, a call takes no more steps than its first
budget. -/
theorem work_le (hstart : ∀ x, b (P.start x) ≤ B)
    (hcall : ∀ s t c s' t', K s → P.call s t c = some (s', t') → b t' < b t)
    (hrun : Run P.step ⟨s₀, []⟩ es p)
    (hK : Always P.step ⟨s₀, []⟩ es fun _ p => K p.shared) (i : ℕ) :
    stepCount P.step (takenBy i) ⟨s₀, []⟩ es + budgetLeft b B p i ≤ B := by
  induction hrun with
  | nil => exact (Nat.zero_add _).le
  | @snoc es l s t hrun hs ih =>
    obtain ⟨hbefore, -⟩ := (always_snoc (hrun.snoc hs)).mp hK
    rw [stepCount_snoc hrun, Nat.add_assoc]
    have hstep := budgetLeft_step hstart hcall (hbefore.last hrun) hs i
    exact (Nat.add_le_add_left hstep _).trans (ih hbefore)

/-- What is left of all the budgets. -/
def totalBudget (b : τ → ℕ) (p : Pool σ τ) : ℕ := (p.calls.map b).sum

theorem totalBudget_call (hcall : ∀ s t c s' t', K s → P.call s t c = some (s', t') → b t' < b t)
    (hK : K p.shared) {i : ℕ} {c : ε} (hs : P.step p (.call i c) = some p') :
    totalBudget b p' < totalBudget b p := by
  cases step_cases hs with
  | @call i c t t' s hi ht =>
    have hlt := hcall _ _ _ _ _ hK ht
    have hsum : ((p.calls.set i t').map b).sum + b t = (p.calls.map b).sum + b t' := sum_set hi
    unfold totalBudget
    dsimp only
    omega

end Program
