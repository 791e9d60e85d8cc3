import Mathlib.Data.Nat.Notation
import Mathlib.Data.Option.Basic

/-!
# Outcomes of deterministic machines

A deterministic machine is a partial function `next : σ → Option σ`; it stops where there is no next
state. `Ends next P s` says that from `s` it stops, and in a state with `P`.

The machine is followed by equivalences: a step does not change the outcome (`ends_iff_of_step`),
where it stops the outcome is what holds there (`ends_iff_of_stop`), and two machines that move
alike come to the same outcome (`ends_iff_of_bisim`).
-/

namespace Outcome

variable {σ τ : Type*} {next : σ → Option σ} {P : σ → Prop} {s s' : σ}

/-- From `s` the machine stops in a state with `P`. -/
inductive Ends (next : σ → Option σ) (P : σ → Prop) : σ → Prop
  | stop {s : σ} : next s = none → P s → Ends next P s
  | step {s s' : σ} : next s = some s' → Ends next P s' → Ends next P s

theorem ends_iff_of_step (h : next s = some s') : Ends next P s ↔ Ends next P s' := by
  constructor
  · intro hs
    cases hs with
    | stop hstop _ =>
      rw [h] at hstop
      cases hstop
    | step hstep hends =>
      rw [h] at hstep
      cases hstep
      exact hends
  · exact .step h

theorem ends_iff_of_stop (h : next s = none) : Ends next P s ↔ P s := by
  constructor
  · intro hs
    cases hs with
    | stop _ hP => exact hP
    | step hstep _ =>
      rw [h] at hstep
      cases hstep
  · exact .stop h

/-- Follow a machine for a number of steps, or until it stops. -/
def follow (next : σ → Option σ) : ℕ → σ → σ
  | 0, s => s
  | n + 1, s => (next s).elim s fun s' => follow next n s'

theorem ends_iff_of_follow (n : ℕ) (h : next (follow next n s) = none) :
    Ends next P s ↔ P (follow next n s) := by
  induction n generalizing s with
  | zero => exact ends_iff_of_stop h
  | succ n ih =>
    cases hs : next s with
    | none =>
      have hsame : follow next (n + 1) s = s := by
        rw [follow, hs]
        rfl
      rw [hsame]
      exact ends_iff_of_stop hs
    | some s' =>
      have hmore : follow next (n + 1) s = follow next n s' := by
        rw [follow, hs]
        rfl
      rw [hmore] at h ⊢
      exact (ends_iff_of_step hs).trans (ih h)

/-- **Two machines that move alike.** `R` relates the states; from related states either both move
on to related states or both stop, and the outcomes agree. -/
theorem ends_iff_of_bisim {next' : τ → Option τ} {Q : τ → Prop} {t : τ} {R : σ → τ → Prop}
    (hmove : ∀ s t, R s t → (next s).isSome = (next' t).isSome ∧
      ∀ s' t', next s = some s' → next' t = some t' → R s' t')
    (houtcome : ∀ s t, R s t → (P s ↔ Q t)) (h : R s t) : Ends next P s ↔ Ends next' Q t := by
  constructor
  · intro hs
    induction hs generalizing t with
    | stop hstop hP =>
      have halike := (hmove _ _ h).1
      rw [hstop, Option.isSome_none] at halike
      exact .stop (Option.isSome_eq_false_iff.mp halike.symm |> Option.isNone_iff_eq_none.mp)
        ((houtcome _ _ h).mp hP)
    | step hstep _ ih =>
      obtain ⟨halike, hnext⟩ := hmove _ _ h
      rw [hstep, Option.isSome_some] at halike
      obtain ⟨t', ht⟩ := Option.isSome_iff_exists.mp halike.symm
      exact .step ht (ih (hnext _ _ hstep ht))
  · intro ht
    induction ht generalizing s with
    | stop hstop hQ =>
      have halike := (hmove _ _ h).1
      rw [hstop, Option.isSome_none] at halike
      exact .stop (Option.isSome_eq_false_iff.mp halike |> Option.isNone_iff_eq_none.mp)
        ((houtcome _ _ h).mpr hQ)
    | step hstep _ ih =>
      obtain ⟨halike, hnext⟩ := hmove _ _ h
      rw [hstep, Option.isSome_some] at halike
      obtain ⟨s', hs⟩ := Option.isSome_iff_exists.mp halike
      exact .step hs (ih (hnext _ _ hs hstep))

end Outcome
