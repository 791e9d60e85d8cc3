import Mathlib.Data.List.Infix

/-!
# Runs of labelled machines

A machine is a partial step function `step : σ → ε → Option σ`. A label carries every choice the
machine leaves open, so a label has at most one outcome and a run is determined by its labels
(`Run.deterministic`, `run_iff_exec`). `Reaches` forgets the labels.

`Always` and `EveryStep` speak about all the states and all the steps of one run, with the labels
that lead there. `always_of_everyStep` is the induction rule: a property of the start that every
step meeting a condition preserves holds in every state of a run whose steps all meet it.
-/

namespace Transition

variable {σ ε ω : Type*} {step : σ → ε → Option σ} {s₀ s t : σ} {e : ε} {es fs : List ε}

/-- A run from `s₀`: the labels taken, oldest first, and the state reached. -/
inductive Run (step : σ → ε → Option σ) (s₀ : σ) : List ε → σ → Prop
  | nil : Run step s₀ [] s₀
  | snoc {es : List ε} {e : ε} {s t : σ} :
      Run step s₀ es s → step s e = some t → Run step s₀ (es ++ [e]) t

/-- Execute a list of labels. -/
def exec (step : σ → ε → Option σ) : σ → List ε → Option σ
  | s, [] => some s
  | s, e :: es => (step s e).bind fun t => exec step t es

@[simp] theorem exec_nil : exec step s [] = some s := rfl

@[simp] theorem exec_cons :
    exec step s (e :: es) = (step s e).bind fun t => exec step t es := rfl

theorem exec_append :
    exec step s (es ++ fs) = (exec step s es).bind fun t => exec step t fs := by
  induction es generalizing s with
  | nil => rfl
  | cons e es ih =>
    rw [List.cons_append, exec_cons, exec_cons, Option.bind_assoc]
    exact Option.bind_congr fun t _ => ih

theorem Run.exec (h : Run step s₀ es s) : exec step s₀ es = some s := by
  induction h with
  | nil => rfl
  | snoc _ hs ih => rw [exec_append, ih, Option.bind_some, exec_cons, hs]; rfl

theorem run_of_exec (h : exec step s₀ es = some s) : Run step s₀ es s := by
  induction es using List.reverseRecOn generalizing s with
  | nil => cases h; exact .nil
  | append_singleton es e ih =>
    rw [exec_append, Option.bind_eq_some_iff] at h
    obtain ⟨t, ht, h⟩ := h
    rw [exec_cons, Option.bind_eq_some_iff] at h
    obtain ⟨u, hu, h⟩ := h
    cases h
    exact .snoc (ih ht) hu

theorem run_get (h : (exec step s₀ es).isSome) : Run step s₀ es ((exec step s₀ es).get h) :=
  run_of_exec (Option.some_get h).symm

theorem run_iff_exec : Run step s₀ es s ↔ exec step s₀ es = some s :=
  ⟨Run.exec, run_of_exec⟩

theorem Run.deterministic (h : Run step s₀ es s) (h' : Run step s₀ es t) : s = t :=
  Option.some.inj (h.exec.symm.trans h'.exec)

theorem Run.append (h : Run step s₀ es s) (h' : Run step s fs t) :
    Run step s₀ (es ++ fs) t := by
  rw [run_iff_exec, exec_append, h.exec]
  exact h'.exec

/-- A run splits at every point of its labels. -/
theorem Run.split (h : Run step s₀ (es ++ fs) t) : ∃ s, Run step s₀ es s ∧ Run step s fs t := by
  have h' := h.exec
  rw [exec_append, Option.bind_eq_some_iff] at h'
  obtain ⟨s, h₁, h₂⟩ := h'
  exact ⟨s, run_of_exec h₁, run_of_exec h₂⟩

theorem Run.snoc_inv (h : Run step s₀ (es ++ [e]) t) : ∃ s, Run step s₀ es s ∧ step s e = some t := by
  obtain ⟨s, h₁, h₂⟩ := h.split
  have h₂ := h₂.exec
  rw [exec_cons, Option.bind_eq_some_iff] at h₂
  obtain ⟨u, hu, h₂⟩ := h₂
  cases h₂
  exact ⟨s, h₁, hu⟩

theorem Run.step_of_prefix (h : Run step s₀ fs t) (hpre : es ++ [e] <+: fs) (hes : Run step s₀ es s) :
    ∃ s' gs, step s e = some s' ∧ Run step s₀ (es ++ [e]) s' ∧ Run step s' gs t := by
  obtain ⟨gs, rfl⟩ := hpre
  obtain ⟨s', hs', hgs⟩ := h.split
  obtain ⟨u, hu, hstep⟩ := hs'.snoc_inv
  obtain rfl := hu.deterministic hes
  exact ⟨s', gs, hstep, hs', hgs⟩

/-- **Invariants.** What the start has and every step keeps holds at the end of every run. -/
theorem Run.invariant {P : σ → Prop} (h : Run step s₀ es s) (h₀ : P s₀)
    (hP : ∀ s e t, P s → step s e = some t → P t) : P s := by
  induction h with
  | nil => exact h₀
  | snoc _ hs ih => exact hP _ _ _ ih hs

/-! ## Reachable states -/

/-- Some run leads from `s` to `t`. -/
def Reaches (step : σ → ε → Option σ) (s t : σ) : Prop := ∃ es, Run step s es t

theorem Reaches.refl (s : σ) : Reaches step s s := ⟨[], .nil⟩

theorem Reaches.of_step (h : step s e = some t) : Reaches step s t := ⟨[e], Run.snoc .nil h⟩

theorem Reaches.trans {u : σ} (h : Reaches step s t) (h' : Reaches step t u) : Reaches step s u := by
  obtain ⟨es, hes⟩ := h
  obtain ⟨fs, hfs⟩ := h'
  exact ⟨es ++ fs, hes.append hfs⟩

theorem Reaches.cons {u : σ} (h : step s e = some t) (h' : Reaches step t u) : Reaches step s u :=
  (Reaches.of_step h).trans h'

/-- What a part of a machine reaches, the machine reaches. -/
theorem Reaches.lift {τ δ : Type*} {part : τ → δ → Option τ} {x y : τ} (f : τ → σ)
    (hpart : ∀ x d y, part x d = some y → ∃ e, step (f x) e = some (f y)) (h : Reaches part x y) :
    Reaches step (f x) (f y) := by
  obtain ⟨ds, hds⟩ := h
  induction hds with
  | nil => exact .refl _
  | snoc _ hs ih =>
    obtain ⟨e, he⟩ := hpart _ _ _ hs
    exact ih.trans (.of_step he)

/-! ## Counting steps -/

/-- The number of steps of a kind in a run. -/
def stepCount (step : σ → ε → Option σ) (p : σ → ε → Bool) : σ → List ε → ℕ
  | _, [] => 0
  | s, e :: es => (if p s e then 1 else 0) + (step s e).elim 0 fun t => stepCount step p t es

theorem stepCount_append {p : σ → ε → Bool} (h : Run step s₀ es s) :
    stepCount step p s₀ (es ++ fs) = stepCount step p s₀ es + stepCount step p s fs := by
  rw [run_iff_exec] at h
  induction es generalizing s₀ with
  | nil =>
    have heq : s₀ = s := Option.some.inj h
    subst heq
    simp only [List.nil_append, stepCount, Nat.zero_add]
  | cons d es ih =>
    rw [exec_cons, Option.bind_eq_some_iff] at h
    obtain ⟨t, ht, h⟩ := h
    simp only [List.cons_append, stepCount, ht, Option.elim_some]
    rw [ih h, Nat.add_assoc]

theorem stepCount_snoc {p : σ → ε → Bool} (h : Run step s₀ es s) :
    stepCount step p s₀ (es ++ [e]) = stepCount step p s₀ es + if p s e then 1 else 0 := by
  rw [stepCount_append h]
  simp only [stepCount]
  cases step s e <;> rfl

/-- A measure that no step lowers and every marked step raises bounds the number of marked steps. -/
theorem Run.stepCount_add_le {p : σ → ε → Bool} {μ : σ → ℕ} {I : σ → Prop} (h : Run step s es t)
    (hI : I s) (hstep : ∀ s e t, I s → step s e = some t →
      I t ∧ μ s + (if p s e then 1 else 0) ≤ μ t) :
    I t ∧ stepCount step p s es + μ s ≤ μ t := by
  induction h with
  | nil => exact ⟨hI, by simp [stepCount]⟩
  | snoc hrun hs ih =>
    obtain ⟨hmid, hle⟩ := ih
    obtain ⟨hlast, hnext⟩ := hstep _ _ _ hmid hs
    refine ⟨hlast, ?_⟩
    rw [stepCount_snoc hrun]
    omega

/-! ## What a run puts out -/

/-- What the steps of a run put out, oldest first. -/
def trace (step : σ → ε → Option σ) (out : σ → ε → List ω) : σ → List ε → List ω
  | _, [] => []
  | s, e :: es => out s e ++ (step s e).elim [] fun t => trace step out t es

theorem trace_append {out : σ → ε → List ω} (h : Run step s₀ es s) :
    trace step out s₀ (es ++ fs) = trace step out s₀ es ++ trace step out s fs := by
  rw [run_iff_exec] at h
  induction es generalizing s₀ with
  | nil =>
    have heq : s₀ = s := Option.some.inj h
    subst heq
    rfl
  | cons d es ih =>
    rw [exec_cons, Option.bind_eq_some_iff] at h
    obtain ⟨t, ht, h⟩ := h
    simp only [List.cons_append, trace, ht, Option.elim_some]
    rw [ih h, List.append_assoc]

theorem mem_trace_append {out : σ → ε → List ω} (h : Run step s₀ es s) {x : ω}
    (hx : x ∈ trace step out s₀ es) (fs : List ε) : x ∈ trace step out s₀ (es ++ fs) := by
  rw [trace_append h]
  exact List.mem_append_left _ hx

theorem trace_snoc {out : σ → ε → List ω} (h : Run step s₀ es s) :
    trace step out s₀ (es ++ [e]) = trace step out s₀ es ++ out s e := by
  rw [trace_append h]
  simp only [trace]
  cases step s e <;> simp

theorem mem_trace_of_mem {υ : Type*} {out : σ → ε → List ω} {out' : σ → ε → List υ} {f : ω → υ}
    (hout : ∀ s e, ∀ x ∈ out s e, f x ∈ out' s e) {x : ω} (hx : x ∈ trace step out s₀ es) :
    f x ∈ trace step out' s₀ es := by
  induction es generalizing s₀ with
  | nil => cases hx
  | cons e es ih =>
    rw [trace, List.mem_append] at hx ⊢
    rcases hx with hx | hx
    · exact Or.inl (hout _ _ x hx)
    · refine Or.inr ?_
      cases hs : step s₀ e with
      | none =>
        rw [hs] at hx
        cases hx
      | some t =>
        rw [hs] at hx
        exact ih hx

/-! ## Properties of all the states and all the steps of a run -/

/-- `P` holds in every state of the run `es` from `s₀`, with the labels that lead to it. -/
def Always (step : σ → ε → Option σ) (s₀ : σ) (es : List ε) (P : List ε → σ → Prop) : Prop :=
  ∀ pre s, pre <+: es → Run step s₀ pre s → P pre s

/-- `C` holds of every step of the run `es` from `s₀`: of the labels before it, the state it is
taken in and its label. -/
def EveryStep (step : σ → ε → Option σ) (s₀ : σ) (es : List ε) (C : List ε → σ → ε → Prop) : Prop :=
  ∀ pre e s, pre ++ [e] <+: es → Run step s₀ pre s → C pre s e

section

variable {P : List ε → σ → Prop} {C : List ε → σ → ε → Prop}

theorem always_nil : Always step s₀ [] P ↔ P [] s₀ := by
  constructor
  · intro h; exact h [] s₀ (List.prefix_refl _) .nil
  · intro h pre s hpre hrun
    obtain rfl := List.prefix_nil.mp hpre
    rw [← Run.deterministic .nil hrun]; exact h

theorem everyStep_nil : EveryStep step s₀ [] C := by
  intro pre e s hpre
  simp at hpre

/-- The states of a run are those of the run without its last step, and its end. -/
theorem always_snoc (h : Run step s₀ (es ++ [e]) t) :
    Always step s₀ (es ++ [e]) P ↔ Always step s₀ es P ∧ P (es ++ [e]) t := by
  constructor
  · intro hP
    exact ⟨fun pre s hpre => hP pre s (hpre.trans (List.prefix_append _ _)),
      hP _ _ (List.prefix_refl _) h⟩
  · rintro ⟨hP, hlast⟩ pre s hpre hrun
    rcases List.prefix_concat_iff.mp hpre with rfl | hpre
    · rw [← h.deterministic hrun]; exact hlast
    · exact hP pre s hpre hrun

theorem everyStep_snoc (h : Run step s₀ es s) :
    EveryStep step s₀ (es ++ [e]) C ↔ EveryStep step s₀ es C ∧ C es s e := by
  constructor
  · intro hC
    exact ⟨fun pre e s hpre => hC pre e s (hpre.trans (List.prefix_append _ _)),
      hC _ _ _ (List.prefix_refl _) h⟩
  · rintro ⟨hC, hlast⟩ pre e' s' hpre hrun
    rcases List.prefix_concat_iff.mp hpre with heq | hpre
    · obtain ⟨rfl, he⟩ := List.append_inj' heq rfl
      cases he
      rw [← h.deterministic hrun]; exact hlast
    · exact hC pre e' s' hpre hrun

theorem everyStep_cons (h : step s₀ e = some s) :
    EveryStep step s₀ (e :: es) C ↔
      C [] s₀ e ∧ EveryStep step s es fun pre t d => C (e :: pre) t d := by
  have hfirst : Run step s₀ [e] s := Run.snoc .nil h
  constructor
  · intro hC
    refine ⟨hC [] e s₀ (by simp) .nil, fun pre d t hpre hrun => ?_⟩
    exact hC (e :: pre) d t ((List.prefix_cons_inj e).mpr hpre) (hfirst.append hrun)
  · rintro ⟨hhead, htail⟩ pre d t hpre hrun
    cases pre with
    | nil =>
      obtain ⟨rfl, -⟩ := List.cons_prefix_cons.mp hpre
      rwa [← Run.deterministic .nil hrun]
    | cons e' pre =>
      obtain ⟨rfl, htl⟩ := List.cons_prefix_cons.mp hpre
      obtain ⟨s', hs', hrest⟩ := Run.split (show Run step s₀ ([e'] ++ pre) t from hrun)
      rw [hs'.deterministic hfirst] at hrest
      exact htail pre d t htl hrest

/-- Test a condition at every step of a run. -/
def checkSteps (step : σ → ε → Option σ) (c : σ → ε → Bool) : σ → List ε → Bool
  | _, [] => true
  | s, e :: es => c s e && (step s e).all fun t => checkSteps step c t es

theorem everyStep_of_check {c : σ → ε → Bool} (h : checkSteps step c s₀ es = true) :
    EveryStep step s₀ es fun _ s e => c s e = true := by
  induction es generalizing s₀ with
  | nil => exact everyStep_nil
  | cons e es ih =>
    obtain ⟨hhead, htail⟩ := Bool.and_eq_true_iff.mp h
    cases hs : step s₀ e with
    | some t =>
      rw [hs] at htail
      exact (everyStep_cons hs).mpr ⟨hhead, ih htail⟩
    | none =>
      intro pre d t hpre hrun
      cases pre with
      | nil =>
        obtain ⟨rfl, -⟩ := List.cons_prefix_cons.mp hpre
        rwa [← Run.deterministic .nil hrun]
      | cons e' pre =>
        -- the run cannot take its first step
        obtain ⟨rfl, -⟩ := List.cons_prefix_cons.mp hpre
        have hexec := hrun.exec
        rw [exec_cons, hs] at hexec
        cases hexec

theorem EveryStep.of_prefix (h : EveryStep step s₀ es C) (hpre : fs <+: es) :
    EveryStep step s₀ fs C :=
  fun pre e s hfs => h pre e s (hfs.trans hpre)

theorem EveryStep.mono {C' : List ε → σ → ε → Prop} (h : EveryStep step s₀ es C)
    (hC : ∀ pre s e, C pre s e → C' pre s e) : EveryStep step s₀ es C' :=
  fun pre e s hpre hrun => hC pre s e (h pre e s hpre hrun)

theorem Always.mono {Q : List ε → σ → Prop} (h : Always step s₀ es P)
    (hPQ : ∀ pre s, Run step s₀ pre s → P pre s → Q pre s) : Always step s₀ es Q :=
  fun pre s hpre hrun => hPQ pre s hrun (h pre s hpre hrun)

theorem Always.last (h : Always step s₀ es P) (hrun : Run step s₀ es s) : P es s :=
  h es s (List.prefix_refl _) hrun

/-- **Conditional invariants.** In a run whose steps all meet `C`, a property of the start that
every such step keeps holds in every state. -/
theorem always_of_everyStep (hrun : Run step s₀ es s) (h₀ : P [] s₀)
    (hP : ∀ pre s e t, Run step s₀ pre s → P pre s → C pre s e → step s e = some t →
      P (pre ++ [e]) t)
    (hC : EveryStep step s₀ es C) : Always step s₀ es P := by
  induction hrun with
  | nil => exact always_nil.mpr h₀
  | snoc hrun hs ih =>
    obtain ⟨hC, hlast⟩ := (everyStep_snoc hrun).mp hC
    have hpre := ih hC
    exact (always_snoc (hrun.snoc hs)).mpr ⟨hpre, hP _ _ _ _ hrun (hpre.last hrun) hlast hs⟩

end

/-! ## What has held since some moment -/

/-- At some moment of the run `es` the state satisfied `K`, and `P` has held from then on. -/
def HeldSince (step : σ → ε → Option σ) (s₀ : σ) (es : List ε) (K P : σ → Prop) : Prop :=
  ∃ pre fs s, es = pre ++ fs ∧ Run step s₀ pre s ∧ K s ∧ Always step s fs fun _ s => P s

section

variable {K K' P P' : σ → Prop}

theorem HeldSince.start (hrun : Run step s₀ es s) (hK : K s) (hP : P s) :
    HeldSince step s₀ es K P :=
  ⟨es, [], s, (List.append_nil es).symm, hrun, hK, always_nil.mpr hP⟩

/-- What has held so far and holds after one more step has held since the same moment. -/
theorem HeldSince.snoc (h : HeldSince step s₀ es K P) (hrun : Run step s₀ (es ++ [e]) t)
    (hP : P t) : HeldSince step s₀ (es ++ [e]) K P := by
  obtain ⟨pre, fs, s, rfl, hpre, hK, hA⟩ := h
  rw [List.append_assoc] at hrun
  obtain ⟨s', hpre', hfs⟩ := hrun.split
  obtain rfl := hpre'.deterministic hpre
  exact ⟨pre, fs ++ [e], s', List.append_assoc .., hpre, hK, (always_snoc hfs).mpr ⟨hA, hP⟩⟩

theorem HeldSince.mono (h : HeldSince step s₀ es K P) (hK : ∀ s, K s → K' s)
    (hP : ∀ s, P s → P' s) : HeldSince step s₀ es K' P' := by
  obtain ⟨pre, fs, s, hes, hpre, hs, hA⟩ := h
  exact ⟨pre, fs, s, hes, hpre, hK s hs, hA.mono fun _ s _ => hP s⟩

end

end Transition
