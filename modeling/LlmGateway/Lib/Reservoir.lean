import Mathlib.Probability.Distributions.Uniform

/-!
# Reservoir sampling of the minimum

One pass over a list keeps an item with the smallest key so far and the number of ties. A smaller
key starts the count again; the `k`-th tie replaces the item held if a draw from `1` to `k` is `1`.
Items without a key are skipped.

`run` is the pass on a list of draws, and `drawsLaw` the law of the draws it makes when each is
uniform and independent of those before. `held_run`: whatever is drawn, the item held at the end has
the smallest key. `drawsLaw_map_run`: and each of the items with that key is held with the same
probability.
-/

open scoped ENNReal

namespace Reservoir

/-- The item held, its key, and the number of items with that key so far. -/
structure Best (α β : Type*) where
  held : Option α := none
  key : β
  ties : ℕ := 0

variable {α β γ : Type*} [LinearOrder β] (key : α → Option β)

/-- One item. The first tie takes the place of the item held whatever is drawn. -/
def Best.offer (b : Best α β) (a : α) (draw : ℕ) : Best α β :=
  match key a with
  | none => b
  | some k =>
    if k < b.key then ⟨some a, k, 1⟩
    else if k = b.key then
      ⟨if b.ties = 0 ∨ draw = 1 then some a else b.held, b.key, b.ties + 1⟩
    else b

/-- The pass over a list. Only a tie takes a draw. -/
def run : List ℕ → Best α β → List α → Best α β
  | _, b, [] => b
  | draws, b, a :: as =>
    if key a = some b.key then run draws.tail (b.offer key a (draws.headD 1)) as
    else run draws (b.offer key a 1) as

/-- A draw from `1` to `n + 1`. -/
noncomputable def uniform (n : ℕ) : PMF ℕ := (PMF.uniformOfFintype (Fin (n + 1))).map fun i => i.val + 1

/-- The law of the draws of a pass. -/
noncomputable def drawsLaw : Best α β → List α → PMF (List ℕ)
  | _, [] => PMF.pure []
  | b, a :: as =>
    if key a = some b.key then
      (uniform b.ties).bind fun d => (drawsLaw (b.offer key a d) as).map (d :: ·)
    else drawsLaw (b.offer key a 1) as

variable {key} {b : Best α β} {a : α} {as : List α} {k : β} {d : ℕ}

/-! ## One item -/

theorem offer_of_none (h : key a = none) : b.offer key a d = b := by
  unfold Best.offer
  rw [h]

theorem offer_of_lt (h : key a = some k) (hlt : k < b.key) : b.offer key a d = ⟨some a, k, 1⟩ := by
  unfold Best.offer
  rw [h]
  exact if_pos hlt

theorem offer_of_tie (h : key a = some b.key) : b.offer key a d =
    ⟨if b.ties = 0 ∨ d = 1 then some a else b.held, b.key, b.ties + 1⟩ := by
  unfold Best.offer
  rw [h]
  dsimp only
  rw [if_neg (lt_irrefl _), if_pos rfl]

theorem offer_of_gt (h : key a = some k) (hgt : b.key < k) : b.offer key a d = b := by
  unfold Best.offer
  rw [h]
  dsimp only
  rw [if_neg hgt.not_gt, if_neg hgt.ne']

/-! ## The item held -/

/-- `s` is the key at the end: the smallest of those of the list and the one so far. -/
structure Smallest (key : α → Option β) (b : Best α β) (as : List α) (s : β) : Prop where
  le_key : s ≤ b.key
  le : ∀ a ∈ as, ∀ k, key a = some k → s ≤ k
  attained : s = b.key ∨ ∃ a ∈ as, key a = some s

variable {s : β}

theorem Smallest.attained_cons (h : Smallest key b (a :: as) s) :
    s = b.key ∨ key a = some s ∨ ∃ a' ∈ as, key a' = some s := by
  refine h.attained.imp_right ?_
  rintro ⟨a', ha', hs⟩
  rcases List.mem_cons.mp ha' with rfl | ha'
  · exact Or.inl hs
  · exact Or.inr ⟨a', ha', hs⟩

theorem Smallest.offer (h : Smallest key b (a :: as) s) (d : ℕ) :
    Smallest key (b.offer key a d) as s := by
  have hrest : ∀ a' ∈ as, ∀ k, key a' = some k → s ≤ k := fun a' ha' =>
    h.le a' (List.mem_cons_of_mem _ ha')
  cases hkey : key a with
  | none =>
    rw [offer_of_none hkey]
    refine ⟨h.le_key, hrest, h.attained_cons.imp_right fun hs => hs.resolve_left ?_⟩
    rw [hkey]
    rintro ⟨⟩
  | some k =>
    have hle : s ≤ k := h.le a List.mem_cons_self k hkey
    have hattained := h.attained_cons
    rw [hkey, Option.some.injEq] at hattained
    rcases lt_trichotomy k b.key with hlt | rfl | hgt
    · rw [offer_of_lt hkey hlt]
      exact ⟨hle, hrest, (hattained.resolve_left (hle.trans_lt hlt).ne).imp_left Eq.symm⟩
    · rw [offer_of_tie hkey]
      exact ⟨hle, hrest, hattained.elim Or.inl (Or.imp_left Eq.symm)⟩
    · rw [offer_of_gt hkey hgt]
      refine ⟨h.le_key, hrest, hattained.imp_right fun hs => hs.resolve_left ?_⟩
      exact (h.le_key.trans_lt hgt).ne'

theorem run_cons (draws : List ℕ) (b : Best α β) (a : α) (as : List α) :
    ∃ draws' d, run key draws b (a :: as) = run key draws' (b.offer key a d) as := by
  rw [run]
  split_ifs
  · exact ⟨_, _, rfl⟩
  · exact ⟨_, _, rfl⟩

/-- **The minimum.** Whatever is drawn, the item held at the end has the smallest key: it is the one
of before, or an item of the list. -/
theorem held_run (h : Smallest key b as s) (draws : List ℕ) :
    (s = b.key ∧ (run key draws b as).held = b.held) ∨
      ∃ a ∈ as, key a = some s ∧ (run key draws b as).held = some a := by
  induction as generalizing b draws with
  | nil =>
    refine Or.inl ⟨h.attained.resolve_right ?_, by rw [run]⟩
    rintro ⟨a, ha, -⟩
    cases ha
  | cons a as ih =>
    obtain ⟨draws', d, hrun⟩ : ∃ draws' d, run key draws b (a :: as) =
        run key draws' (b.offer key a d) as := run_cons draws b a as
    rw [hrun]
    rcases ih (h.offer d) draws' with ⟨hs, hheld⟩ | ⟨a', ha', hs, hheld⟩
    · rw [hheld]
      cases hkey : key a with
      | none =>
        rw [offer_of_none hkey] at hs ⊢
        exact Or.inl ⟨hs, rfl⟩
      | some k =>
        rcases lt_trichotomy k b.key with hlt | rfl | hgt
        · rw [offer_of_lt hkey hlt] at hs ⊢
          exact Or.inr ⟨a, List.mem_cons_self, by rw [hkey, hs], rfl⟩
        · rw [offer_of_tie hkey] at hs ⊢
          dsimp only at hs ⊢
          split_ifs
          · exact Or.inr ⟨a, List.mem_cons_self, by rw [hkey, hs], rfl⟩
          · exact Or.inl ⟨hs, rfl⟩
        · rw [offer_of_gt hkey hgt] at hs ⊢
          exact Or.inl ⟨hs, rfl⟩
    · exact Or.inr ⟨a', List.mem_cons_of_mem _ ha', hs, hheld⟩

/-! ## The law of the item held -/

theorem uniform_bind_apply (n : ℕ) (f : ℕ → PMF γ) (y : γ) :
    ((uniform n).bind f) y = (n + 1 : ℝ≥0∞)⁻¹ * ∑ i : Fin (n + 1), f (i.val + 1) y := by
  unfold uniform
  rw [PMF.bind_map, PMF.bind_apply, tsum_fintype, Finset.mul_sum]
  refine Finset.sum_congr rfl fun i _ => ?_
  rw [PMF.uniformOfFintype_apply, Fintype.card_fin]
  push_cast
  rfl

section Law

variable [DecidableEq γ] {g : Option α → γ} {y : γ}

/-- How many items with the smallest key there are in the end. -/
def total (key : α → Option β) (b : Best α β) (as : List α) (s : β) : ℕ :=
  (if s = b.key then b.ties else 0) + as.countP fun a => key a = some s

/-- How many of them `g` takes to `y`; those before the list count as the one that is held. -/
def hits (key : α → Option β) (g : Option α → γ) (y : γ) (b : Best α β) (as : List α)
    (s : β) : ℕ :=
  (if s = b.key ∧ g b.held = y then b.ties else 0) +
    as.countP fun a => key a = some s ∧ g (some a) = y

theorem total_offer (h : Smallest key b (a :: as) s) (d : ℕ) :
    total key (b.offer key a d) as s = total key b (a :: as) s := by
  unfold total
  rw [List.countP_cons]
  cases hkey : key a with
  | none => simp [offer_of_none hkey]
  | some k =>
    have hle : s ≤ k := h.le a List.mem_cons_self k hkey
    rcases lt_trichotomy k b.key with hlt | rfl | hgt
    · rw [offer_of_lt hkey hlt, if_neg (hle.trans_lt hlt).ne]
      simp [eq_comm]
      omega
    · rw [offer_of_tie hkey]
      by_cases hs : s = b.key
      · simp [hs]
        omega
      · simp [hs, Ne.symm hs]
    · rw [offer_of_gt hkey hgt]
      simp [(h.le_key.trans_lt hgt).ne']

/-- An item that takes no draw. -/
theorem hits_offer (h : Smallest key b (a :: as) s) (hkey : key a ≠ some b.key) (d : ℕ) :
    hits key g y (b.offer key a d) as s = hits key g y b (a :: as) s := by
  cases hk : key a with
  | none =>
    rw [offer_of_none hk]
    unfold hits
    rw [List.countP_cons]
    simp [hk]
  | some k =>
    have hle : s ≤ k := h.le a List.mem_cons_self k hk
    rcases lt_trichotomy k b.key with hlt | rfl | hgt
    · rw [offer_of_lt hk hlt]
      unfold hits
      rw [List.countP_cons]
      by_cases hs : s = k
      · subst hs
        have hbefore : (if s = b.key ∧ g b.held = y then b.ties else 0) = 0 :=
          if_neg fun hb => hlt.ne hb.1
        have hitem : (s = s ∧ g (some a) = y) ↔ decide (key a = some s ∧ g (some a) = y) = true := by
          rw [decide_eq_true_eq, hk]
          simp
        rw [hbefore, Nat.zero_add, Nat.add_comm]
        exact congrArg _ (if_congr hitem rfl rfl)
      · simp [hk, hs, Ne.symm hs, (hle.trans_lt hlt).ne]
    · exact absurd hk hkey
    · rw [offer_of_gt hk hgt]
      unfold hits
      rw [List.countP_cons]
      simp [hk, (h.le_key.trans_lt hgt).ne']

/-- A tie, over all its draws. -/
theorem sum_hits_offer (hkey : key a = some b.key) :
    ∑ i : Fin (b.ties + 1), hits key g y (b.offer key a (i.val + 1)) as s =
      (b.ties + 1) * hits key g y b (a :: as) s := by
  have hfirst : hits key g y (b.offer key a 1) as s =
      (if s = b.key ∧ g (some a) = y then b.ties + 1 else 0) +
        as.countP fun a => key a = some s ∧ g (some a) = y := by
    unfold hits
    rw [offer_of_tie hkey]
    simp
  have hothers : ∀ i : Fin b.ties, hits key g y (b.offer key a (i.succ.val + 1)) as s =
      (if s = b.key ∧ g b.held = y then b.ties + 1 else 0) +
        as.countP fun a => key a = some s ∧ g (some a) = y := by
    intro i
    have hties : ¬ (b.ties = 0 ∨ i.succ.val + 1 = 1) := by
      have := i.isLt
      simp
      omega
    unfold hits
    rw [offer_of_tie hkey, if_neg hties]
  have hzero : (0 : Fin (b.ties + 1)).val + 1 = 1 := rfl
  rw [Fin.sum_univ_succ, hzero, hfirst, Finset.sum_congr rfl fun i _ => hothers i, Finset.sum_const,
    Finset.card_univ, Fintype.card_fin, smul_eq_mul]
  unfold hits
  rw [List.countP_cons]
  by_cases hs : s = b.key
  · simp only [hkey, hs, true_and, decide_eq_true_eq]
    split_ifs <;> ring
  · simp only [hkey, hs, Ne.symm hs, Option.some.injEq, false_and, if_false, decide_false,
      Bool.false_eq_true]
    ring

/-- **Uniform ties.** Every item with the smallest key is held in the end with the same
probability. -/
theorem drawsLaw_map_run (h : Smallest key b as s) :
    (total key b as s : ℝ≥0∞) *
        ((drawsLaw key b as).map fun draws => g (run key draws b as).held) y =
      hits key g y b as s := by
  induction as generalizing b with
  | nil =>
    rw [drawsLaw, PMF.pure_map, PMF.pure_apply]
    have hs : s = b.key := h.attained.resolve_right (by rintro ⟨a, ha, -⟩; cases ha)
    unfold total hits
    subst hs
    by_cases hy : g b.held = y
    · simp [run, hy]
    · simp [run, hy, Ne.symm hy]
  | cons a as ih =>
    by_cases hkey : key a = some b.key
    · have hlaw : ((drawsLaw key b (a :: as)).map fun draws => g (run key draws b (a :: as)).held) =
          (uniform b.ties).bind fun d => (drawsLaw key (b.offer key a d) as).map fun draws =>
            g (run key draws (b.offer key a d) as).held := by
        rw [drawsLaw, if_pos hkey, PMF.map_bind]
        refine congrArg _ (funext fun d => ?_)
        rw [PMF.map_comp]
        refine congrArg (fun f => PMF.map f _) (funext fun draws => ?_)
        show g (run key (d :: draws) b (a :: as)).held = _
        rw [run, if_pos hkey]
        rfl
      have hstep : ∀ d, (total key b (a :: as) s : ℝ≥0∞) *
          ((drawsLaw key (b.offer key a d) as).map fun draws =>
            g (run key draws (b.offer key a d) as).held) y =
          hits key g y (b.offer key a d) as s := fun d => by
        rw [← total_offer h d]
        exact ih (h.offer d)
      rw [hlaw, uniform_bind_apply, mul_left_comm, Finset.mul_sum,
        Finset.sum_congr rfl fun i _ => hstep (i.val + 1), ← Nat.cast_sum, sum_hits_offer hkey]
      push_cast
      rw [← mul_assoc, ENNReal.inv_mul_cancel (by simp) (by simp), one_mul]
    · have hlaw : ((drawsLaw key b (a :: as)).map fun draws => g (run key draws b (a :: as)).held) =
          (drawsLaw key (b.offer key a 1) as).map fun draws =>
            g (run key draws (b.offer key a 1) as).held := by
        rw [drawsLaw, if_neg hkey]
        refine congrArg (fun f => PMF.map f _) (funext fun draws => ?_)
        rw [run, if_neg hkey]
      rw [hlaw, ← total_offer h 1, ← hits_offer h hkey 1]
      exact ih (h.offer 1)

end Law

end Reservoir
