import Mathlib.Data.List.Range
import Mathlib.Data.List.Pairwise

/-!
# Work resumed at a counter

Items are delivered in attempts. Each attempt starts at the counter and delivers some consecutive
items; then the counter is moved past them, unless the attempt is lost. `deliveries` lists what all
attempts deliver, and `deliveries_inOrder_iff` says when that is a run of consecutive items: when
after a lost attempt that delivered something no attempt delivers anything.
-/

namespace Resume

/-- An attempt: how many items it delivers, and whether the counter misses them. -/
structure Attempt where
  count : ℕ
  lost : Bool

/-- The counter after an attempt. -/
def advance (n : ℕ) (a : Attempt) : ℕ := if a.lost then n else n + a.count

/-- The items delivered by attempts that start with the counter at `n`. -/
def deliveries : ℕ → List Attempt → List ℕ
  | _, [] => []
  | n, a :: as => List.range' n a.count ++ deliveries (advance n a) as

variable {n : ℕ} {a : Attempt} {as : List Attempt}

theorem deliveries_concat :
    deliveries n (as ++ [a]) = deliveries n as ++ List.range' (as.foldl advance n) a.count := by
  induction as generalizing n with
  | nil => simp [deliveries]
  | cons b as ih => simp [deliveries, ih]

theorem foldl_advance_concat :
    (as ++ [a]).foldl advance n = advance (as.foldl advance n) a := by
  simp

theorem le_advance : n ≤ advance n a := by
  unfold advance
  split_ifs <;> omega

theorem le_foldl_advance : n ≤ as.foldl advance n := by
  induction as generalizing n with
  | nil => exact le_rfl
  | cons a as ih => exact le_advance.trans ih

theorem foldl_advance_eq_iff : as.foldl advance n = n ↔ ∀ a ∈ as, a.lost = true ∨ a.count = 0 := by
  induction as generalizing n with
  | nil => simp
  | cons a as ih =>
    rw [List.foldl_cons, List.forall_mem_cons]
    have hfirst : advance n a = n ↔ a.lost = true ∨ a.count = 0 := by
      unfold advance
      split_ifs with hlost
      · simp [hlost]
      · simp [hlost]
    constructor
    · intro h
      have hrest : advance n a ≤ as.foldl advance (advance n a) := le_foldl_advance
      rw [h] at hrest
      have heq : advance n a = n := le_antisymm hrest le_advance
      rw [heq] at h
      exact ⟨hfirst.mp heq, ih.mp h⟩
    · rintro ⟨ha, has⟩
      rw [hfirst.mpr ha]
      exact ih.mpr has

theorem deliveries_eq_nil_iff : deliveries n as = [] ↔ ∀ a ∈ as, a.count = 0 := by
  induction as generalizing n with
  | nil => simp [deliveries]
  | cons b as ih => simp [deliveries, ih, List.range'_eq_nil_iff]

theorem mem_deliveries_of_lt {k : ℕ} (hn : n ≤ k) (hk : k < as.foldl advance n) :
    k ∈ deliveries n as := by
  induction as generalizing n with
  | nil => exact absurd hk (not_lt.mpr hn)
  | cons b as ih =>
    rw [deliveries, List.mem_append, List.mem_range'_1]
    by_cases hpassed : advance n b ≤ k
    · exact Or.inr (ih hpassed hk)
    · refine Or.inl ⟨hn, ?_⟩
      unfold advance at hpassed
      split_ifs at hpassed <;> omega

/-- However far the deliveries have come: with an item, all those from the start up to it. -/
theorem mem_take_deliveries {m j k : ℕ} (hk : k ∈ (deliveries n as).take m) (hn : n ≤ j)
    (hjk : j ≤ k) : j ∈ (deliveries n as).take m := by
  induction as generalizing n m with
  | nil =>
    rw [deliveries, List.take_nil] at hk
    cases hk
  | cons a as ih =>
    rw [deliveries, List.take_append, List.length_range', List.mem_append] at hk ⊢
    by_cases hm : m ≤ a.count
    · -- the first attempt is not through
      rw [List.take_range'_of_length_ge hm, Nat.sub_eq_zero_of_le hm, List.take_zero] at hk ⊢
      have hk := List.mem_range'_1.mp (hk.resolve_right List.not_mem_nil)
      exact Or.inl (List.mem_range'_1.mpr ⟨hn, by omega⟩)
    · rw [List.take_range'_of_length_le (by omega), List.mem_range'_1] at hk ⊢
      by_cases hj : j < n + a.count
      · exact Or.inl ⟨hn, hj⟩
      · refine Or.inr (ih (hk.resolve_left (by omega)) ?_)
        unfold advance
        split_ifs <;> omega

/-- While the counter has not come to `m`, everything below `m` has been delivered if one attempt
came to `m`. -/
theorem forall_mem_deliveries_concat {m : ℕ} (hm : as.foldl advance n < m) :
    (∀ k, n ≤ k → k < m → k ∈ deliveries n (as ++ [a])) ↔
      (∀ k, n ≤ k → k < m → k ∈ deliveries n as) ∨ m ≤ as.foldl advance n + a.count := by
  have hstart : n ≤ as.foldl advance n := le_foldl_advance
  simp only [deliveries_concat, List.mem_append, List.mem_range'_1]
  constructor
  · intro h
    rcases h (m - 1) (by omega) (by omega) with hlast | hlast
    · refine Or.inl fun k hk hkm => ?_
      rw [← List.take_length (l := deliveries n as)] at hlast ⊢
      exact mem_take_deliveries hlast hk (by omega)
    · exact Or.inr (by omega)
  · rintro (hall | hlast) k hk hkm
    · exact Or.inl (hall k hk hkm)
    · by_cases hpassed : k < as.foldl advance n
      · exact Or.inl (mem_deliveries_of_lt hk hpassed)
      · exact Or.inr (by omega)

theorem deliveries_head (h : deliveries n as ≠ []) : (deliveries n as).head? = some n := by
  induction as generalizing n with
  | nil => exact absurd rfl h
  | cons b as ih =>
    unfold deliveries at h ⊢
    by_cases hb : b.count = 0
    · -- an empty attempt leaves the counter alone
      have hadvance : advance n b = n := by
        unfold advance
        split_ifs <;> omega
      rw [hb, hadvance] at h ⊢
      exact ih h
    · obtain ⟨k, hk⟩ := Nat.exists_eq_succ_of_ne_zero hb
      simp [hk, List.range'_succ]

theorem append_eq_range' {k m : ℕ} {l : List ℕ} :
    List.range' n k ++ l = List.range' n m ↔ k ≤ m ∧ l = List.range' (n + k) (m - k) := by
  constructor
  · intro h
    have hle : k ≤ m := by
      have hlen := congrArg List.length h
      simp at hlen
      omega
    obtain ⟨d, rfl⟩ := Nat.exists_eq_add_of_le hle
    rw [← List.range'_append_1] at h
    rw [Nat.add_sub_cancel_left]
    exact ⟨hle, List.append_cancel_left h⟩
  · rintro ⟨hle, rfl⟩
    obtain ⟨d, rfl⟩ := Nat.exists_eq_add_of_le hle
    rw [Nat.add_sub_cancel_left, List.range'_append_1]

/-- **In order.** The items delivered are consecutive exactly when no attempt delivers anything
after a lost one that did. -/
theorem deliveries_inOrder_iff :
    (∃ m, deliveries n as = List.range' n m) ↔
      as.Pairwise fun a b => a.lost = true → 0 < a.count → b.count = 0 := by
  induction as generalizing n with
  | nil => exact iff_of_true ⟨0, rfl⟩ List.Pairwise.nil
  | cons b as ih =>
    rw [List.pairwise_cons]
    unfold deliveries
    simp only [append_eq_range']
    by_cases hlost : b.lost = true ∧ 0 < b.count
    · -- the counter goes back below what was delivered
      obtain ⟨hlost, hpos⟩ := hlost
      have hadvance : advance n b = n := by simp [advance, hlost]
      rw [hadvance]
      constructor
      · rintro ⟨m, -, hm⟩
        have hnil : deliveries n as = [] := by
          by_contra hne
          have hhead := deliveries_head hne
          rw [hm] at hhead hne
          obtain ⟨d, hd⟩ : ∃ d, m - b.count = d + 1 := by
            cases hd : m - b.count with
            | zero => exact absurd (by rw [hd]; rfl) hne
            | succ d => exact ⟨d, rfl⟩
          rw [hd, List.range'_succ, List.head?_cons, Option.some.injEq] at hhead
          omega
        have hzero := deliveries_eq_nil_iff.mp hnil
        exact ⟨fun c hc _ _ => hzero c hc, ih.mp ⟨0, hnil⟩⟩
      · rintro ⟨hzero, -⟩
        have hnil : deliveries n as = [] :=
          deliveries_eq_nil_iff.mpr fun c hc => hzero c hc hlost hpos
        exact ⟨b.count, le_refl _, by rw [hnil, Nat.sub_self]; rfl⟩
    · -- the counter is past what was delivered
      have hadvance : advance n b = n + b.count := by
        unfold advance
        split_ifs with h
        · have hcount : b.count = 0 := by
            by_contra hne
            exact hlost ⟨h, Nat.pos_of_ne_zero hne⟩
          rw [hcount, Nat.add_zero]
        · rfl
      rw [hadvance]
      constructor
      · rintro ⟨m, -, hm⟩
        exact ⟨fun c _ h hpos => absurd ⟨h, hpos⟩ hlost, ih.mp ⟨_, hm⟩⟩
      · rintro ⟨-, hrest⟩
        obtain ⟨m, hm⟩ := ih.mpr hrest
        refine ⟨b.count + m, Nat.le_add_right _ _, ?_⟩
        rw [hm, Nat.add_sub_cancel_left]

end Resume
