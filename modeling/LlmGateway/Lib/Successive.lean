import Mathlib.Data.List.Nodup

/-!
# One choice after the other

A choice takes the first item of a list that is accepted and not excluded. `picks` makes several of
them, each without what the earlier ones have chosen. The result is the beginning of one fixed order
(`picks_findSome`): of the items that are accepted, each at its first place in the list.
-/

namespace Successive

variable {α β : Type*} [DecidableEq α]

/-- At most `n` choices, one after the other; what is chosen is excluded from then on. -/
def picks (choose : List α → Option β) (key : β → α) : ℕ → List α → List β
  | 0, _ => []
  | n + 1, excluded =>
    match choose excluded with
    | none => []
    | some b => b :: picks choose key n (key b :: excluded)

/-- The first accepted item that is not excluded. -/
def first (accept : α → Option β) (xs excluded : List α) : Option β :=
  xs.findSome? fun a => if a ∈ excluded then none else accept a

variable {accept : α → Option β} {key : β → α} {xs excluded : List α} {b : β} {rest : List β}

omit [DecidableEq α] in
theorem findSome?_filter {f g : α → Option β} {p : α → Bool}
    (h : ∀ a ∈ xs, (p a = true → f a = g a) ∧ (p a = false → g a = none)) :
    (xs.filter p).findSome? f = xs.findSome? g := by
  induction xs with
  | nil => rfl
  | cons a xs ih =>
    have ih := ih fun a' ha' => h a' (List.mem_cons_of_mem _ ha')
    obtain ⟨hsame, hnone⟩ := h a List.mem_cons_self
    cases hp : p a with
    | true =>
      rw [List.filter_cons_of_pos hp, List.findSome?_cons, List.findSome?_cons, hsame hp, ih]
    | false =>
      rw [List.filter_cons_of_neg (by simp [hp]), List.findSome?_cons, hnone hp]
      exact ih

theorem findSome?_eraseDups (g : α → Option β) (xs : List α) :
    xs.eraseDups.findSome? g = xs.findSome? g := by
  induction hn : xs.length using Nat.strongRecOn generalizing xs with
  | _ n ih =>
    cases xs with
    | nil => rfl
    | cons a xs =>
      rw [List.eraseDups_cons, List.findSome?_cons, List.findSome?_cons]
      cases hg : g a with
      | some b => rfl
      | none =>
        have hlt : (xs.filter fun b => !b == a).length < n := by
          rw [← hn, List.length_cons]
          exact Nat.lt_succ_of_le (List.length_filter_le _ _)
        dsimp only
        rw [ih _ hlt _ rfl]
        refine findSome?_filter fun a' _ => ⟨fun _ => rfl, fun ha' => ?_⟩
        rw [show a' = a by simpa using ha', hg]

theorem nodup_eraseDups (xs : List α) : xs.eraseDups.Nodup := by
  induction hn : xs.length using Nat.strongRecOn generalizing xs with
  | _ n ih =>
    cases xs with
    | nil => exact List.nodup_nil
    | cons a xs =>
      have hlt : (xs.filter fun b => !b == a).length < n := by
        rw [← hn, List.length_cons]
        exact Nat.lt_succ_of_le (List.length_filter_le _ _)
      rw [List.eraseDups_cons]
      refine List.nodup_cons.mpr ⟨fun hmem => ?_, ih _ hlt _ rfl⟩
      simpa using (List.mem_filter.mp (List.mem_eraseDups.mp hmem)).2

/-- What comes after the first result, when its item is left out. -/
theorem filterMap_filter_ne (hkey : ∀ a b, accept a = some b → key b = a) (hnodup : xs.Nodup)
    (h : xs.filterMap accept = b :: rest) :
    (xs.filter (· ≠ key b)).filterMap accept = rest := by
  induction xs with
  | nil => cases h
  | cons a xs ih =>
    obtain ⟨hnew, hnodup⟩ := List.nodup_cons.mp hnodup
    cases ha : accept a with
    | none =>
      rw [List.filterMap_cons_none ha] at h
      have hne : a ≠ key b := by
        rintro rfl
        obtain ⟨a', -, ha'⟩ := List.mem_filterMap.mp (h ▸ List.mem_cons_self : b ∈ _)
        rw [hkey a' b ha', ha'] at ha
        cases ha
      rw [List.filter_cons_of_pos (by simpa using hne), List.filterMap_cons_none ha]
      exact ih hnodup h
    | some b' =>
      rw [List.filterMap_cons_some ha] at h
      obtain ⟨rfl, rfl⟩ := List.cons.inj h
      rw [hkey a b' ha, List.filter_cons_of_neg (by simp), List.filter_eq_self.mpr]
      intro a' ha'
      rw [decide_eq_true_eq]
      rintro rfl
      exact hnew ha'

/-- **Choices follow one order.** -/
theorem picks_findSome (hkey : ∀ a b, accept a = some b → key b = a) (xs : List α) (n : ℕ)
    (excluded : List α) : picks (first accept xs) key n excluded =
      ((xs.eraseDups.filter (· ∉ excluded)).filterMap accept).take n := by
  induction n generalizing excluded with
  | zero => rfl
  | succ n ih =>
    have hfirst : first accept xs excluded =
        ((xs.eraseDups.filter (· ∉ excluded)).filterMap accept).head? := by
      rw [List.head?_filterMap, first, ← findSome?_eraseDups]
      refine (findSome?_filter fun a _ => ⟨fun ha => ?_, fun ha => ?_⟩).symm
      · exact (if_neg (by simpa using ha)).symm
      · exact if_pos (by simpa using ha)
    rw [picks, hfirst]
    cases horder : (xs.eraseDups.filter (· ∉ excluded)).filterMap accept with
    | nil => rfl
    | cons b rest =>
      dsimp only [List.head?_cons]
      rw [ih, List.take_succ_cons, ← filterMap_filter_ne hkey ((nodup_eraseDups xs).filter _) horder,
        List.filter_filter]
      simp only [List.mem_cons, not_or, Bool.decide_and, ne_eq]

end Successive
