import Mathlib.Data.List.Pairwise
import Mathlib.Order.Lattice

/-!
# Ordered maps

A map with ordered keys is the list of its entries with the keys strictly increasing. `insert`
overwrites; `clockwise k` reads the entries around the circle, from the first key at or above `k`.

`walk` is a loop over the circle with a position that goes back to the beginning at the end of the
map, and a flag for that. `walk_eq`: it ends, and finds what a search of `clockwise` finds.
-/

/-- A finite map with its entries in the order of the keys. -/
structure OrderedMap (κ α : Type*) [LinearOrder κ] where
  entries : List (κ × α)
  sorted : entries.Pairwise fun x y => x.1 < y.1

namespace OrderedMap

variable {κ α β : Type*} [LinearOrder κ]

def empty : OrderedMap κ α := ⟨[], List.Pairwise.nil⟩

/-- Insert into a list of entries, in place of one with the same key. -/
def insertEntry (k : κ) (a : α) : List (κ × α) → List (κ × α)
  | [] => [(k, a)]
  | x :: xs =>
    if k < x.1 then (k, a) :: x :: xs
    else if k = x.1 then (k, a) :: xs
    else x :: insertEntry k a xs

theorem fst_of_mem_insertEntry {k : κ} {a : α} {xs : List (κ × α)} {y : κ × α}
    (hy : y ∈ insertEntry k a xs) : y.1 = k ∨ y ∈ xs := by
  induction xs with
  | nil => exact Or.inl (by rw [List.mem_singleton.mp hy])
  | cons x xs ih =>
    unfold insertEntry at hy
    split_ifs at hy
    · rcases List.mem_cons.mp hy with rfl | hy
      · exact Or.inl rfl
      · exact Or.inr hy
    · rcases List.mem_cons.mp hy with rfl | hy
      · exact Or.inl rfl
      · exact Or.inr (List.mem_cons_of_mem _ hy)
    · rcases List.mem_cons.mp hy with rfl | hy
      · exact Or.inr List.mem_cons_self
      · exact (ih hy).imp_right (List.mem_cons_of_mem _)

theorem sorted_insertEntry (k : κ) (a : α) {xs : List (κ × α)}
    (hxs : xs.Pairwise fun x y => x.1 < y.1) :
    (insertEntry k a xs).Pairwise fun x y => x.1 < y.1 := by
  induction xs with
  | nil => exact List.pairwise_singleton _ _
  | cons x xs ih =>
    obtain ⟨hhead, htail⟩ := List.pairwise_cons.mp hxs
    unfold insertEntry
    split_ifs with hlt heq
    · refine List.pairwise_cons.mpr ⟨fun y hy => ?_, hxs⟩
      rcases List.mem_cons.mp hy with rfl | hy
      · exact hlt
      · exact hlt.trans (hhead y hy)
    · exact List.pairwise_cons.mpr ⟨fun y hy => heq ▸ hhead y hy, htail⟩
    · refine List.pairwise_cons.mpr ⟨fun y hy => ?_, ih htail⟩
      rcases fst_of_mem_insertEntry hy with hk | hy
      · rw [hk]
        exact lt_of_le_of_ne (not_lt.mp hlt) (Ne.symm heq)
      · exact hhead y hy

/-- `m[k] = a`. -/
def insert (m : OrderedMap κ α) (k : κ) (a : α) : OrderedMap κ α :=
  ⟨insertEntry k a m.entries, sorted_insertEntry k a m.sorted⟩

theorem length_insertEntry_le (k : κ) (a : α) (xs : List (κ × α)) :
    (insertEntry k a xs).length ≤ xs.length + 1 := by
  induction xs with
  | nil => exact le_rfl
  | cons x xs ih =>
    unfold insertEntry
    split_ifs
    · exact le_rfl
    · exact Nat.le_succ _
    · exact Nat.succ_le_succ ih

theorem length_insert_le (m : OrderedMap κ α) (k : κ) (a : α) :
    (m.insert k a).entries.length ≤ m.entries.length + 1 :=
  length_insertEntry_le k a m.entries

/-- All values, from the first key at or above `k` to the end and then from the beginning. -/
def clockwise (m : OrderedMap κ α) (k : κ) : List α :=
  ((m.entries.filter fun x => k ≤ x.1) ++ m.entries.filter fun x => x.1 < k).map Prod.snd

theorem length_clockwise (m : OrderedMap κ α) (k : κ) :
    (m.clockwise k).length = m.entries.length := by
  have hperm := List.filter_append_perm (fun x => decide (k ≤ x.1)) m.entries
  simp only [← decide_not, not_le] at hperm
  rw [clockwise, List.length_map, hperm.length_eq]

/-! ## The entries of a map built by insertions -/

variable {m : OrderedMap κ α} {k : κ} {a : α} {x : κ × α}

theorem mem_insertEntry {xs : List (κ × α)} (hxs : xs.Pairwise fun x y => x.1 < y.1) :
    x ∈ insertEntry k a xs ↔ x = (k, a) ∨ x.1 ≠ k ∧ x ∈ xs := by
  induction xs with
  | nil => simp [insertEntry]
  | cons y ys ih =>
    obtain ⟨hhead, htail⟩ := List.pairwise_cons.mp hxs
    have hne : ∀ z ∈ ys, k ≤ y.1 → z.1 ≠ k := fun z hz hle => (hle.trans_lt (hhead z hz)).ne'
    unfold insertEntry
    split_ifs with hlt heq
    · have hy : y.1 ≠ k := hlt.ne'
      simp only [List.mem_cons]
      constructor
      · rintro (h | rfl | h)
        · exact Or.inl h
        · exact Or.inr ⟨hy, Or.inl rfl⟩
        · exact Or.inr ⟨hne x h hlt.le, Or.inr h⟩
      · rintro (h | ⟨-, h⟩)
        · exact Or.inl h
        · exact Or.inr h
    · simp only [List.mem_cons]
      constructor
      · rintro (h | h)
        · exact Or.inl h
        · exact Or.inr ⟨hne x h heq.le, Or.inr h⟩
      · rintro (h | ⟨hxk, rfl | h⟩)
        · exact Or.inl h
        · exact absurd heq.symm hxk
        · exact Or.inr h
    · simp only [List.mem_cons, ih htail]
      have hy : y.1 ≠ k := fun h => heq h.symm
      constructor
      · rintro (rfl | h | ⟨hxk, h⟩)
        · exact Or.inr ⟨hy, Or.inl rfl⟩
        · exact Or.inl h
        · exact Or.inr ⟨hxk, Or.inr h⟩
      · rintro (h | ⟨hxk, h | h⟩)
        · exact Or.inr (Or.inl h)
        · exact Or.inl h
        · exact Or.inr (Or.inr ⟨hxk, h⟩)

theorem mem_insert : x ∈ (m.insert k a).entries ↔ x = (k, a) ∨ x.1 ≠ k ∧ x ∈ m.entries :=
  mem_insertEntry m.sorted

/-- Insertions with no two values for one key. -/
theorem mem_foldl_insert {l : List (κ × α)} (hl : ∀ y ∈ l, ∀ z ∈ l, y.1 = z.1 → y = z) :
    x ∈ (l.foldl (fun m y => m.insert y.1 y.2) m).entries ↔
      x ∈ l ∨ (∀ y ∈ l, x.1 ≠ y.1) ∧ x ∈ m.entries := by
  induction l generalizing m with
  | nil => simp
  | cons y l ih =>
    have hl' : ∀ z ∈ l, ∀ w ∈ l, z.1 = w.1 → z = w := fun z hz w hw =>
      hl z (List.mem_cons_of_mem _ hz) w (List.mem_cons_of_mem _ hw)
    rw [List.foldl_cons, ih hl', mem_insert, List.mem_cons, List.forall_mem_cons]
    constructor
    · rintro (hx | ⟨hx, rfl | ⟨hxy, hm⟩⟩)
      · exact Or.inl (Or.inr hx)
      · exact Or.inl (Or.inl rfl)
      · exact Or.inr ⟨⟨hxy, hx⟩, hm⟩
    · rintro ((rfl | hx) | ⟨⟨hxy, hx⟩, hm⟩)
      · by_cases hmem : x ∈ l
        · exact Or.inl hmem
        · refine Or.inr ⟨fun z hz heq => hmem ?_, Or.inl rfl⟩
          rwa [hl x List.mem_cons_self z (List.mem_cons_of_mem _ hz) heq]
      · exact Or.inl hx
      · exact Or.inr ⟨hx, Or.inr ⟨hxy, hm⟩⟩

theorem entries_ext {xs ys : List (κ × α)} (hxs : xs.Pairwise fun x y => x.1 < y.1)
    (hys : ys.Pairwise fun x y => x.1 < y.1) (h : ∀ x, x ∈ xs ↔ x ∈ ys) : xs = ys := by
  have hnodup : ∀ {zs : List (κ × α)}, (zs.Pairwise fun x y => x.1 < y.1) → zs.Nodup :=
    fun hzs => hzs.imp fun hlt heq => hlt.ne (congrArg Prod.fst heq)
  have hperm : xs.Perm ys := (List.perm_ext_iff_of_nodup (hnodup hxs) (hnodup hys)).mpr h
  exact hperm.eq_of_pairwise (fun x y _ _ hxy hyx => absurd (hxy.trans hyx) (lt_irrefl _)) hxs hys

theorem clockwise_filter {m' : OrderedMap κ α} {q : α → Bool} (k : κ)
    (h : ∀ x, x ∈ m'.entries ↔ x ∈ m.entries ∧ q x.2 = true) :
    m'.clockwise k = (m.clockwise k).filter q := by
  have hentries : m'.entries = m.entries.filter fun x => q x.2 :=
    entries_ext m'.sorted (m.sorted.filter _) fun x => by rw [h, List.mem_filter]
  rw [clockwise, clockwise, hentries, List.filter_map, List.filter_append, List.filter_filter,
    List.filter_filter, List.filter_filter, List.filter_filter]
  simp only [Function.comp_def, Bool.and_comm]

/-! ## A walk around the circle -/

variable {f : α → Option β} {start : κ}

/-- The position of the first key at or above `k`; the size of the map if there is none. -/
def lowerBound (m : OrderedMap κ α) (k : κ) : ℕ := (m.entries.takeWhile fun x => x.1 < k).length

/-- The loop of a walk that began at the key `start`, from the position `it`. It goes on to the
beginning at the end of the map, and stops at a key at or above `start` once it has. There is no
result without fuel. -/
def walkFrom (m : OrderedMap κ α) (f : α → Option β) (start : κ) :
    ℕ → ℕ → Bool → Option (Option β)
  | 0, _, _ => none
  | fuel + 1, it, wrapped =>
    m.entries[it]?.bind fun x =>
      match f x.2 with
      | some b => some (some b)
      | none =>
        let atEnd : Bool := it + 1 = m.entries.length
        let it := if atEnd then 0 else it + 1
        m.entries[it]?.bind fun y =>
          if (wrapped || atEnd) && start ≤ y.1 then some none
          else m.walkFrom f start fuel it (wrapped || atEnd)

/-- Search the values with `f`, from the first key at or above `k` around the circle. -/
def walk (m : OrderedMap κ α) (f : α → Option β) (k : κ) (fuel : ℕ) : Option (Option β) :=
  if m.entries = [] then some none
  else
    let it := if m.lowerBound k = m.entries.length then 0 else m.lowerBound k
    m.entries[it]?.bind fun x => m.walkFrom f x.1 fuel it false

theorem filter_keys (k : κ) {xs : List (κ × α)} (hxs : xs.Pairwise fun x y => x.1 < y.1) :
    (xs.filter fun x => x.1 < k) = xs.takeWhile (fun x => x.1 < k) ∧
      (xs.filter fun x => k ≤ x.1) = xs.dropWhile (fun x => x.1 < k) := by
  induction xs with
  | nil => exact ⟨rfl, rfl⟩
  | cons x xs ih =>
    obtain ⟨hhead, htail⟩ := List.pairwise_cons.mp hxs
    obtain ⟨ih₁, ih₂⟩ := ih htail
    by_cases hx : x.1 < k
    · simp [hx, not_le.mpr hx, ih₁, ih₂]
    · have hle : k ≤ x.1 := not_lt.mp hx
      have habove : ∀ y ∈ xs, k ≤ y.1 := fun y hy => hle.trans (hhead y hy).le
      simp only [List.filter_cons, List.takeWhile_cons, List.dropWhile_cons, hx, hle, decide_false,
        decide_true, if_true, Bool.false_eq_true, if_false]
      refine ⟨List.filter_eq_nil_iff.mpr fun y hy => ?_, ?_⟩
      · simpa using habove y hy
      · rw [List.filter_eq_self.mpr fun y hy => by simpa using habove y hy]

/-- The part of the walk before it wraps around. -/
theorem walkFrom_rest {ps xs : List (κ × α)} {fuel : ℕ} (hm : m.entries = ps ++ xs) (hne : xs ≠ [])
    (hfuel : xs.length ≤ fuel) :
    m.walkFrom f start fuel ps.length false =
      match xs.findSome? fun x => f x.2 with
      | some b => some (some b)
      | none => m.entries[0]?.bind fun y =>
          if start ≤ y.1 then some none else m.walkFrom f start (fuel - xs.length) 0 true := by
  induction xs generalizing ps fuel with
  | nil => exact absurd rfl hne
  | cons x xs ih =>
    obtain ⟨fuel, rfl⟩ : ∃ n, fuel = n + 1 := ⟨fuel - 1, by simp at hfuel; omega⟩
    have hx : m.entries[ps.length]? = some x := by simp [hm]
    rw [walkFrom, hx, Option.bind_some, List.findSome?_cons]
    cases hf : f x.2 with
    | some b => rfl
    | none =>
      dsimp only
      cases xs with
      | nil =>
        have hend : ps.length + 1 = m.entries.length := by simp [hm]
        simp [hend]
      | cons y ys =>
        have hend : ps.length + 1 ≠ m.entries.length := by simp [hm]
        have hy : m.entries[ps.length + 1]? = some y := by simp [hm]
        have hstep := @ih (ps ++ [x]) fuel (by simp [hm]) (by simp) (by simp at hfuel ⊢; omega)
        rw [List.length_append, List.length_singleton] at hstep
        simp only [hend, decide_false, Bool.false_eq_true, if_false, hy, Option.bind_some,
          Bool.or_self, Bool.false_and, hstep, List.length_cons, Nat.add_sub_add_right]

/-- The part of the walk after it has wrapped around: up to the first key at or above `start`. -/
theorem walkFrom_wrapped {ps xs rest : List (κ × α)} {y : κ × α} {fuel : ℕ}
    (hm : m.entries = ps ++ xs ++ y :: rest) (hxs : ∀ x ∈ xs, x.1 < start) (hy : start ≤ y.1)
    (hne : xs ≠ []) (hfuel : xs.length ≤ fuel) :
    m.walkFrom f start fuel ps.length true = some (xs.findSome? fun x => f x.2) := by
  induction xs generalizing ps fuel with
  | nil => exact absurd rfl hne
  | cons x xs ih =>
    obtain ⟨fuel, rfl⟩ : ∃ n, fuel = n + 1 := ⟨fuel - 1, by simp at hfuel; omega⟩
    have hx : m.entries[ps.length]? = some x := by simp [hm]
    have hend : ps.length + 1 ≠ m.entries.length := by simp [hm]
    rw [walkFrom, hx, Option.bind_some, List.findSome?_cons]
    cases hf : f x.2 with
    | some b => rfl
    | none =>
      dsimp only
      cases xs with
      | nil =>
        have hnext : m.entries[ps.length + 1]? = some y := by simp [hm]
        simp [hend, hnext, hy]
      | cons z zs =>
        have hnext : m.entries[ps.length + 1]? = some z := by simp [hm]
        have hz : ¬ start ≤ z.1 := not_le.mpr (hxs z (by simp))
        have hstep := @ih (ps ++ [x]) fuel (by simp [hm])
          (fun u hu => hxs u (List.mem_cons_of_mem _ hu)) (by simp) (by simp at hfuel ⊢; omega)
        rw [List.length_append, List.length_singleton] at hstep
        simp only [hend, decide_false, Bool.false_eq_true, if_false, hnext, Option.bind_some,
          Bool.true_or, Bool.true_and, hz, hstep]

/-- **A walk ends**, and finds the first value on the way around the circle. -/
theorem walk_eq {fuel : ℕ} (hfuel : m.entries.length ≤ fuel) :
    m.walk f k fuel = some ((m.clockwise k).findSome? f) := by
  obtain ⟨hbelow, habove⟩ := filter_keys k m.sorted
  have hsplit : m.entries = (m.entries.takeWhile fun x => x.1 < k) ++
      m.entries.dropWhile fun x => x.1 < k := List.takeWhile_append_dropWhile.symm
  have hkeys : ∀ x ∈ m.entries.takeWhile (fun x => x.1 < k), x.1 < k := by
    intro x hx
    rw [← hbelow] at hx
    simpa using (List.mem_filter.mp hx).2
  have hdrop : ∀ x ∈ m.entries.dropWhile (fun x => x.1 < k), k ≤ x.1 := by
    intro x hx
    rw [← habove] at hx
    simpa using (List.mem_filter.mp hx).2
  unfold walk clockwise lowerBound
  rw [hbelow, habove, List.findSome?_map, List.findSome?_append]
  generalize (m.entries.takeWhile fun x => x.1 < k) = below at hsplit hkeys ⊢
  generalize (m.entries.dropWhile fun x => x.1 < k) = above at hsplit hdrop ⊢
  by_cases hnil : m.entries = []
  · rw [if_pos hnil]
    rw [hnil] at hsplit
    obtain ⟨rfl, rfl⟩ := List.append_eq_nil_iff.mp hsplit.symm
    rfl
  rw [if_neg hnil]
  cases above with
  | nil =>
    -- every key is below `k`: the walk begins at the beginning, where it ends
    rw [List.append_nil] at hsplit
    obtain ⟨x, xs, rfl⟩ := List.exists_cons_of_ne_nil (hsplit ▸ hnil)
    have hwalk := @walkFrom_rest _ _ _ _ m f x.1 [] (x :: xs) fuel hsplit (by simp)
      (by rwa [← hsplit])
    rw [List.length_nil] at hwalk
    simp only [hsplit, if_true, List.getElem?_cons_zero, Option.bind_some, hwalk, le_refl,
      List.findSome?_nil, Option.none_or, Function.comp_def]
    cases List.findSome? (fun x => f x.2) (x :: xs) <;> rfl
  | cons y ys =>
    have hlower : below.length ≠ m.entries.length := by simp [hsplit]
    have hy : m.entries[below.length]? = some y := by simp [hsplit]
    have hwalk := @walkFrom_rest _ _ _ _ m f y.1 below (y :: ys) fuel hsplit (by simp)
      (by simp [hsplit] at hfuel ⊢; omega)
    simp only [hlower, if_false, hy, Option.bind_some, hwalk, Function.comp_def]
    cases hfound : List.findSome? (fun x => f x.2) (y :: ys) with
    | some b => rfl
    | none =>
      dsimp only
      rw [Option.none_or]
      cases below with
      | nil =>
        -- the first key is the start
        simp [hsplit]
      | cons x xs =>
        have hx : ¬ y.1 ≤ x.1 :=
          not_le.mpr ((hkeys x (by simp)).trans_le (hdrop y (by simp)))
        have hwrap := @walkFrom_wrapped _ _ _ _ m f y.1 [] (x :: xs) ys y
          (fuel - (y :: ys).length) (by simpa using hsplit)
          (fun u hu => (hkeys u hu).trans_le (hdrop y (by simp))) le_rfl (by simp)
          (by simp [hsplit] at hfuel ⊢; omega)
        rw [List.length_nil] at hwrap
        simp only [hsplit, List.cons_append, List.getElem?_cons_zero, Option.bind_some, hx,
          if_false, hwrap]

end OrderedMap
