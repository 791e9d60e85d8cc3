import Mathlib.Data.List.Infix
import Mathlib.Data.List.Nodup

/-!
# Runs of equal items

`collapse` reads a sequence from its beginning and takes every run of equal items once: an item is
added unless it is the last one added. On a sequence of blocks with different items, that gives the
items of the blocks that are not empty (`collapse_blocks`); a longer sequence gives a longer list
(`collapse_prefix`).
-/

namespace Runs

variable {α : Type*} [DecidableEq α] {xs l l' : List α} {x : α}

/-- Add an item, unless it is the last one already. -/
def push (xs : List α) (x : α) : List α := if xs.getLast? = some x then xs else xs ++ [x]

def collapse (l : List α) : List α := l.foldl push []

theorem push_of_notMem (h : x ∉ xs) : push xs x = xs ++ [x] :=
  if_neg fun hlast => h (List.mem_of_getLast? hlast)

theorem getLast?_push (xs : List α) (x : α) : (push xs x).getLast? = some x := by
  unfold push
  split_ifs with h
  · exact h
  · exact List.getLast?_concat

@[simp] theorem push_push (xs : List α) (x : α) : push (push xs x) x = push xs x :=
  if_pos (getLast?_push xs x)

theorem prefix_push (xs : List α) (x : α) : xs <+: push xs x := by
  unfold push
  split_ifs
  · exact List.prefix_rfl
  · exact List.prefix_append _ _

theorem prefix_foldl_push (xs l : List α) : xs <+: l.foldl push xs := by
  induction l generalizing xs with
  | nil => exact List.prefix_rfl
  | cons x l ih => exact (prefix_push xs x).trans (ih (push xs x))

theorem collapse_prefix (h : l <+: l') : collapse l <+: collapse l' := by
  obtain ⟨rest, rfl⟩ := h
  unfold collapse
  rw [List.foldl_append]
  exact prefix_foldl_push _ _

theorem foldl_push_replicate (xs : List α) (x : α) (n : ℕ) :
    (List.replicate (n + 1) x).foldl push xs = push xs x := by
  induction n with
  | zero => rfl
  | succ n ih =>
    rw [List.replicate_succ', List.foldl_append, ih]
    exact push_push xs x

theorem foldl_push_blocks {blocks : List (α × ℕ)} (hnodup : (blocks.map Prod.fst).Nodup)
    (hnew : ∀ b ∈ blocks, b.1 ∉ xs) :
    (blocks.flatMap fun b => List.replicate b.2 b.1).foldl push xs =
      xs ++ (blocks.filter fun b => 0 < b.2).map Prod.fst := by
  induction blocks generalizing xs with
  | nil => exact (List.append_nil xs).symm
  | cons b blocks ih =>
    obtain ⟨hfresh, htail⟩ := List.nodup_cons.mp hnodup
    have hrest : ∀ b' ∈ blocks, b'.1 ∉ xs := fun b' hb' => hnew b' (List.mem_cons_of_mem _ hb')
    rw [List.flatMap_cons, List.foldl_append]
    obtain ⟨x, n⟩ := b
    cases n with
    | zero => exact ih htail hrest
    | succ n =>
      rw [foldl_push_replicate, push_of_notMem (hnew _ List.mem_cons_self), ih htail]
      · rw [List.filter_cons_of_pos (by simp), List.map_cons, List.append_assoc]
        rfl
      · intro b' hb' hmem
        rcases List.mem_append.mp hmem with hmem | hmem
        · exact hrest b' hb' hmem
        · -- the items of the blocks are different
          rw [List.mem_singleton] at hmem
          exact hfresh (List.mem_map.mpr ⟨b', hb', hmem⟩)

/-- **Blocks.** The items of the blocks that are not empty, in their order. -/
theorem collapse_blocks {blocks : List (α × ℕ)} (hnodup : (blocks.map Prod.fst).Nodup) :
    collapse (blocks.flatMap fun b => List.replicate b.2 b.1) =
      (blocks.filter fun b => 0 < b.2).map Prod.fst := by
  unfold collapse
  rw [foldl_push_blocks hnodup (fun _ _ => List.not_mem_nil)]
  exact List.nil_append _

end Runs
