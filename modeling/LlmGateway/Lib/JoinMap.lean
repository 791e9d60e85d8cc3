import Mathlib.Order.Bounds.Basic
import Mathlib.Order.MinMax
import Mathlib.Logic.Function.Basic

/-!
# Maps of join registers

A register map holds one element of a join-semilattice per key. Updates only join: the map after
any list of updates is, at each key, the least upper bound of what was there and of the updates
for that key (`isLUB_joinAll`). Order and repetition of the updates therefore do not matter
(`joinAll_congr`), and over a linear order the result is the largest of them
(`isGreatest_joinAll`).

`view_foldl` transports this to any state whose observations change by joins.
-/

namespace JoinMap

variable {κ α : Type*} [DecidableEq κ]

section Semilattice

variable [SemilatticeSup α]

/-- Join `u.2` into the register of the key `u.1`. -/
def join (m : κ → α) (u : κ × α) : κ → α := Function.update m u.1 (m u.1 ⊔ u.2)

/-- Join a list of updates, first to last. -/
def joinAll (m : κ → α) (us : List (κ × α)) : κ → α := us.foldl join m

theorem join_self (m : κ → α) (k : κ) (a : α) : join m (k, a) k = m k ⊔ a :=
  Function.update_self ..

theorem join_of_ne (m : κ → α) {u : κ × α} {k : κ} (h : k ≠ u.1) : join m u k = m k :=
  Function.update_of_ne h ..

theorem le_join (m : κ → α) (u : κ × α) (k : κ) : m k ≤ join m u k := by
  obtain ⟨k', a⟩ := u
  by_cases h : k = k'
  · subst h; rw [join_self]; exact le_sup_left
  · rw [join_of_ne m h]

theorem join_eq_self {m : κ → α} {u : κ × α} (h : u.2 ≤ m u.1) : join m u = m := by
  unfold join
  rw [sup_eq_left.mpr h, Function.update_eq_self]

theorem join_eq_update {m : κ → α} {u : κ × α} (h : m u.1 ≤ u.2) :
    join m u = Function.update m u.1 u.2 := by
  unfold join
  rw [sup_eq_right.mpr h]

/-- **Joins are least upper bounds.** -/
theorem isLUB_joinAll (m : κ → α) (us : List (κ × α)) (k : κ) :
    IsLUB (insert (m k) {a | (k, a) ∈ us}) (joinAll m us k) := by
  induction us generalizing m with
  | nil => simp [joinAll]
  | cons u us ih =>
    obtain ⟨hub, hleast⟩ := ih (join m u)
    obtain ⟨k', a'⟩ := u
    have hhead := hub (Set.mem_insert _ _)
    refine ⟨?_, ?_⟩
    · rintro a (rfl | ha)
      · exact (le_join m _ k).trans hhead
      · rcases List.mem_cons.mp ha with h | h
        · obtain ⟨rfl, rfl⟩ := Prod.mk.inj h
          rw [join_self] at hhead
          exact le_sup_right.trans hhead
        · exact hub (Set.mem_insert_of_mem _ h)
    · intro b hb
      refine hleast ?_
      rintro a (rfl | ha)
      · by_cases h : k = k'
        · subst h
          rw [join_self]
          exact sup_le (hb (Set.mem_insert _ _))
            (hb (Set.mem_insert_of_mem _ List.mem_cons_self))
        · rw [join_of_ne m h]
          exact hb (Set.mem_insert _ _)
      · exact hb (Set.mem_insert_of_mem _ (List.mem_cons_of_mem _ ha))

/-- **Order and repetition do not matter.** Lists with the same updates give the same map. -/
theorem joinAll_congr {m : κ → α} {us vs : List (κ × α)} (h : ∀ u, u ∈ us ↔ u ∈ vs) :
    joinAll m us = joinAll m vs := by
  funext k
  have hset : {a | (k, a) ∈ us} = {a | (k, a) ∈ vs} := Set.ext fun a => h (k, a)
  have hv := isLUB_joinAll m vs k
  rw [← hset] at hv
  exact (isLUB_joinAll m us k).unique hv

/-- A state whose observation `view` changes by joins observes the join of all its updates. -/
theorem view_foldl {S U : Type*} {apply : S → U → S} {view : S → κ → α} {upd : U → κ × α}
    (h : ∀ s u, view (apply s u) = join (view s) (upd u)) (s : S) (us : List U) :
    view (us.foldl apply s) = joinAll (view s) (us.map upd) := by
  induction us generalizing s with
  | nil => rfl
  | cons u us ih => rw [List.foldl_cons, ih, h]; rfl

end Semilattice

/-- Over a linear order the join of the updates is the largest of them. -/
theorem isGreatest_joinAll [LinearOrder α] (m : κ → α) (us : List (κ × α)) (k : κ) :
    IsGreatest (insert (m k) {a | (k, a) ∈ us}) (joinAll m us k) := by
  refine ⟨?_, (isLUB_joinAll m us k).1⟩
  induction us generalizing m with
  | nil => exact Set.mem_insert _ _
  | cons u us ih =>
    obtain ⟨k', a'⟩ := u
    rcases ih (join m (k', a')) with h | h
    · by_cases hk : k = k'
      · subst hk
        rw [join_self] at h
        rcases max_choice (m k) a' with hm | hm
        · exact Or.inl (h.trans hm)
        · exact Or.inr (List.mem_cons.mpr (Or.inl (Prod.ext rfl (h.trans hm))))
      · rw [join_of_ne m hk] at h
        exact Or.inl h
    · exact Or.inr (List.mem_cons_of_mem _ h)

end JoinMap
