import Mathlib.Data.List.TakeWhile
import Mathlib.Order.Lattice

/-!
# Items that are handed out a few times

Items are posted one after another, and a reader takes some of them at a time, the oldest first.
An item is pending until it has been handed out `limit` times or `cap` newer items have been posted:
`pending`, over the log of everything that was ever posted.

A sender keeps no log but a deque: `push` drops the front of a full one, `send` counts the items it
hands out and drops those at the front that are spent. `Keeps`: in every such run the deque is the
pending part of the log. It works because an older item of the deque has not been handed out less
often than a newer one, so that the spent ones are in front. `left` is how often some of the items
can still be handed out.
-/

namespace SendQueue

/-- An item of the log, and how often it has been handed out. -/
structure Posted (α : Type*) where
  item : α
  returned : ℕ := 0
  deriving DecidableEq, Repr

variable {α : Type*} {limit cap n m : ℕ} {log b old newer : List (Posted α)} {p : Posted α} {x : α}

/-- The item once it has been handed out once more. -/
def Posted.again (p : Posted α) : Posted α := { p with returned := p.returned + 1 }

/-- Handed out often enough. -/
def Posted.spent (limit : ℕ) (p : Posted α) : Bool := limit ≤ p.returned

/-! ## The log -/

/-- The items that have been handed out less than `limit` times, with less than `cap` newer ones. -/
def pending (limit cap : ℕ) : List (Posted α) → List (Posted α)
  | [] => []
  | p :: newer =>
    if p.returned < limit ∧ newer.length < cap then p :: pending limit cap newer
    else pending limit cap newer

/-- The log once the first `m` pending items have been handed out. -/
def handOut (limit cap : ℕ) : ℕ → List (Posted α) → List (Posted α)
  | _, [] => []
  | 0, log => log
  | m + 1, p :: newer =>
    if p.returned < limit ∧ newer.length < cap then p.again :: handOut limit cap m newer
    else p :: handOut limit cap (m + 1) newer

/-- The log once an item has been posted. -/
def post (x : α) (log : List (Posted α)) : List (Posted α) := log ++ [⟨x, 0⟩]

/-! ## The deque -/

def push (cap : ℕ) (x : α) (b : List (Posted α)) : List (Posted α) :=
  (if cap ≤ b.length then b.tail else b) ++ [⟨x, 0⟩]

def send (limit m : ℕ) (b : List (Posted α)) : List (Posted α) :=
  ((b.take m).map Posted.again ++ b.drop m).dropWhile (Posted.spent limit)

/-! ## What is not pending any more -/

/-- None of the items is pending, with `n` more items posted after them. -/
def Gone (limit cap n : ℕ) : List (Posted α) → Prop
  | [] => True
  | p :: newer => (limit ≤ p.returned ∨ cap ≤ newer.length + n) ∧ Gone limit cap n newer

theorem Gone.mono (h : Gone limit cap n old) (hn : n ≤ m) : Gone limit cap m old := by
  induction old with
  | nil => trivial
  | cons p old ih => exact ⟨h.1.imp_right fun hcap => by omega, ih h.2⟩

theorem Gone.append {mid : List (Posted α)} (h : Gone limit cap (mid.length + n) old)
    (hmid : Gone limit cap n mid) : Gone limit cap n (old ++ mid) := by
  induction old with
  | nil => exact hmid
  | cons p old ih =>
    refine ⟨h.1.imp_right fun hcap => ?_, ih h.2⟩
    show cap ≤ (old ++ mid).length + n
    rw [List.length_append]
    omega

/-- Spent items are gone, however few items come after them. -/
theorem gone_of_spent (h : ∀ p ∈ old, limit ≤ p.returned) : Gone limit cap n old := by
  induction old with
  | nil => trivial
  | cons p old ih =>
    exact ⟨Or.inl (h p List.mem_cons_self), ih fun q hq => h q (List.mem_cons_of_mem _ hq)⟩

theorem not_pending_of_gone (h : Gone limit cap b.length (p :: old)) :
    ¬ (p.returned < limit ∧ (old ++ b).length < cap) := by
  rintro ⟨hreturned, hcap⟩
  rw [List.length_append] at hcap
  rcases h.1 with hspent | hfull <;> omega

theorem pending_append (h : Gone limit cap b.length old) :
    pending limit cap (old ++ b) = pending limit cap b := by
  induction old with
  | nil => rfl
  | cons p old ih =>
    rw [List.cons_append, pending, if_neg (not_pending_of_gone h)]
    exact ih h.2

theorem handOut_append (h : Gone limit cap b.length old) :
    handOut limit cap m (old ++ b) = old ++ handOut limit cap m b := by
  induction old with
  | nil => rfl
  | cons p old ih =>
    cases m with
    | zero => cases b <;> simp [handOut]
    | succ m =>
      rw [List.cons_append, handOut, if_neg (not_pending_of_gone h), ih h.2, List.cons_append]

/-! ## What is pending -/

theorem pending_eq_self (h : ∀ p ∈ b, p.returned < limit) (hcap : b.length ≤ cap) :
    pending limit cap b = b := by
  induction b with
  | nil => rfl
  | cons p b ih =>
    have hlength : b.length + 1 ≤ cap := hcap
    rw [pending, if_pos ⟨h p List.mem_cons_self, by omega⟩,
      ih (fun q hq => h q (List.mem_cons_of_mem _ hq)) (by omega)]

theorem handOut_eq (h : ∀ p ∈ b, p.returned < limit) (hcap : b.length ≤ cap) :
    handOut limit cap m b = (b.take m).map Posted.again ++ b.drop m := by
  induction b generalizing m with
  | nil => cases m <;> rfl
  | cons p b ih =>
    have hlength : b.length + 1 ≤ cap := hcap
    cases m with
    | zero => rfl
    | succ m =>
      rw [handOut, if_pos ⟨h p List.mem_cons_self, by omega⟩,
        ih (fun q hq => h q (List.mem_cons_of_mem _ hq)) (by omega)]
      rfl

theorem returned_le_handOut (h : ∀ p ∈ log, p.returned ≤ limit) :
    ∀ p ∈ handOut limit cap m log, p.returned ≤ limit := by
  induction log generalizing m with
  | nil => cases m <;> exact h
  | cons q log ih =>
    have htail : ∀ p ∈ log, p.returned ≤ limit := fun p hp => h p (List.mem_cons_of_mem _ hp)
    cases m with
    | zero => exact h
    | succ m =>
      intro p hp
      rw [handOut] at hp
      split_ifs at hp with hq
      · rcases List.mem_cons.mp hp with rfl | hp
        · exact hq.1
        · exact ih htail p hp
      · rcases List.mem_cons.mp hp with rfl | hp
        · exact h p List.mem_cons_self
        · exact ih htail p hp

/-! ## The counts of the deque -/

theorem kept_suffix (cap : ℕ) (b : List (Posted α)) :
    (if cap ≤ b.length then b.tail else b) <:+ b := by
  split_ifs
  · exact List.tail_suffix b
  · exact List.suffix_refl b

theorem pairwise_push (h : b.Pairwise fun p q => q.returned ≤ p.returned) :
    (push cap x b).Pairwise fun p q => q.returned ≤ p.returned := by
  refine List.pairwise_append.mpr
    ⟨h.sublist (kept_suffix cap b).sublist, List.pairwise_singleton _ _, ?_⟩
  intro p _ q hq
  rw [List.mem_singleton.mp hq]
  exact Nat.zero_le _

theorem unspent_push (h : ∀ p ∈ b, p.returned < limit) (hlimit : 0 < limit) :
    ∀ p ∈ push cap x b, p.returned < limit := by
  intro p hp
  rcases List.mem_append.mp hp with hp | hp
  · exact h p ((kept_suffix cap b).mem hp)
  · rw [List.mem_singleton.mp hp]
    exact hlimit

theorem length_push_le (hcap : 0 < cap) (h : b.length ≤ cap) : (push cap x b).length ≤ cap := by
  unfold push
  rw [List.length_append, List.length_singleton]
  split_ifs with hfull
  · rw [List.length_tail]; omega
  · omega

theorem length_counted (b : List (Posted α)) (m : ℕ) :
    ((b.take m).map Posted.again ++ b.drop m).length = b.length := by
  rw [List.length_append, List.length_map, ← List.length_append, List.take_append_drop]

theorem length_send_le : (send limit m b).length ≤ b.length :=
  (List.dropWhile_sublist _).length_le.trans (length_counted b m).le

theorem pairwise_counted (h : b.Pairwise fun p q => q.returned ≤ p.returned) (m : ℕ) :
    ((b.take m).map Posted.again ++ b.drop m).Pairwise fun p q => q.returned ≤ p.returned := by
  rw [← List.take_append_drop m b, List.pairwise_append] at h
  obtain ⟨htaken, hrest, hacross⟩ := h
  refine List.pairwise_append.mpr ⟨List.pairwise_map.mpr ?_, hrest, ?_⟩
  · exact htaken.imp fun hle => Nat.succ_le_succ hle
  · intro p hp q hq
    obtain ⟨p₀, hp₀, rfl⟩ := List.mem_map.mp hp
    exact (hacross p₀ hp₀ q hq).trans (Nat.le_succ _)

theorem pairwise_send (h : b.Pairwise fun p q => q.returned ≤ p.returned) :
    (send limit m b).Pairwise fun p q => q.returned ≤ p.returned :=
  (pairwise_counted h m).sublist (List.dropWhile_sublist _)

theorem unspent_send (h : b.Pairwise fun p q => q.returned ≤ p.returned) :
    ∀ p ∈ send limit m b, p.returned < limit := by
  intro p hp
  have hne := List.ne_nil_of_mem hp
  have hhead := List.head_dropWhile_not (Posted.spent limit) hne
  have hpairwise : (send limit m b).Pairwise _ := pairwise_send h
  unfold Posted.spent at hhead
  rw [decide_eq_false_iff_not, not_le] at hhead
  rcases List.mem_cons.mp (List.cons_head_tail hne ▸ hp) with rfl | hp
  · exact hhead
  · exact ((List.pairwise_cons.mp (List.cons_head_tail hne ▸ hpairwise)).1 p hp).trans_lt hhead

/-! ## What is left to hand out -/

/-- How often the items that satisfy `P` can still be handed out. -/
def left (limit : ℕ) (P : α → Bool) : List (Posted α) → ℕ
  | [] => 0
  | p :: b => (if P p.item then limit - p.returned else 0) + left limit P b

variable {P : α → Bool}

theorem left_cons : left limit P (p :: b) = (if P p.item then limit - p.returned else 0) +
    left limit P b := rfl

theorem left_append {b' : List (Posted α)} :
    left limit P (b ++ b') = left limit P b + left limit P b' := by
  induction b with
  | nil => exact (Nat.zero_add _).symm
  | cons p b ih => rw [List.cons_append, left_cons, left_cons, ih, Nat.add_assoc]

theorem left_dropWhile : left limit P (b.dropWhile (Posted.spent limit)) = left limit P b := by
  induction b with
  | nil => rfl
  | cons p b ih =>
    by_cases hspent : Posted.spent limit p = true
    · have hle : limit ≤ p.returned := of_decide_eq_true hspent
      rw [List.dropWhile_cons_of_pos hspent, ih, left_cons, Nat.sub_eq_zero_of_le hle, ite_self,
        Nat.zero_add]
    · rw [List.dropWhile_cons_of_neg hspent]

theorem left_map_again (h : ∀ p ∈ b, p.returned < limit) :
    left limit P (b.map Posted.again) + b.countP (fun p => P p.item) = left limit P b := by
  induction b with
  | nil => rfl
  | cons p b ih =>
    obtain ⟨hp, hb⟩ := List.forall_mem_cons.mp h
    have ih := ih hb
    rw [List.map_cons, left_cons, left_cons, List.countP_cons]
    show (if P p.item then limit - (p.returned + 1) else 0) + _ + _ = _
    split_ifs <;> omega

theorem left_send (h : ∀ p ∈ b, p.returned < limit) :
    left limit P (send limit m b) + (b.take m).countP (fun p => P p.item) = left limit P b := by
  have htaken := left_map_again (P := P) fun p hp => h p (List.mem_of_mem_take (i := m) hp)
  have hsplit : left limit P (b.take m) + left limit P (b.drop m) = left limit P b := by
    rw [← left_append, List.take_append_drop]
  unfold send
  rw [left_dropWhile, left_append]
  omega

theorem left_push_le (cap : ℕ) (x : α) (b : List (Posted α)) :
    left limit P (push cap x b) ≤ left limit P b + if P x then limit else 0 := by
  unfold push
  rw [left_append, left_cons]
  show _ + ((if P x then limit else 0) + 0) ≤ _
  rw [Nat.add_zero]
  refine Nat.add_le_add_right ?_ _
  split_ifs
  · cases b with
    | nil => exact le_refl _
    | cons p b => exact Nat.le_add_left _ _
  · exact le_refl _

/-- A push loses nothing if there is room, or if the item in front does not count. -/
theorem left_push (hx : P x = false) (hroom : b.length < cap ∨ ∀ p ∈ b.head?, P p.item = false) :
    left limit P (push cap x b) = left limit P b := by
  unfold push
  rw [left_append, left_cons, hx]
  show _ + 0 = _
  split_ifs with hfull
  · have hfront := hroom.resolve_left (not_lt.mpr hfull)
    cases b with
    | nil => rfl
    | cons p b =>
      rw [left_cons, hfront p rfl]
      exact (Nat.zero_add _).symm
  · rfl

/-! ## The deque is the pending part of the log -/

structure Keeps (limit cap : ℕ) (log b : List (Posted α)) : Prop where
  split : ∃ old, log = old ++ b ∧ Gone limit cap b.length old
  counts : b.Pairwise fun p q => q.returned ≤ p.returned
  unspent : ∀ p ∈ b, p.returned < limit
  length_le : b.length ≤ cap

theorem keeps_nil : Keeps limit cap ([] : List (Posted α)) [] where
  split := ⟨[], rfl, trivial⟩
  counts := List.Pairwise.nil
  unspent := by simp
  length_le := Nat.zero_le _

theorem Keeps.pending_eq (h : Keeps limit cap log b) : pending limit cap log = b := by
  obtain ⟨old, rfl, hold⟩ := h.split
  rw [pending_append hold, pending_eq_self h.unspent h.length_le]

theorem Keeps.push (h : Keeps limit cap log b) (hlimit : 0 < limit) (hcap : 0 < cap) (x : α) :
    Keeps limit cap (post x log) (SendQueue.push cap x b) := by
  obtain ⟨old, rfl, hold⟩ := h.split
  refine ⟨?_, pairwise_push h.counts, unspent_push h.unspent hlimit, length_push_le hcap h.length_le⟩
  unfold post SendQueue.push
  split_ifs with hfull
  · -- the front has `cap` newer items now
    cases b with
    | nil => exact absurd hfull (by simp; omega)
    | cons p b =>
      have hlength : b.length + 1 ≤ cap := h.length_le
      have hfull : cap ≤ b.length + 1 := hfull
      refine ⟨old ++ [p], by simp, Gone.append (hold.mono ?_) ⟨Or.inr ?_, trivial⟩⟩
      · simp
      · simpa using hfull
  · exact ⟨old, by simp, hold.mono (by simp)⟩

theorem Keeps.send (h : Keeps limit cap log b) (m : ℕ) :
    Keeps limit cap (handOut limit cap m log) (SendQueue.send limit m b) := by
  obtain ⟨old, rfl, hold⟩ := h.split
  have hlength := length_counted b m
  rw [handOut_append hold, handOut_eq h.unspent h.length_le]
  refine ⟨?_, pairwise_send h.counts, unspent_send h.counts, length_send_le.trans h.length_le⟩
  unfold SendQueue.send
  generalize (b.take m).map Posted.again ++ b.drop m = counted at hlength
  have hsplit := List.takeWhile_append_dropWhile (p := Posted.spent limit) (l := counted)
  refine ⟨old ++ counted.takeWhile (Posted.spent limit), ?_, Gone.append ?_ ?_⟩
  · rw [List.append_assoc, hsplit]
  · rwa [← List.length_append, hsplit, hlength]
  · refine gone_of_spent fun p hp => ?_
    have hspent : Posted.spent limit p = true := List.mem_takeWhile_imp hp
    exact of_decide_eq_true hspent

end SendQueue
