import LlmGateway.Lib.JoinMap
import LlmGateway.Gossip.MembershipList
import Mathlib.Data.Finset.Insert

/-!
# Convergence of the membership list

What the members are and at which incarnation and state is a map of join registers: `ApplyUpdate`
joins the rank of the update into the register of its member (`rankOf_applyUpdate`). The load
refresh of an equal or weaker update is invisible here, and the fresh-insert path is a join with
the bottom element.

1. `rankOf_applyUpdates`: a list of updates acts as the join of all of them.
2. `applyUpdates_lexMax`: the result is the lexicographic maximum, whatever the order and the
   repetitions, so lists that agree before the same updates agree after them.
-/

namespace LlmGateway.Gossip

namespace MembershipList

/-- The rank held for a member; `⊥` for an unknown id. -/
def rankOf (L : MembershipList) (id : String) : WithBot Rank :=
  (L.members.lookup id).elim ⊥ fun e => (e.rank : WithBot Rank)

/-- Apply a list of updates, each with the clock reading at its arrival. -/
def applyUpdates (L : MembershipList) (us : List (ℕ × MembershipUpdate)) : MembershipList :=
  us.foldl (fun L u => (L.applyUpdate u.1 u.2).list) L

variable {L : MembershipList} {id : String} {e : MemberInfo} {now : ℕ} {u : MembershipUpdate}

theorem rankOf_of_lookup (h : L.members.lookup id = some e) : L.rankOf id = e.rank := by
  unfold rankOf; rw [h]; rfl

theorem rankOf_of_none (h : L.members.lookup id = none) : L.rankOf id = ⊥ := by
  unfold rankOf; rw [h]; rfl

theorem rankOf_eq_bot : L.rankOf id = ⊥ ↔ id ∉ L.members := by
  rw [← AList.lookup_eq_none]
  cases h : L.members.lookup id with
  | none => simp [rankOf_of_none h]
  | some e => simp [rankOf_of_lookup h]

theorem rankOf_eq_coe {r : Rank} :
    L.rankOf id = r ↔ ∃ e, L.members.lookup id = some e ∧ e.rank = r := by
  cases h : L.members.lookup id with
  | none => simp [rankOf_of_none h]
  | some e => simp [rankOf_of_lookup h]

theorem rankOf_setMember (L : MembershipList) (id : String) (e : MemberInfo) :
    (L.setMember id e).rankOf = Function.update L.rankOf id e.rank := by
  funext id'
  by_cases h : id' = id
  · subst h
    rw [Function.update_self]
    exact rankOf_of_lookup (AList.lookup_insert _)
  · rw [Function.update_of_ne h]
    unfold rankOf
    rw [setMember_members, lookup_insert_of_ne h]

@[simp] theorem rankOf_record (L : MembershipList) (id : String) (e : MemberInfo) :
    (L.record id e).rankOf = (L.setMember id e).rankOf := rfl

@[simp] theorem refreshLoad_rank : (e.refreshLoad u).1.rank = e.rank := rfl

@[simp] theorem overwrite_rank : (e.overwrite now u).rank = u.rank := rfl

/-- **`ApplyUpdate` is a join.** -/
theorem rankOf_applyUpdate (L : MembershipList) (now : ℕ) (u : MembershipUpdate) :
    (L.applyUpdate now u).list.rankOf = JoinMap.join L.rankOf (u.memberId, (u.rank : WithBot Rank)) := by
  rcases applyUpdate_cases L now u with ⟨hnone, h⟩ | ⟨e, he, ⟨hr, h⟩ | ⟨hinc, hst, h, _⟩ | ⟨hlt, h⟩⟩
  · have hle : L.rankOf u.memberId ≤ (u.rank : WithBot Rank) := by
      rw [rankOf_of_none hnone]; exact bot_le
    rw [JoinMap.join_eq_update hle, h]
    exact rankOf_setMember ..
  · have hle : L.rankOf u.memberId ≤ (u.rank : WithBot Rank) := by
      rw [rankOf_of_lookup he]; exact WithBot.coe_le_coe.mpr hr.le
    rw [JoinMap.join_eq_update hle, h]
    exact rankOf_setMember ..
  · have hle : (u.rank : WithBot Rank) ≤ L.rankOf u.memberId := by
      rw [rankOf_of_lookup he]
      exact WithBot.coe_le_coe.mpr (Prod.Lex.toLex_le_toLex.mpr (Or.inr ⟨hinc, hst⟩))
    rw [JoinMap.join_eq_self hle, h, rankOf_setMember, refreshLoad_rank, ← rankOf_of_lookup he,
      Function.update_eq_self]
  · have hle : (u.rank : WithBot Rank) ≤ L.rankOf u.memberId := by
      rw [rankOf_of_lookup he]
      exact WithBot.coe_le_coe.mpr (Prod.Lex.toLex_le_toLex.mpr (Or.inl hlt))
    rw [JoinMap.join_eq_self hle, h]

/-- The register update of a timed membership update. -/
def joinOf (u : ℕ × MembershipUpdate) : String × WithBot Rank := (u.2.memberId, (u.2.rank : WithBot Rank))

theorem rankOf_applyUpdates (L : MembershipList) (us : List (ℕ × MembershipUpdate)) :
    (L.applyUpdates us).rankOf = JoinMap.joinAll L.rankOf (us.map joinOf) :=
  JoinMap.view_foldl (fun L u => rankOf_applyUpdate L u.1 u.2) L us

variable {C : Finset MembershipUpdate} {us us' : List (ℕ × MembershipUpdate)}

theorem mem_map_joinOf (h : ∀ u, u ∈ us.map Prod.snd ↔ u ∈ C) {r : WithBot Rank} :
    (id, r) ∈ us.map joinOf ↔ ∃ u ∈ C, u.memberId = id ∧ (u.rank : WithBot Rank) = r := by
  constructor
  · intro hm
    obtain ⟨tu, htu, heq⟩ := List.mem_map.mp hm
    obtain ⟨hid, hr⟩ := Prod.mk.inj heq
    exact ⟨tu.2, (h _).mp (List.mem_map_of_mem htu), hid, hr⟩
  · rintro ⟨u, hu, rfl, rfl⟩
    obtain ⟨tu, htu, rfl⟩ := List.mem_map.mp ((h u).mpr hu)
    exact List.mem_map.mpr ⟨tu, htu, rfl⟩

/-- The rank after the updates is the greatest of the rank before and those of the updates. -/
theorem isGreatest_rankOf (h : ∀ u, u ∈ us.map Prod.snd ↔ u ∈ C) (L : MembershipList) (id : String) :
    IsGreatest (insert (L.rankOf id) {r | ∃ u ∈ C, u.memberId = id ∧ (u.rank : WithBot Rank) = r})
      ((L.applyUpdates us).rankOf id) := by
  have hg := JoinMap.isGreatest_joinAll L.rankOf (us.map joinOf) id
  rw [← rankOf_applyUpdates] at hg
  simpa only [mem_map_joinOf h] using hg

theorem mem_applyUpdates (h : ∀ u, u ∈ us.map Prod.snd ↔ u ∈ C) (L : MembershipList) (id : String) :
    id ∈ (L.applyUpdates us).members ↔ id ∈ L.members ∨ ∃ u ∈ C, u.memberId = id := by
  obtain ⟨hmem, hub⟩ := isGreatest_rankOf h L id
  constructor
  · intro hid
    rcases hmem with hL | ⟨u, hu, hid', _⟩
    · refine Or.inl ?_
      by_contra hn
      rw [rankOf_eq_bot.mpr hn, rankOf_eq_bot] at hL
      exact hL hid
    · exact Or.inr ⟨u, hu, hid'⟩
  · intro hid
    by_contra hn
    rw [rankOf_eq_bot.mpr hn] at hub
    rcases hid with hid | ⟨u, hu, hid⟩
    · exact rankOf_eq_bot.mp (le_bot_iff.mp (hub (Set.mem_insert _ _))) hid
    · exact WithBot.coe_ne_bot (le_bot_iff.mp (hub (Set.mem_insert_of_mem _ ⟨u, hu, hid, rfl⟩)))

/-- **Convergence.** Applying the updates of a finite collection, in any order and with any
repetitions, yields the members of the list and of the collection, each at the lexicographic
maximum of its starting entry and of the updates about it. Two lists that agree before agree after
they have received the same collection. -/
theorem applyUpdates_lexMax (L : MembershipList) (C : Finset MembershipUpdate)
    (us : List (ℕ × MembershipUpdate)) (hus : ∀ u, u ∈ us.map Prod.snd ↔ u ∈ C) :
    (∀ id, id ∈ (L.applyUpdates us).members ↔ id ∈ L.members ∨ ∃ u ∈ C, u.memberId = id) ∧
    (∀ id e, (L.applyUpdates us).members.lookup id = some e →
      IsGreatest ({r | ∃ e₀, L.members.lookup id = some e₀ ∧ e₀.rank = r} ∪
        {r | ∃ u ∈ C, u.memberId = id ∧ u.rank = r}) e.rank) ∧
    ∀ (L' : MembershipList) (us' : List (ℕ × MembershipUpdate)),
      (∀ u, u ∈ us'.map Prod.snd ↔ u ∈ C) → (∀ id, L'.rankOf id = L.rankOf id) →
      ∀ id, (L'.applyUpdates us').rankOf id = (L.applyUpdates us).rankOf id := by
  refine ⟨mem_applyUpdates hus L, ?_, ?_⟩
  · intro id e he
    obtain ⟨hmem, hub⟩ := isGreatest_rankOf hus L id
    rw [rankOf_of_lookup he] at hmem hub
    refine ⟨?_, ?_⟩
    · rcases hmem with hL | ⟨u, hu, hid, hr⟩
      · exact Or.inl (rankOf_eq_coe.mp hL.symm)
      · exact Or.inr ⟨u, hu, hid, WithBot.coe_inj.mp hr⟩
    · rintro r (⟨e₀, he₀, rfl⟩ | ⟨u, hu, hid, rfl⟩)
      · have := hub (Set.mem_insert _ _)
        rw [rankOf_of_lookup he₀] at this
        exact WithBot.coe_le_coe.mp this
      · exact WithBot.coe_le_coe.mp (hub (Set.mem_insert_of_mem _ ⟨u, hu, hid, rfl⟩))
  · intro L' us' hus' hL id
    have hsame : ∀ x, x ∈ us'.map joinOf ↔ x ∈ us.map joinOf := by
      rintro ⟨id', r⟩
      rw [mem_map_joinOf hus', mem_map_joinOf hus]
    rw [rankOf_applyUpdates, rankOf_applyUpdates, JoinMap.joinAll_congr hsame, funext hL]

/-- A suspicion of `replica-1` at incarnation 2, in the two orders of arrival with its older
announcement, the second time repeated. -/
theorem applyUpdates_lexMax_suspicion :
    let suspicion : MembershipUpdate := ⟨"replica-1", "10.0.0.1:17001", .suspect, 2, "", 0, 0⟩
    let announcement : MembershipUpdate := ⟨"replica-1", "10.0.0.1:17001", .alive, 1, "v1", 0, 4⟩
    let L : MembershipList := { myId := "gateway-1" }
    (L.applyUpdates [(5, announcement), (9, suspicion)]).rankOf "replica-1" =
        (L.applyUpdates [(3, suspicion), (4, announcement), (8, suspicion)]).rankOf "replica-1" ∧
      ∀ e, (L.applyUpdates [(3, suspicion), (4, announcement), (8, suspicion)]).members.lookup
          "replica-1" = some e → e.rank = toLex (2, .suspect) := by
  intro suspicion announcement L
  have hmem₁ : ∀ u, u ∈ [(3, suspicion), (4, announcement), (8, suspicion)].map Prod.snd ↔
      u ∈ ({suspicion, announcement} : Finset MembershipUpdate) := by
    intro u; simp only [List.map, List.mem_cons, List.not_mem_nil, Finset.mem_insert,
      Finset.mem_singleton]; tauto
  have hmem₂ : ∀ u, u ∈ [(5, announcement), (9, suspicion)].map Prod.snd ↔
      u ∈ ({suspicion, announcement} : Finset MembershipUpdate) := by
    intro u; simp only [List.map, List.mem_cons, List.not_mem_nil, Finset.mem_insert,
      Finset.mem_singleton]; tauto
  obtain ⟨_, hmax, hagree⟩ := applyUpdates_lexMax L {suspicion, announcement} _ hmem₁
  refine ⟨hagree L _ hmem₂ (fun _ => rfl) _, fun e he => ?_⟩
  obtain ⟨_, hub⟩ := hmax _ e he
  refine le_antisymm ?_ (hub (Or.inr ⟨suspicion, by simp, rfl, rfl⟩))
  rcases (hmax _ e he).1 with ⟨e₀, he₀, _⟩ | ⟨u, hu, _, hr⟩
  · simp [L] at he₀
  · rw [← hr]
    rcases Finset.mem_insert.mp hu with rfl | hu
    · exact le_refl _
    · rw [Finset.mem_singleton.mp hu]; decide

end MembershipList

end LlmGateway.Gossip
