import LlmGateway.Lib.Reservoir
import LlmGateway.Gateway.Selection

/-!
# Weighted least connections

`SelectByLeastConnections` is reservoir sampling of the score, with the replicas that are excluded
or at capacity skipped, and those with an infinite score. Its tie counter starts again whenever a
smaller score appears.

1. `foldl_consider_ofBest`: the loop is the pass of the reservoir.
2. `selectByLeastConnections_uniform`: the replica returned has the smallest score, and each replica
   with that score is returned with the same probability.
-/

open scoped ENNReal

namespace LlmGateway.Gateway

open Reservoir

/-- The score over the rationals. -/
def ReplicaInfo.load (info : ReplicaInfo) : ℚ := (info.activeRequests : ℚ) / info.weight

instance (excluded : List String) (e : String × ReplicaInfo) : Decidable (Pickable excluded e) :=
  inferInstanceAs (Decidable (_ ∧ ¬ _))

/-- The score of a replica that may be picked. -/
def pickKey (excluded : List String) (e : String × ReplicaInfo) : Option ℚ :=
  if Pickable excluded e then e.2.score else none

def selectionOf (e : String × ReplicaInfo) : Selection := ⟨e.1, e.2.grpcAddress⟩

/-- The best replica of the code, for the item held by the reservoir. -/
def Pick.ofBest (b : Best (String × ReplicaInfo) ℚ) (draws : List ℕ) : Pick where
  id := b.held.elim "" Prod.fst
  address := b.held.elim "" fun e => e.2.grpcAddress
  score := b.key
  tieCount := b.ties
  draws := draws

namespace ReplicaRegistry

/-- The eligible replicas with the smallest score. -/
def lightest (r : ReplicaRegistry) (excluded : List String) : List (String × ReplicaInfo) :=
  r.getAliveReplicas.filter fun e => Pickable excluded e ∧
    ∀ e' ∈ r.getAliveReplicas, Pickable excluded e' → e.2.load ≤ e'.2.load

/-- The law of `SelectByLeastConnections`, every call of `uniform_int_distribution` being uniform and
independent of those before. -/
noncomputable def selectLaw (r : ReplicaRegistry) (excluded : List String) : PMF (Option Selection) :=
  (drawsLaw (pickKey excluded) { key := maxDouble } r.getAliveReplicas).map
    (r.selectByLeastConnections excluded)

end ReplicaRegistry

variable {r : ReplicaRegistry} {excluded : List String} {e e₀ : String × ReplicaInfo}
  {es : List (String × ReplicaInfo)} {b : Best (String × ReplicaInfo) ℚ} {draws : List ℕ} {s : ℚ}

/-! ## The loop is a reservoir -/

theorem consider_ofBest : (Pick.ofBest b draws).consider excluded e =
    if pickKey excluded e = some b.key then
      Pick.ofBest (b.offer (pickKey excluded) e (draws.headD 1)) draws.tail
    else Pick.ofBest (b.offer (pickKey excluded) e 1) draws := by
  have hscore : (Pick.ofBest b draws).score = b.key := rfl
  have hties : (Pick.ofBest b draws).tieCount = b.ties := rfl
  have hnone : ¬ (none = some b.key) := by rintro ⟨⟩
  unfold Pick.consider
  by_cases hpickable : Pickable excluded e
  · have hkey : pickKey excluded e = e.2.score := if_pos hpickable
    rw [if_neg hpickable.1, if_neg hpickable.2, ← hkey]
    cases hk : pickKey excluded e with
    | none =>
      rw [if_neg hnone, offer_of_none hk]
    | some k =>
      dsimp only
      rw [hscore]
      rcases lt_trichotomy k b.key with hlt | rfl | hgt
      · rw [if_pos hlt, if_neg fun h => hlt.ne (Option.some.inj h), offer_of_lt hk hlt]
        rfl
      · rw [if_neg (lt_irrefl _), if_pos rfl, if_pos rfl, offer_of_tie hk, hties]
        by_cases htakes : b.ties = 0 ∨ draws.headD 1 = 1
        · rw [if_pos htakes]
          exact if_pos (htakes.imp_left (congrArg (· + 1)))
        · rw [if_neg htakes]
          exact if_neg fun h => htakes (h.imp_left Nat.succ.inj)
      · rw [if_neg hgt.not_gt, if_neg hgt.ne', if_neg fun h => hgt.ne' (Option.some.inj h),
          offer_of_gt hk hgt]
  · have hkey : pickKey excluded e = none := if_neg hpickable
    rw [hkey, if_neg hnone, offer_of_none hkey]
    by_cases hexcluded : e.1 ∈ excluded
    · exact if_pos hexcluded
    · rw [if_neg hexcluded]
      exact if_pos (by_contra fun hfull => hpickable ⟨hexcluded, hfull⟩)

theorem foldl_consider_ofBest : ∃ draws', es.foldl (Pick.consider excluded) (Pick.ofBest b draws) =
    Pick.ofBest (run (pickKey excluded) draws b es) draws' := by
  induction es generalizing b draws with
  | nil => exact ⟨draws, by rw [run]; rfl⟩
  | cons e es ih =>
    rw [List.foldl_cons, consider_ofBest, run]
    split_ifs
    · exact ih
    · exact ih

/-! ## Scores -/

theorem maxDouble_lt_doubleOverflow : maxDouble < doubleOverflow := by
  have hpow : (2 : ℚ) ^ 970 < 2 ^ 971 := pow_lt_pow_right₀ (by norm_num) (by norm_num)
  exact sub_lt_sub_left hpow _

theorem score_eq_some_iff {info : ReplicaInfo} (hs : s < maxDouble) :
    info.score = some s ↔ info.load = s := by
  have hoverflow := maxDouble_lt_doubleOverflow
  unfold ReplicaInfo.score
  show (if doubleOverflow ≤ info.load then none else some (min info.load maxDouble)) = some s ↔ _
  constructor
  · intro h
    split_ifs at h with hload
    have hmin : min info.load maxDouble = s := Option.some.inj h
    rcases le_total info.load maxDouble with hle | hle
    · rwa [min_eq_left hle] at hmin
    · rw [min_eq_right hle] at hmin
      exact absurd hmin hs.ne'
  · rintro rfl
    rw [if_neg (not_le.mpr (hs.trans hoverflow)), min_eq_left hs.le]

theorem pickKey_eq_some_iff (hs : s < maxDouble) :
    pickKey excluded e = some s ↔ Pickable excluded e ∧ e.2.load = s := by
  rw [← score_eq_some_iff hs]
  unfold pickKey
  split_ifs with hpickable
  · exact (and_iff_right hpickable).symm
  · exact iff_of_false (by rintro ⟨⟩) fun h => hpickable h.1

/-- A score is not below the load, but where that exceeds the largest `double`. -/
theorem le_of_pickKey {k : ℚ} (h : pickKey excluded e = some k) (hs : s < maxDouble)
    (hle : Pickable excluded e → s ≤ e.2.load) : s ≤ k := by
  unfold pickKey at h
  split_ifs at h with hpickable
  unfold ReplicaInfo.score at h
  dsimp only at h
  split_ifs at h
  cases h
  exact le_min (hle hpickable) hs.le

/-! ## The replica returned -/

theorem exists_lightest (h : ∃ e ∈ r.getAliveReplicas, Pickable excluded e ∧ e.2.load < maxDouble) :
    ∃ e ∈ r.lightest excluded, e.2.load < maxDouble := by
  obtain ⟨e₁, he₁, hpickable₁, hload⟩ := h
  have hne : ((r.getAliveReplicas.filter fun e => Pickable excluded e).toFinset).Nonempty :=
    ⟨e₁, by simp [he₁, hpickable₁]⟩
  obtain ⟨e, he, hmin⟩ := Finset.exists_min_image _ (fun e => e.2.load) hne
  have hleast : ∀ e' ∈ r.getAliveReplicas, Pickable excluded e' → e.2.load ≤ e'.2.load :=
    fun e' he' hpickable' => hmin e' (by simp [he', hpickable'])
  have hmem : e ∈ r.getAliveReplicas ∧ Pickable excluded e := by simpa using he
  refine ⟨e, List.mem_filter.mpr ⟨hmem.1, decide_eq_true ⟨hmem.2, hleast⟩⟩, ?_⟩
  exact (hleast e₁ he₁ hpickable₁).trans_lt hload

theorem mem_lightest : e ∈ r.lightest excluded ↔ e ∈ r.getAliveReplicas ∧ Pickable excluded e ∧
    ∀ e' ∈ r.getAliveReplicas, Pickable excluded e' → e.2.load ≤ e'.2.load := by
  unfold ReplicaRegistry.lightest
  rw [List.mem_filter, decide_eq_true_eq]

theorem pickKey_eq_iff_mem_lightest (h₀ : e₀ ∈ r.lightest excluded) (hs : e₀.2.load < maxDouble)
    (he : e ∈ r.getAliveReplicas) :
    pickKey excluded e = some e₀.2.load ↔ e ∈ r.lightest excluded := by
  obtain ⟨hmem₀, hpickable₀, hleast₀⟩ := mem_lightest.mp h₀
  rw [pickKey_eq_some_iff hs, mem_lightest]
  constructor
  · rintro ⟨hpickable, hload⟩
    exact ⟨he, hpickable, fun e' he' hpickable' => hload ▸ hleast₀ e' he' hpickable'⟩
  · rintro ⟨-, hpickable, hleast⟩
    exact ⟨hpickable, le_antisymm (hleast e₀ hmem₀ hpickable₀) (hleast₀ e he hpickable)⟩

theorem smallest_load (h₀ : e₀ ∈ r.lightest excluded) (hs : e₀.2.load < maxDouble) :
    Smallest (pickKey excluded) { key := maxDouble } r.getAliveReplicas e₀.2.load where
  le_key := hs.le
  le e he _ hk := le_of_pickKey hk hs ((mem_lightest.mp h₀).2.2 e he)
  attained := Or.inr ⟨e₀, (mem_lightest.mp h₀).1,
    (pickKey_eq_iff_mem_lightest h₀ hs (mem_lightest.mp h₀).1).mpr h₀⟩

/-- Whatever is drawn, one of the lightest replicas is held at the end, and it is returned. -/
theorem selectByLeastConnections_eq (hids : ∀ e ∈ r.getAliveReplicas, e.1 ≠ "")
    (h₀ : e₀ ∈ r.lightest excluded) (hs : e₀.2.load < maxDouble) (draws : List ℕ) :
    (∃ e ∈ r.lightest excluded, r.selectByLeastConnections excluded draws = some (selectionOf e)) ∧
    r.selectByLeastConnections excluded draws =
      (run (pickKey excluded) draws { key := maxDouble } r.getAliveReplicas).held.map selectionOf := by
  obtain ⟨draws', hloop⟩ : ∃ draws', r.getAliveReplicas.foldl (Pick.consider excluded) { draws } =
      Pick.ofBest (run (pickKey excluded) draws { key := maxDouble } r.getAliveReplicas) draws' :=
    foldl_consider_ofBest (b := { key := maxDouble })
  rcases held_run (smallest_load h₀ hs) draws with ⟨heq, -⟩ | ⟨e, he, hkey, hheld⟩
  · exact absurd heq hs.ne
  · have hselect : r.selectByLeastConnections excluded draws = some (selectionOf e) := by
      unfold ReplicaRegistry.selectByLeastConnections
      dsimp only
      rw [hloop]
      unfold Pick.ofBest
      rw [hheld]
      exact if_neg (hids e he)
    rw [hselect, hheld]
    exact ⟨⟨e, (pickKey_eq_iff_mem_lightest h₀ hs he).mp hkey, rfl⟩, rfl⟩

/-! ## The law -/

theorem nodup_getAliveReplicas (r : ReplicaRegistry) : r.getAliveReplicas.Nodup := by
  have hentries : r.replicas.entries.Nodup := r.replicas.nodupKeys.nodup
  refine (hentries.map ?_).filter _
  rintro ⟨id, info⟩ ⟨id', info'⟩ heq
  cases heq
  rfl

theorem selectionOf_inj {e' : String × ReplicaInfo} (he : e ∈ r.getAliveReplicas)
    (he' : e' ∈ r.getAliveReplicas) (h : selectionOf e = selectionOf e') : e = e' := by
  have hid : e.1 = e'.1 := congrArg Selection.replicaId h
  have hinfo := (mem_getAliveReplicas.mp he).1
  have hinfo' := (mem_getAliveReplicas.mp he').1
  rw [hid, hinfo'] at hinfo
  exact Prod.ext hid (Option.some.inj hinfo).symm

/-- **Least connections.** If some eligible replica has a score below the largest `double`, the
replica returned is one of those with the smallest score, whatever is drawn, and it is each of them
with the same probability, in whatever order the registry is walked. -/
theorem selectByLeastConnections_uniform (r : ReplicaRegistry) (excluded : List String)
    (hids : ∀ e ∈ r.getAliveReplicas, e.1 ≠ "")
    (h : ∃ e ∈ r.getAliveReplicas, Pickable excluded e ∧ e.2.load < maxDouble) :
    (∀ draws, ∃ e ∈ r.lightest excluded,
      r.selectByLeastConnections excluded draws = some (selectionOf e)) ∧
    ∀ e ∈ r.lightest excluded,
      r.selectLaw excluded (some (selectionOf e)) = ((r.lightest excluded).length : ℝ≥0∞)⁻¹ := by
  obtain ⟨e₀, h₀, hs⟩ := exists_lightest h
  refine ⟨fun draws => (selectByLeastConnections_eq hids h₀ hs draws).1, fun e he => ?_⟩
  have hselect : r.selectLaw excluded =
      (drawsLaw (pickKey excluded) { key := maxDouble } r.getAliveReplicas).map fun draws =>
        Option.map selectionOf
          (run (pickKey excluded) draws { key := maxDouble } r.getAliveReplicas).held :=
    congrArg (fun f => PMF.map f _)
      (funext fun draws => (selectByLeastConnections_eq hids h₀ hs draws).2)
  have hlaw := drawsLaw_map_run (g := Option.map selectionOf) (y := some (selectionOf e))
    (smallest_load h₀ hs)
  have htotal : total (pickKey excluded) { key := maxDouble } r.getAliveReplicas e₀.2.load =
      (r.lightest excluded).length := by
    unfold total
    rw [if_neg hs.ne, Nat.zero_add, List.countP_eq_length_filter]
    refine congrArg _ (List.filter_congr fun e' he' => decide_eq_decide.mpr ?_)
    rw [pickKey_eq_iff_mem_lightest h₀ hs he', mem_lightest]
    exact and_iff_right he'
  have hhits : hits (pickKey excluded) (Option.map selectionOf) (some (selectionOf e))
      { key := maxDouble } r.getAliveReplicas e₀.2.load = 1 := by
    have hmem := (mem_lightest.mp he).1
    unfold hits
    rw [if_neg fun hb => hs.ne hb.1, Nat.zero_add,
      ← List.count_eq_one_of_mem (nodup_getAliveReplicas r) hmem]
    refine List.countP_congr fun e' he' => ?_
    rw [decide_eq_true_eq, beq_iff_eq]
    constructor
    · rintro ⟨-, hsame⟩
      exact selectionOf_inj he' hmem (Option.some.inj hsame)
    · rintro rfl
      exact ⟨(pickKey_eq_iff_mem_lightest h₀ hs he').mpr he, rfl⟩
  rw [← hselect, htotal, hhits, Nat.cast_one] at hlaw
  exact ENNReal.eq_inv_of_mul_eq_one_left (by rw [mul_comm]; exact hlaw)

/-- Three replicas of different weights, two of them with the smallest score. -/
def threeReplicas : ReplicaRegistry :=
  ((ReplicaRegistry.set {} "replica-1" { grpcAddress := "a:7001", weight := 2, activeRequests := 2 }).set
    "replica-2" { grpcAddress := "b:7001", activeRequests := 3 }).set
    "replica-3" { grpcAddress := "c:7001", activeRequests := 1 }

theorem selectLaw_threeReplicas :
    threeReplicas.selectLaw [] (some ⟨"replica-1", "a:7001"⟩) = 2⁻¹ := by
  have h := (selectByLeastConnections_uniform threeReplicas [] (by decide +kernel)
    (by decide +kernel)).2 ("replica-1", { grpcAddress := "a:7001", weight := 2, activeRequests := 2 })
    (by decide +kernel)
  have hlength : (threeReplicas.lightest []).length = 2 := by decide +kernel
  rw [hlength] at h
  exact_mod_cast h

/-- A positive weight with which one request makes the score infinite. -/
def weightless : ReplicaInfo :=
  { grpcAddress := "a:7001", weight := 1 / 2 ^ 1074, activeRequests := 1 }

/-- The only replica is eligible, and is never returned. -/
theorem selectByLeastConnections_infinite_score :
    let r := ReplicaRegistry.set {} "replica-1" weightless
    r.getAliveReplicas = [("replica-1", weightless)] ∧ 0 < weightless.weight ∧
    Pickable [] ("replica-1", weightless) ∧ ∀ draws, r.selectByLeastConnections [] draws = none := by
  intro r
  have halive : r.getAliveReplicas = [("replica-1", weightless)] := by decide +kernel
  have hkey : pickKey [] ("replica-1", weightless) = none := by decide +kernel
  refine ⟨halive, by decide +kernel, by decide +kernel, fun draws => ?_⟩
  have hskip : Pick.consider [] { draws } ("replica-1", weightless) = { draws } := by
    refine (consider_ofBest (b := { key := maxDouble })).trans ?_
    rw [hkey, if_neg (by rintro ⟨⟩), offer_of_none hkey]
    rfl
  unfold ReplicaRegistry.selectByLeastConnections
  dsimp only
  rw [halive, List.foldl_cons, List.foldl_nil, hskip]
  exact if_pos rfl

end LlmGateway.Gateway
