import Mathlib.Data.Nat.Choose.Basic
import Mathlib.Algebra.BigOperators.Ring.Finset
import PamoRxpBench.EtAnalysis.Met7

/-!
# `et-analysis`: overlap and multiplicity

`compute_metrics` counts the signatures that two groups share in a loop over the pairs of groups,
and the groups that a signature is in by a dictionary. Both count the same: a signature in `m`
groups is shared by `m * (m - 1) / 2` pairs (`overlaps_eq_hist`).
-/

namespace PamoRxpBench
namespace EtAnalysis

variable {σ : Type} [DecidableEq σ]

/-- The number of groups with a signature. -/
def multiplicity (groupSigs : List (Finset σ)) (sig : σ) : ℕ :=
  groupSigs.countP fun g => sig ∈ g

theorem multiplicity_cons (g : Finset σ) (groupSigs : List (Finset σ)) (sig : σ) :
    multiplicity (g :: groupSigs) sig = multiplicity groupSigs sig + if sig ∈ g then 1 else 0 := by
  simp [multiplicity, List.countP_cons]

/-! ## The pairs of groups -/

/-- The signatures of `s` in the groups, counted by group and by signature. -/
theorem sum_card_inter (s : Finset σ) (groupSigs : List (Finset σ)) :
    (groupSigs.map fun h => (s ∩ h).card).sum = ∑ sig ∈ s, multiplicity groupSigs sig := by
  induction groupSigs with
  | nil => simp [multiplicity]
  | cons g groupSigs ih =>
    rw [List.map_cons, List.sum_cons, ih]
    simp only [multiplicity_cons]
    rw [Finset.sum_add_distrib, Finset.sum_boole, Finset.filter_mem_eq_inter, Nat.cast_id, add_comm]

theorem overlapRow_fst (g : Finset σ) (groupSigs : List (Finset σ)) (acc : ℕ × ℕ) :
    (overlapRow g groupSigs acc).1 = acc.1 + (groupSigs.map fun h => (g ∩ h).card).sum := by
  induction groupSigs generalizing acc with
  | nil => rfl
  | cons h groupSigs ih =>
    show (overlapRow g groupSigs (acc.1 + (g ∩ h).card, acc.2 + 1)).1 = _
    rw [ih, List.map_cons, List.sum_cons, Nat.add_assoc]

/-- A signature in `m` groups is shared by the pairs of these. -/
theorem overlapLoop_fst {s : Finset σ} {groupSigs : List (Finset σ)}
    (hs : ∀ g ∈ groupSigs, g ⊆ s) (acc : ℕ × ℕ) :
    (overlapLoop groupSigs acc).1 =
      acc.1 + ∑ sig ∈ s, (multiplicity groupSigs sig).choose 2 := by
  induction groupSigs generalizing acc with
  | nil => simp [overlapLoop, multiplicity]
  | cons g groupSigs ih =>
    have hstep : ∀ sig, (multiplicity (g :: groupSigs) sig).choose 2 =
        (multiplicity groupSigs sig).choose 2 +
          if sig ∈ g then multiplicity groupSigs sig else 0 := by
      intro sig
      rw [multiplicity_cons]
      by_cases hsig : sig ∈ g
      · rw [if_pos hsig, if_pos hsig, Nat.choose_succ_succ', Nat.choose_one_right, Nat.add_comm]
      · rw [if_neg hsig, if_neg hsig, Nat.add_zero, Nat.add_zero]
    have hgs : s ∩ g = g := Finset.inter_eq_right.mpr (hs g List.mem_cons_self)
    rw [overlapLoop, ih fun h hh => hs h (List.mem_cons_of_mem g hh), overlapRow_fst,
      sum_card_inter]
    simp only [hstep]
    rw [Finset.sum_add_distrib, ← Finset.sum_filter, Finset.filter_mem_eq_inter, hgs]
    omega

/-! ## The memberships -/

omit [DecidableEq σ] in
theorem foldl_insert (items : List (σ × ℕ)) (members : Finset ℕ) :
    items.foldl (fun members x => insert x.2 members) members =
      members ∪ (items.map Prod.snd).toFinset := by
  induction items generalizing members with
  | nil => simp
  | cons x items ih =>
    rw [List.foldl_cons, ih, List.map_cons, List.toFinset_cons, Finset.insert_union,
      Finset.union_insert]

/-- The groups recorded for a signature are those that have it. -/
theorem card_members (groups : List (List σ)) (sig : σ) :
    (((indexedSigs groups).filter fun x : σ × ℕ => x.1 = sig).foldl
      (fun (members : Finset ℕ) x => insert x.2 members) ∅).card =
      multiplicity (groups.map List.toFinset) sig := by
  have hset : (((indexedSigs groups).filter fun x => x.1 = sig).map Prod.snd).toFinset =
      ((groups.zipIdx.filter fun g => sig ∈ g.1).map Prod.snd).toFinset := by
    ext i
    simp only [indexedSigs, List.mem_toFinset, List.mem_map, List.mem_filter, List.mem_flatMap,
      decide_eq_true_eq]
    constructor
    · rintro ⟨x, ⟨⟨g, hg, sig', hsig, rfl⟩, rfl⟩, rfl⟩
      exact ⟨g, ⟨hg, hsig⟩, rfl⟩
    · rintro ⟨g, ⟨hg, hsig⟩, rfl⟩
      exact ⟨(sig, g.2), ⟨⟨g, hg, sig, hsig, rfl⟩, rfl⟩, rfl⟩
  have hnodup : ((groups.zipIdx.filter fun g => sig ∈ g.1).map Prod.snd).Nodup := by
    apply List.Nodup.sublist (List.filter_sublist.map Prod.snd)
    rw [List.zipIdx_map_snd]
    exact List.nodup_range'
  have hgroups : groups.countP (fun g => sig ∈ g) =
      (groups.zipIdx.filter fun g => sig ∈ g.1).length := by
    conv_lhs => rw [← List.zipIdx_map_fst 0 groups]
    rw [List.countP_map, List.countP_eq_length_filter]
    rfl
  rw [foldl_insert, Finset.empty_union, hset, List.toFinset_card_of_nodup hnodup,
    List.length_map, ← hgroups, multiplicity, List.countP_map]
  simp [Function.comp_def]

theorem multiplicities_eq (groups : List (List σ)) :
    multiplicities groups =
      (ruleMemberships groups).keys.map (multiplicity (groups.map List.toFinset)) := by
  rw [multiplicities, Dict.values, ruleMemberships, Dict.entries_accumulate, List.map_map,
    List.map_map]
  apply List.map_congr_left
  intro sig _
  exact card_members groups sig

/-- The keys of the memberships are the distinct signatures. -/
theorem toFinset_keys (groups : List (List σ)) :
    (ruleMemberships groups).keys.toFinset = groups.flatten.toFinset := by
  ext sig
  rw [List.mem_toFinset, List.mem_toFinset, ruleMemberships, Dict.mem_keys_accumulate]
  simp only [indexedSigs, List.mem_map, List.mem_flatMap, List.mem_flatten]
  constructor
  · rintro ⟨x, ⟨g, hg, sig', hsig, rfl⟩, rfl⟩
    exact ⟨g.1, List.fst_mem_of_mem_zipIdx hg, hsig⟩
  · rintro ⟨g, hg, hsig⟩
    rw [← List.zipIdx_map_fst 0 groups] at hg
    obtain ⟨p, hp, rfl⟩ := List.mem_map.mp hg
    exact ⟨(sig, p.2), ⟨p, hp, sig, hsig, rfl⟩, rfl⟩

/-- A sum over the multiplicities is a sum over the distinct signatures. -/
theorem sum_multiplicities (groups : List (List σ)) (f : ℕ → ℕ) :
    ((multiplicities groups).map f).sum =
      ∑ sig ∈ groups.flatten.toFinset, f (multiplicity (groups.map List.toFinset) sig) := by
  rw [multiplicities_eq, List.map_map, ← toFinset_keys,
    List.sum_toFinset _ (Dict.nodup_keys _)]
  rfl

/-- A sum over the histogram is a sum over the distinct signatures. -/
theorem sum_hist (groups : List (List σ)) (f : ℕ → ℕ) :
    ((hist groups).entries.map fun e => e.2 * f e.1).sum =
      ∑ sig ∈ groups.flatten.toFinset, f (multiplicity (groups.map List.toFinset) sig) := by
  rw [hist, Dict.sum_counter, sum_multiplicities]

theorem subset_flatten (groups : List (List σ)) :
    ∀ g ∈ groups.map List.toFinset, g ⊆ groups.flatten.toFinset := by
  intro g hg sig hsig
  obtain ⟨sigs, hsigs, rfl⟩ := List.mem_map.mp hg
  exact List.mem_toFinset.mpr (List.mem_flatten.mpr ⟨sigs, hsigs, List.mem_toFinset.mp hsig⟩)

/-! ## The two ways to count -/

/-- The pairs of groups share what the histogram says: the overlap, the memberships and the number
of signatures can all be read from it. -/
theorem overlaps_eq_hist (log2 : ℚ → ℚ) (groups : List (List σ)) :
    (overlaps groups).1 =
      ((metrics log2 groups).multiplicityHistogram.entries.map fun e =>
        e.2 * e.1 * (e.1 - 1) / 2).sum ∧
    totalMemberships groups =
      ((metrics log2 groups).multiplicityHistogram.entries.map fun e => e.2 * e.1).sum ∧
    totalMemberships groups = (groups.map fun sigs => sigs.toFinset.card).sum ∧
    (metrics log2 groups).multiplicityHistogram.values.sum = groups.flatten.toFinset.card := by
  have htotal : totalMemberships groups =
      ∑ sig ∈ groups.flatten.toFinset, multiplicity (groups.map List.toFinset) sig := by
    have := sum_multiplicities groups id
    rwa [List.map_id] at this
  refine ⟨?_, ?_, ?_, ?_⟩
  · have hpairs : ∀ e : ℕ × ℕ, e.2 * e.1 * (e.1 - 1) / 2 = e.2 * e.1.choose 2 := by
      intro e
      rw [Nat.choose_two_right, Nat.mul_assoc,
        Nat.mul_div_assoc _ (even_iff_two_dvd.mp (Nat.even_mul_pred_self e.1))]
    show _ = ((hist groups).entries.map _).sum
    simp only [hpairs]
    rw [sum_hist groups fun m => m.choose 2, overlaps, overlapLoop_fst (subset_flatten groups)]
    exact Nat.zero_add _
  · rw [htotal]
    exact (sum_hist groups id).symm
  · rw [htotal, ← sum_card_inter, List.map_map]
    apply congrArg
    apply List.map_congr_left
    intro sigs hsigs
    show (groups.flatten.toFinset ∩ sigs.toFinset).card = _
    rw [Finset.inter_eq_right.mpr (subset_flatten groups _ (List.mem_map_of_mem hsigs))]
  · have hone := sum_hist groups fun _ => 1
    simp only [Nat.mul_one] at hone
    rw [Finset.card_eq_sum_ones]
    exact hone

end EtAnalysis
end PamoRxpBench
