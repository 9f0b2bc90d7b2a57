import PamoRxpBench.Autotest.ParamsRuleSubsets
import Mathlib.Algebra.BigOperators.Group.List.Basic

/-!
# The generated ratios sum to one for two groups only

With two groups the second share is what the first one leaves, and both have at most three decimals
(`ratioSum_groupParams_two`). With four groups the other three shares are rounded one by one, and
`0.2:0.267:0.267:0.267` is too much. The row is in the output of every larger `group_cnt`
(`genParams_acceptable_iff`).
-/

namespace PamoRxpBench
namespace Autotest

open Binary64

/-- The sum of the ratios of a string, as decimal fractions. -/
def ratioSum (s : Text) : Option ℚ := do
  let fields ← Text.split [':'] s
  let ratios ← fields.mapM readDecimal
  some ratios.sum

/-- Every generated string denotes ratios that sum to 1. -/
def RatiosAcceptable (params : Option (List Text)) : Prop :=
  ∃ strings, params = some strings ∧ ∀ s ∈ strings, ratioSum s = some 1

/-! ## The loop -/

theorem paramsLoop_stop {groupCnt : ℤ} {i : ℕ} (h : groupCnt < 2 ^ i) (exponents : List ℕ) :
    paramsLoop groupCnt (i :: exponents) = some [] := by
  rw [paramsLoop, if_pos h]

theorem paramsLoop_step {groupCnt : ℤ} {i : ℕ} (h : 2 ^ i ≤ groupCnt) (exponents : List ℕ) :
    paramsLoop groupCnt (i :: exponents) = (groupParams (2 ^ i)).bind fun params =>
      (paramsLoop groupCnt exponents).bind fun rest => some (params ++ rest) := by
  rw [paramsLoop, if_neg (not_lt.mpr h)]
  rfl

/-- The rows of a number of groups that is reached are in the result. -/
theorem subset_paramsLoop {groupCnt : ℤ} {exponents : List ℕ} {params : List (List ℚ)}
    (h : paramsLoop groupCnt exponents = some params) {i : ℕ} (hi : i ∈ exponents)
    (hle : ∀ k ∈ exponents, k ≤ i → (2 : ℤ) ^ k ≤ groupCnt) (hsorted : exponents.Pairwise (· < ·)) :
    ∃ rows, groupParams (2 ^ i) = some rows ∧ ∀ row ∈ rows, row ∈ params := by
  induction exponents generalizing params with
  | nil => exact absurd hi List.not_mem_nil
  | cons k exponents ih =>
    have hk : k ≤ i := by
      rcases List.mem_cons.mp hi with rfl | hi
      · exact le_refl _
      · exact (List.rel_of_pairwise_cons hsorted hi).le
    rw [paramsLoop_step (hle k List.mem_cons_self hk)] at h
    obtain ⟨rows, hrows, h⟩ := Option.bind_eq_some_iff.mp h
    obtain ⟨rest, hrest, h⟩ := Option.bind_eq_some_iff.mp h
    obtain rfl := Option.some.inj h
    rcases List.mem_cons.mp hi with rfl | hi
    · exact ⟨rows, hrows, fun row hrow => List.mem_append_left _ hrow⟩
    · have hle' := fun j hj => hle j (List.mem_cons_of_mem _ hj)
      obtain ⟨rows', hrows', hmem⟩ := ih hrest hi hle' (List.pairwise_cons.mp hsorted).2
      exact ⟨rows', hrows', fun row hrow => List.mem_append_right _ (hmem row hrow)⟩

/-! ## Two groups and four groups -/

theorem ratioSum_groupParams_two :
    ∃ rows, groupParams 2 = some rows ∧ ∀ s ∈ formatLists rows, ratioSum s = some 1 :=
  ⟨(groupParams 2).getD [], by decide +kernel, by decide +kernel⟩

theorem groupParams_four : ∃ rows, groupParams 4 = some rows ∧
    "0.2:0.267:0.267:0.267".toList ∈ formatLists rows :=
  ⟨(groupParams 4).getD [], by decide +kernel, by decide +kernel⟩

theorem ratioSum_four : ratioSum "0.2:0.267:0.267:0.267".toList = some (1001 / 1000) := by
  decide +kernel

theorem genParams_of_lt_two {groupCnt : ℤ} (step : ℤ) (h : groupCnt < 2) :
    genParams step groupCnt = some [] := by
  rw [genParams, List.range'_succ, paramsLoop_stop (by omega)]
  rfl

theorem genParams_of_lt_four {groupCnt : ℤ} (step : ℤ) (htwo : 2 ≤ groupCnt) (h : groupCnt < 4) :
    genParams step groupCnt = (groupParams 2).map formatLists := by
  rw [genParams, List.range'_succ, List.range'_succ, paramsLoop_step (by omega),
    paramsLoop_stop (by omega)]
  show ((groupParams 2).bind fun params => some (params ++ [])).map formatLists = _
  simp only [List.append_nil]
  rw [Option.bind_fun_some]

/-- The loop passes four groups. -/
theorem not_acceptable_of_four_le {groupCnt : ℤ} (step : ℤ) (hfour : 4 ≤ groupCnt) :
    ¬ RatiosAcceptable (genParams step groupCnt) := by
  intro ⟨strings, hstrings, hsum⟩
  obtain ⟨params, hparams, rfl⟩ := Option.map_eq_some_iff.mp hstrings
  have hle : ∀ k ∈ List.range' 1 9999, k ≤ 2 → (2 : ℤ) ^ k ≤ groupCnt := by
    intro k _ hk
    have hpow : (2 : ℤ) ^ k ≤ 2 ^ 2 := pow_le_pow_right₀ (by omega) hk
    omega
  have hmem : 2 ∈ List.range' 1 9999 := List.mem_range'_1.mpr (by omega)
  obtain ⟨rows, hrows, hsub⟩ := subset_paramsLoop hparams hmem hle List.pairwise_lt_range'
  obtain ⟨rows', hrows', hfourth⟩ := groupParams_four
  obtain rfl := Option.some.inj (hrows.symm.trans hrows')
  obtain ⟨row, hrow, hformat⟩ := List.mem_map.mp hfourth
  have hone := hsum _ (List.mem_map_of_mem (hsub row hrow))
  rw [hformat, ratioSum_four] at hone
  exact absurd (Option.some.inj hone) (by norm_num)

/-- The strings that `gen_params` returns denote ratios that sum to 1 exactly when there are
no four groups. -/
theorem genParams_acceptable_iff (step groupCnt : ℤ) :
    RatiosAcceptable (genParams step groupCnt) ↔ groupCnt < 4 := by
  constructor
  · intro h
    by_contra hfour
    exact not_acceptable_of_four_le step (not_lt.mp hfour) h
  · intro hfour
    by_cases htwo : groupCnt < 2
    · exact ⟨[], genParams_of_lt_two step htwo, fun s hs => absurd hs List.not_mem_nil⟩
    · obtain ⟨rows, hrows, hsum⟩ := ratioSum_groupParams_two
      refine ⟨formatLists rows, ?_, hsum⟩
      rw [genParams_of_lt_four step (not_lt.mp htwo) hfour, hrows]
      rfl

/-- With four groups, the ratios of one string sum to 1.001. -/
theorem not_genParams_acceptable_four : ¬ RatiosAcceptable (genParams 10 4) :=
  not_acceptable_of_four_le 10 (le_refl 4)

end Autotest
end PamoRxpBench
