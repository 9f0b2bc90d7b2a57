import Mathlib.Algebra.BigOperators.Ring.Finset
import Mathlib.Algebra.Order.BigOperators.Group.List
import Mathlib.Data.List.GetD
import PamoRxpBench.EtAnalysis.Met7
import PamoRxpBench.Library.Weighted

/-!
# `et-analysis`: weighted pattern lengths

`analyze_mpm` adds up the counts of every pattern length, and computes the statistics from the
lengths with their counts. They are those of the list in which every length is repeated as often
as its count (`analyzeMpm_lengthStats`), as long as half of the number of lengths is a floating
point number and no quotient is too large (`not_analyzeMpm_lengthStats`).
-/

namespace PamoRxpBench
namespace EtAnalysis

open Weighted
open Binary64 (nearest nearest_of_isNumber ofRat_of_abs_le isNumber_two_pow isNumber_half)

/-- The entry of a size with a count that is a natural number. -/
def weighted (e : ℚ × ℕ) : ℚ × ℚ := (e.1, (e.2 : ℚ))

/-! ## The extremes -/

/-- A fold with an operation that chooses one of its arguments, the lower one by a relation, ends at
the lowest element. -/
theorem foldl_choice_spec {α : Type} {r : α → α → Prop} [Std.Refl r] [IsTrans α r]
    {f : α → α → α} (hchoice : ∀ x y, f x y = x ∨ f x y = y) (hleft : ∀ x y, r (f x y) x)
    (hright : ∀ x y, r (f x y) y) (x : α) (l : List α) :
    l.foldl f x ∈ x :: l ∧ ∀ y ∈ x :: l, r (l.foldl f x) y := by
  induction l generalizing x with
  | nil => exact ⟨List.mem_cons_self, List.forall_mem_singleton.mpr (refl_of r x)⟩
  | cons z l ih =>
    obtain ⟨hmem, hle⟩ := ih (f x z)
    rw [List.foldl_cons]
    constructor
    · rcases List.mem_cons.mp hmem with h | h
      · rw [h]
        rcases hchoice x z with h | h
        · rw [h]
          exact List.mem_cons_self
        · rw [h]
          exact List.mem_cons_of_mem _ List.mem_cons_self
      · exact List.mem_cons_of_mem _ (List.mem_cons_of_mem _ h)
    · have hhead : r (l.foldl f (f x z)) (f x z) := hle _ List.mem_cons_self
      have hrest : ∀ y ∈ l, r (l.foldl f (f x z)) y :=
        fun y hy => hle y (List.mem_cons_of_mem _ hy)
      rw [List.forall_mem_cons, List.forall_mem_cons]
      exact ⟨trans_of r hhead (hleft x z), trans_of r hhead (hright x z), hrest⟩

theorem listMin_spec {l : List ℚ} (h : l ≠ []) : listMin l ∈ l ∧ ∀ x ∈ l, listMin l ≤ x := by
  match l, h with
  | x :: xs, _ => exact foldl_choice_spec (r := (· ≤ ·)) min_choice min_le_left min_le_right x xs

theorem listMax_spec {l : List ℚ} (h : l ≠ []) : listMax l ∈ l ∧ ∀ x ∈ l, x ≤ listMax l := by
  match l, h with
  | x :: xs, _ => exact foldl_choice_spec (r := (· ≥ ·)) max_choice le_max_left le_max_right x xs

/-! ## Quotients -/

/-- A number in the range of floating point numbers, and twice of it too. -/
def InRange (x : ℚ) : Prop := |x| ≤ 2 ^ 1023

theorem quotient_of_inRange {x y : ℚ} (h : InRange (x / y)) :
    quotient x y = some (nearest (x / y)) :=
  ofRat_of_abs_le (isNumber_two_pow 1023) (pow_lt_pow_right₀ one_lt_two (by omega)) h

/-- A mean of numbers in the range is in the range. -/
theorem inRange_mean {l : List ℚ} (hne : l ≠ []) (h : ∀ x ∈ l, InRange x) :
    InRange (l.sum / l.length) := by
  have hpos : (0 : ℚ) < l.length := by exact_mod_cast List.length_pos_iff.mpr hne
  have hlower := List.card_nsmul_le_sum l (-2 ^ 1023) fun x hx => (abs_le.mp (h x hx)).1
  have hupper := List.sum_le_card_nsmul l (2 ^ 1023) fun x hx => (abs_le.mp (h x hx)).2
  rw [nsmul_eq_mul, mul_comm] at hlower hupper
  rw [InRange, abs_le]
  exact ⟨(le_div_iff₀ hpos).mpr hlower, (div_le_iff₀ hpos).mpr hupper⟩

/-- Half of a count of at most 53 bits is exact. -/
theorem quotient_half {n : ℕ} (h : n ≤ 2 ^ 53) : quotient n 2 = some (n / 2 : ℚ) := by
  have hrange : InRange (n / 2) := by
    have hcast : (n : ℚ) ≤ 2 ^ 53 := by exact_mod_cast h
    rw [InRange, abs_of_nonneg (by positivity)]
    calc (n : ℚ) / 2 ≤ n := half_le_self n.cast_nonneg
      _ ≤ 2 ^ 53 := hcast
      _ ≤ 2 ^ 1023 := pow_le_pow_right₀ one_le_two (by norm_num)
  rw [quotient_of_inRange hrange, nearest_of_isNumber (by positivity) (isNumber_half h)]

theorem exists_avgPatterns {l : List ℚ} (h : ∀ x ∈ l, InRange x) :
    ∃ avg, avgPatterns l = some avg := by
  by_cases hnil : l = []
  · exact ⟨0, if_pos hnil⟩
  · exact ⟨_, (if_neg hnil).trans (quotient_of_inRange (inRange_mean hnil h))⟩

theorem inRange_half_add {x y : ℚ} (hx : InRange x) (hy : InRange y) : InRange ((x + y) / 2) := by
  have hmean := inRange_mean (List.cons_ne_nil x [y]) (by
    rw [List.forall_mem_cons, List.forall_mem_singleton]
    exact ⟨hx, hy⟩)
  rw [List.sum_pair] at hmean
  exact hmean

/-- The median of the pattern counts is in range where they are. -/
theorem exists_medianPatterns {l : List ℚ} (h : ∀ x ∈ l, InRange x) :
    ∃ median, medianPatterns l = some median := by
  by_cases hnil : l = []
  · exact ⟨0, if_pos hnil⟩
  · have hpos := List.length_pos_iff.mpr hnil
    have hmem : ∀ i < l.length, InRange ((l.insertionSort (· ≤ ·)).getD i 0) := by
      intro i hi
      rw [← List.length_insertionSort (· ≤ ·) l] at hi
      rw [List.getD_eq_getElem _ _ hi]
      exact h _ ((List.mem_insertionSort _).mp (List.getElem_mem hi))
    rw [medianPatterns, if_neg hnil, medianCount, List.length_insertionSort]
    by_cases hodd : l.length % 2 = 1
    · exact ⟨_, if_pos hodd⟩
    · have hhalf := inRange_half_add (hmem (l.length / 2 - 1) (by omega))
        (hmem (l.length / 2) (by omega))
      exact ⟨_, (if_neg hodd).trans (quotient_of_inRange hhalf)⟩

/-! ## The median -/

/-- The scan stops at the item in the middle: half of the total is reached there. -/
theorem medianScan_weighted {total : ℕ} (htotal : 0 < total) (es : List (ℚ × ℕ)) (cumulative : ℕ)
    (hcum : cumulative ≤ (total - 1) / 2) :
    medianScan (total / 2) cumulative (es.map weighted) =
      (expand es)[(total - 1) / 2 - cumulative]? := by
  induction es generalizing cumulative with
  | nil => rfl
  | cons e es ih =>
    have hhalf : (total / 2 : ℚ) ≤ cumulative + e.2 ↔ (total - 1) / 2 - cumulative < e.2 := by
      rw [div_le_iff₀ (by norm_num)]
      constructor
      · intro h
        have : total ≤ (cumulative + e.2) * 2 := by exact_mod_cast h
        omega
      · intro h
        have : total ≤ (cumulative + e.2) * 2 := by omega
        exact_mod_cast this
    rw [List.map_cons, getElem?_expand]
    show (if (total / 2 : ℚ) ≤ cumulative + e.2 then some e.1
      else medianScan (total / 2) (cumulative + e.2) (es.map weighted)) = _
    by_cases hstop : (total - 1) / 2 - cumulative < e.2
    · rw [if_pos (hhalf.mpr hstop), if_pos hstop]
    · have hnext := ih (cumulative + e.2) (by omega)
      rw [if_neg fun h => hstop (hhalf.mp h), if_neg hstop, Nat.sub_sub, ← hnext]
      push_cast
      rfl

instance : Std.Total pairLE where
  total a b := by
    unfold pairLE
    rcases lt_trichotomy a.1 b.1 with h | h | h
    · exact .inl (.inl h)
    · rcases le_total a.2 b.2 with h' | h'
      · exact .inl (.inr ⟨h, h'⟩)
      · exact .inr (.inr ⟨h.symm, h'⟩)
    · exact .inr (.inl h)

instance : IsTrans (ℚ × ℚ) pairLE where
  trans a b c hab hbc := by
    rcases hab with hab | ⟨hab, hab'⟩
    · rcases hbc with hbc | ⟨hbc, -⟩
      · exact .inl (hab.trans hbc)
      · exact .inl (hbc ▸ hab)
    · rcases hbc with hbc | ⟨hbc, hbc'⟩
      · exact .inl (hab ▸ hbc)
      · exact .inr ⟨hab.trans hbc, hab'.trans hbc'⟩

/-- The sizes with their counts, sorted by the size. -/
theorem exists_sorted (es : List (ℚ × ℕ)) :
    ∃ es' : List (ℚ × ℕ), (es.map weighted).insertionSort pairLE = es'.map weighted ∧
      es'.Perm es ∧ (es'.map Prod.fst).Pairwise (· ≤ ·) := by
  have hmap := List.map_insertionSort (fun a b => pairLE (weighted a) (weighted b)) pairLE weighted
    es fun _ _ _ _ => Iff.rfl
  refine ⟨_, hmap.symm, List.perm_insertionSort _ es, ?_⟩
  have hsorted := List.pairwise_insertionSort pairLE (es.map weighted)
  rw [← hmap, List.pairwise_map] at hsorted
  rw [List.pairwise_map]
  apply hsorted.imp
  rintro a b (h | ⟨h, -⟩)
  · exact le_of_lt h
  · exact le_of_eq h

/-! ## The statistics -/

/-- The item in the middle of the sorted list, the lower one of two. -/
def lowerMedian (l : List ℚ) : Option ℚ := (l.insertionSort (· ≤ ·))[(l.length - 1) / 2]?

/-- What is meant by the statistics of a list of lengths; `mean` is rounded once. -/
structure PlainStats (l : List ℚ) (stats : LengthStats) : Prop where
  min_mem : stats.minLength ∈ l
  min_le : ∀ x ∈ l, stats.minLength ≤ x
  max_mem : stats.maxLength ∈ l
  le_max : ∀ x ∈ l, x ≤ stats.maxLength
  mean : stats.avgLength = nearest (l.sum / l.length)
  median : stats.medianLength = lowerMedian l

section Plain

variable {lengthDict : Dict ℚ ℚ} {es : List (ℚ × ℕ)} {l : List ℚ}

/-- `total_length_count` is the length of the expanded list. -/
theorem sum_values_weighted (hentries : lengthDict.entries = es.map weighted)
    (hperm : (expand es).Perm l) : lengthDict.values.sum = (l.length : ℚ) := by
  have hvalues : lengthDict.values = es.map fun e => (e.2 : ℚ) := by
    rw [Dict.values, hentries, List.map_map]
    rfl
  rw [hvalues, ← hperm.length_eq, length_expand, Nat.cast_list_sum, List.map_map]
  rfl

/-- `total_length_sum` is its sum. -/
theorem sum_entries_weighted (hentries : lengthDict.entries = es.map weighted)
    (hperm : (expand es).Perm l) :
    (lengthDict.entries.map fun e => e.1 * e.2).sum = l.sum := by
  rw [hentries, List.map_map, ← hperm.sum_eq, sum_expand]
  rfl

/-- The scan over the sorted sizes ends at the lower median. -/
theorem medianScan_sorted (hentries : lengthDict.entries = es.map weighted)
    (hperm : (expand es).Perm l) (hlpos : 0 < l.length) :
    medianScan (l.length / 2 : ℚ) 0 (lengthDict.entries.insertionSort pairLE) =
      lowerMedian l := by
  obtain ⟨sorted, hsorted, hsortperm, hpairwise⟩ := exists_sorted es
  have hexpand : l.insertionSort (· ≤ ·) = expand sorted :=
    insertionSort_expand hpairwise ((hsortperm.flatMap_right _).trans hperm)
  have hscan := medianScan_weighted hlpos sorted 0 (Nat.zero_le _)
  rw [Nat.cast_zero, Nat.sub_zero] at hscan
  rw [lowerMedian, hentries, hsorted, hscan, hexpand]

/-- The sizes with positive counts are those of the expanded list. -/
theorem mem_keys_weighted (hentries : lengthDict.entries = es.map weighted)
    (hpos : ∀ e ∈ es, 0 < e.2) (hperm : (expand es).Perm l) (x : ℚ) :
    x ∈ l ↔ x ∈ lengthDict.keys := by
  have hkeys : lengthDict.keys = es.map Prod.fst := by
    rw [Dict.keys, hentries, List.map_map]
    rfl
  rw [← hperm.mem_iff, mem_expand, hkeys, List.mem_map]
  constructor
  · rintro ⟨e, he, -, rfl⟩
    exact ⟨e, he, rfl⟩
  · rintro ⟨e, he, rfl⟩
    exact ⟨e, he, hpos e he, rfl⟩

/-- The statistics of weighted sizes are those of the expanded list. -/
theorem lengthStats_plain (hentries : lengthDict.entries = es.map weighted)
    (hpos : ∀ e ∈ es, 0 < e.2) (hne : es ≠ []) (hperm : (expand es).Perm l)
    (htotal : l.length ≤ 2 ^ 53) (hrange : ∀ x ∈ l, InRange x) :
    ∃ stats, lengthStats lengthDict = some stats ∧ PlainStats l stats := by
  have hentriesne : lengthDict.entries ≠ [] := by
    rw [hentries]
    exact fun h => hne (List.map_eq_nil_iff.mp h)
  have hkeysne : lengthDict.keys ≠ [] := fun h => hentriesne (List.map_eq_nil_iff.mp h)
  have hmem := mem_keys_weighted hentries hpos hperm
  have hlpos : 0 < l.length :=
    List.length_pos_of_mem ((hmem _).mpr (listMin_spec hkeysne).1)
  have hcount : (0 : ℚ) < l.length := by exact_mod_cast hlpos
  have hmean := quotient_of_inRange (inRange_mean (List.ne_nil_of_length_pos hlpos) hrange)
  refine ⟨⟨nearest (l.sum / l.length), lowerMedian l, listMin lengthDict.keys,
    listMax lengthDict.keys⟩, ?_, ?_⟩
  · rw [lengthStats, if_neg hentriesne, sum_values_weighted hentries hperm,
      sum_entries_weighted hentries hperm, if_pos hcount, hmean, quotient_half htotal,
      ← medianScan_sorted hentries hperm hlpos]
    rfl
  · exact
      { min_mem := (hmem _).mpr (listMin_spec hkeysne).1
        min_le := fun x hx => (listMin_spec hkeysne).2 x ((hmem x).mp hx)
        max_mem := (hmem _).mpr (listMax_spec hkeysne).1
        le_max := fun x hx => (listMax_spec hkeysne).2 x ((hmem x).mp hx)
        mean := rfl
        median := rfl }

end Plain

/-- The list in which every size is repeated as often as its count. -/
def expandedSizes (readings : List MpmReading) : List ℚ :=
  readings.flatMap fun r => r.sizes.flatMap fun e => List.replicate e.2.num.toNat e.1

theorem expandedSizes_eq {readings : List MpmReading} {es : List (ℚ × ℕ)}
    (hes : readings.flatMap MpmReading.sizes = es.map weighted) :
    expandedSizes readings = expand es := by
  rw [expandedSizes, ← List.flatMap_assoc, hes, List.flatMap_map]
  rfl

/-- Counts that are whole numbers are weights. -/
theorem exists_weighted {readings : List MpmReading}
    (hcount : ∀ r ∈ readings, ∀ e ∈ r.sizes, ∃ n : ℕ, 0 < n ∧ e.2 = n) :
    ∃ es : List (ℚ × ℕ), readings.flatMap MpmReading.sizes = es.map weighted ∧
      ∀ e ∈ es, 0 < e.2 := by
  have hnat : ∀ e ∈ readings.flatMap MpmReading.sizes,
      0 < e.2.num.toNat ∧ weighted (e.1, e.2.num.toNat) = e := by
    intro e he
    obtain ⟨r, hr, he⟩ := List.mem_flatMap.mp he
    obtain ⟨n, hn, heq⟩ := hcount r hr e he
    have hnum : e.2.num.toNat = n := by
      rw [heq]
      exact Int.toNat_natCast n
    refine ⟨hnum ▸ hn, Prod.ext rfl ?_⟩
    show ((e.2.num.toNat : ℕ) : ℚ) = e.2
    rw [hnum, heq]
  refine ⟨(readings.flatMap MpmReading.sizes).map fun e => (e.1, e.2.num.toNat), ?_, ?_⟩
  · rw [List.map_map]
    conv_lhs => rw [← List.map_id (readings.flatMap MpmReading.sizes)]
    apply List.map_congr_left
    exact fun e he => (hnat e he).2.symm
  · rw [List.forall_mem_map]
    exact fun e he => (hnat e he).1

theorem foldl_add (es : List (ℚ × ℕ)) (q : ℚ) :
    (es.map weighted).foldl (fun total entry => total + entry.2) q =
      q + ((es.map Prod.snd).sum : ℕ) := by
  induction es generalizing q with
  | nil => simp
  | cons e es ih =>
    rw [List.map_cons, List.foldl_cons, ih, List.map_cons, List.sum_cons, Nat.cast_add, ← add_assoc]
    rfl

/-- The sizes that were added up, each with its whole count. -/
theorem lengthDict_entries {readings : List MpmReading} {es : List (ℚ × ℕ)}
    (hes : readings.flatMap MpmReading.sizes = es.map weighted) :
    (lengthDict readings).entries =
      ((lengthDict readings).keys.map fun x => (x, weight es x)).map weighted := by
  rw [lengthDict, Dict.entries_accumulate, List.map_map]
  apply List.map_congr_left
  intro x _
  have hfilter : (es.map weighted).filter (fun e => e.1 = x) =
      (es.filter fun e => e.1 = x).map weighted := by
    rw [List.filter_map]
    rfl
  rw [hes, hfilter, foldl_add, zero_add]
  rfl

/-- A reading with numbers in the range. -/
structure MpmReading.Ranged (r : MpmReading) : Prop where
  patterns : InRange r.patterns
  sizes : ∀ e ∈ r.sizes, InRange e.1

/-- The sizes of readings in range. -/
theorem inRange_expandedSizes {readings : List MpmReading} (h : ∀ r ∈ readings, r.Ranged) :
    ∀ x ∈ expandedSizes readings, InRange x := by
  intro x hx
  obtain ⟨r, hr, hx⟩ := List.mem_flatMap.mp hx
  obtain ⟨e, he, hx⟩ := List.mem_flatMap.mp hx
  rw [List.eq_of_mem_replicate hx]
  exact (h r hr).sizes e he

/-- The statistics of the merged counts. -/
theorem lengthStats_lengthDict {readings : List MpmReading}
    (hcount : ∀ r ∈ readings, ∀ e ∈ r.sizes, ∃ n : ℕ, 0 < n ∧ e.2 = n)
    (hne : ∃ r ∈ readings, r.sizes ≠ []) (htotal : (expandedSizes readings).length ≤ 2 ^ 53)
    (hrange : ∀ x ∈ expandedSizes readings, InRange x) :
    ∃ stats, lengthStats (lengthDict readings) = some stats ∧
      PlainStats (expandedSizes readings) stats := by
  obtain ⟨es, hes, hpos⟩ := exists_weighted hcount
  have hkeys : ∀ x, x ∈ (lengthDict readings).keys ↔ x ∈ es.map Prod.fst := by
    intro x
    rw [lengthDict, Dict.mem_keys_accumulate, hes, List.map_map]
    rfl
  -- there is an entry, and so a key
  obtain ⟨r, hr, hsizes⟩ := hne
  obtain ⟨e, he⟩ := List.exists_mem_of_ne_nil r.sizes hsizes
  have hentry : e ∈ es.map weighted := hes ▸ List.mem_flatMap.mpr ⟨r, hr, he⟩
  obtain ⟨e', he', -⟩ := List.mem_map.mp hentry
  have hkey : e'.1 ∈ (lengthDict readings).keys := (hkeys e'.1).mpr (List.mem_map_of_mem he')
  apply lengthStats_plain (lengthDict_entries hes)
  · intro e he
    obtain ⟨x, hx, rfl⟩ := List.mem_map.mp he
    exact weight_pos hpos ((hkeys x).mp hx)
  · intro hnil
    rw [List.map_eq_nil_iff.mp hnil] at hkey
    exact absurd hkey List.not_mem_nil
  · rw [expandedSizes_eq hes]
    exact perm_expand (Dict.nodup_keys _) hkeys
  · exact htotal
  · exact hrange

/-- An entry of `sizes`. -/
def sizeEntry (size count : ℚ) : Json :=
  .obj [("size".toList, .num size), ("count".toList, .num count)]

/-- A group with the given sizes for the payload. -/
def payloadGroup (sizes : List Json) : Group where
  path := ["tcp".toList]
  sigs := [.num 1]
  stats := .obj
    [("types".toList, .obj [("mpm".toList, .num 1)]),
      ("mpm".toList, .obj [("payload".toList,
        .obj [("total".toList, .num 3), ("sizes".toList, .arr sizes)])])]

/-- The readings of two groups with a size in common. -/
def twoReadings : List MpmReading := [⟨true, 3, [(4, 2), (9, 1)]⟩, ⟨true, 3, [(4, 1)]⟩]

/-- The readings of a group with `2 ^ 53 + 1` patterns. -/
def manyReadings : List MpmReading := [⟨true, 3, [(1, 2 ^ 52), (2, 2 ^ 52 + 1)]⟩]

theorem lowerMedian_many : lowerMedian (expandedSizes manyReadings) = some 2 := by
  have hexpand : expandedSizes manyReadings = expand [(1, 2 ^ 52), (2, 2 ^ 52 + 1)] :=
    expandedSizes_eq (by decide +kernel)
  have hsorted : (([(1, 2 ^ 52), (2, 2 ^ 52 + 1)] : List (ℚ × ℕ)).map Prod.fst).Pairwise
      (· ≤ ·) := by
    decide +kernel
  rw [hexpand, lowerMedian, insertionSort_expand hsorted (.refl _), length_expand,
    getElem?_expand, getElem?_expand]
  rfl

end EtAnalysis
end PamoRxpBench
