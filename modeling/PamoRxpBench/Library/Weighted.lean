import Mathlib.Data.List.Sort
import Mathlib.Algebra.BigOperators.Group.List.Basic
import Mathlib.Algebra.Order.Ring.Int

/-!
# Weighted lists

A list of values with their weights stands for the list in which every value is repeated as often
as its weight says (`expand`).

* `perm_expand`: the weights of a value can be added up;
* `pairwise_expand`: when the expanded list is sorted;
* `getElem?_expand`: the item at a place is found by adding up the weights before it.
-/

namespace PamoRxpBench
namespace Weighted

variable {α : Type}

/-- The list in which every value is repeated as often as its weight. -/
def expand (es : List (α × ℕ)) : List α := es.flatMap fun e => List.replicate e.2 e.1

theorem expand_cons (e : α × ℕ) (es : List (α × ℕ)) :
    expand (e :: es) = List.replicate e.2 e.1 ++ expand es := List.flatMap_cons

/-- The list is as long as the sum of the weights. -/
theorem length_expand (es : List (α × ℕ)) : (expand es).length = (es.map Prod.snd).sum := by
  induction es with
  | nil => rfl
  | cons e es ih =>
    rw [expand_cons, List.length_append, List.length_replicate, ih, List.map_cons, List.sum_cons]

theorem mem_expand {es : List (α × ℕ)} {x : α} : x ∈ expand es ↔ ∃ e ∈ es, 0 < e.2 ∧ e.1 = x := by
  simp only [expand, List.mem_flatMap, List.mem_replicate, ne_eq, ← Nat.pos_iff_ne_zero, eq_comm]

/-- The sum of the expanded list. -/
theorem sum_expand {R : Type} [CommSemiring R] (es : List (R × ℕ)) :
    (expand es).sum = (es.map fun e => e.1 * (e.2 : R)).sum := by
  induction es with
  | nil => rfl
  | cons e es ih =>
    rw [expand_cons, List.sum_append, List.sum_replicate, ih, List.map_cons, List.sum_cons,
      nsmul_eq_mul, mul_comm]

/-! ## Adding up weights -/

/-- The weight of a value, from all its entries. -/
def weight [DecidableEq α] (es : List (α × ℕ)) (x : α) : ℕ :=
  ((es.filter fun e => e.1 = x).map Prod.snd).sum

theorem weight_cons [DecidableEq α] (e : α × ℕ) (es : List (α × ℕ)) (x : α) :
    weight (e :: es) x = (if e.1 = x then e.2 else 0) + weight es x := by
  by_cases hx : e.1 = x
  · simp [weight, hx]
  · simp [weight, hx]

/-- An element is there as often as all its entries weigh. -/
theorem count_expand [DecidableEq α] (es : List (α × ℕ)) (x : α) :
    (expand es).count x = weight es x := by
  induction es with
  | nil => rfl
  | cons e es ih =>
    rw [expand_cons, List.count_append, List.count_replicate, ih, weight_cons]
    simp only [beq_iff_eq]

theorem weight_pos [DecidableEq α] {es : List (α × ℕ)} (hpos : ∀ e ∈ es, 0 < e.2) {x : α}
    (hx : x ∈ es.map Prod.fst) : 0 < weight es x := by
  obtain ⟨e, he, rfl⟩ := List.mem_map.mp hx
  rw [← count_expand, List.count_pos_iff, mem_expand]
  exact ⟨e, he, hpos e he, rfl⟩

theorem weight_of_not_mem [DecidableEq α] {es : List (α × ℕ)} {x : α}
    (hx : x ∉ es.map Prod.fst) : weight es x = 0 := by
  rw [← count_expand, List.count_eq_zero, mem_expand]
  rintro ⟨e, he, -, rfl⟩
  exact hx (List.mem_map_of_mem he)

/-- Every value once, with its whole weight, gives the same list up to the order. -/
theorem perm_expand [DecidableEq α] {es : List (α × ℕ)} {xs : List α} (hnodup : xs.Nodup)
    (hxs : ∀ x, x ∈ xs ↔ x ∈ es.map Prod.fst) :
    (expand (xs.map fun x => (x, weight es x))).Perm (expand es) := by
  rw [List.perm_iff_count]
  intro x
  have hcount : ∀ ys : List α, ys.Nodup →
      (expand (ys.map fun y => (y, weight es y))).count x = if x ∈ ys then weight es x else 0 := by
    intro ys hys
    induction ys with
    | nil => rfl
    | cons y ys ih =>
      obtain ⟨hy, htail⟩ := List.nodup_cons.mp hys
      rw [List.map_cons, expand_cons, List.count_append, List.count_replicate, ih htail]
      by_cases hxy : y = x
      · subst hxy
        rw [if_neg hy, if_pos List.mem_cons_self, if_pos (beq_self_eq_true y), Nat.add_zero]
      · have hmem : x ∈ y :: ys ↔ x ∈ ys := by
          rw [List.mem_cons]
          exact or_iff_right (Ne.symm hxy)
        rw [if_neg (by simpa using hxy), Nat.zero_add]
        simp only [hmem]
  rw [hcount xs hnodup, count_expand]
  by_cases hx : x ∈ xs
  · rw [if_pos hx]
  · rw [if_neg hx, weight_of_not_mem fun h => hx ((hxs x).mpr h)]

/-! ## Order -/

/-- Sorted entries expand to a sorted list. -/
theorem pairwise_expand [LinearOrder α] {es : List (α × ℕ)}
    (h : (es.map Prod.fst).Pairwise (· ≤ ·)) : (expand es).Pairwise (· ≤ ·) := by
  induction es with
  | nil => exact .nil
  | cons e es ih =>
    obtain ⟨hhead, htail⟩ := List.pairwise_cons.mp h
    rw [expand_cons, List.pairwise_append]
    refine ⟨List.pairwise_replicate.mpr (.inr le_rfl), ih htail, ?_⟩
    intro x hx y hy
    obtain ⟨e', he', -, rfl⟩ := mem_expand.mp hy
    rw [List.eq_of_mem_replicate hx]
    exact hhead e'.1 (List.mem_map_of_mem he')

/-- Sorting the expanded list. -/
theorem insertionSort_expand [LinearOrder α] {es : List (α × ℕ)} {l : List α}
    (hsorted : (es.map Prod.fst).Pairwise (· ≤ ·)) (hperm : (expand es).Perm l) :
    l.insertionSort (· ≤ ·) = expand es := by
  apply List.Perm.eq_of_pairwise' (r := (· ≤ ·))
  · exact List.pairwise_insertionSort _ l
  · exact pairwise_expand hsorted
  · exact (List.perm_insertionSort _ l).trans hperm.symm

/-- The item at a place of the expanded list: the values before it have that many items. -/
theorem getElem?_expand (es : List (α × ℕ)) (e : α × ℕ) (k : ℕ) :
    (expand (e :: es))[k]? = if k < e.2 then some e.1 else (expand es)[k - e.2]? := by
  rw [expand_cons, List.getElem?_append, List.length_replicate]
  by_cases hk : k < e.2
  · rw [if_pos hk, if_pos hk, List.getElem?_replicate, if_pos hk]
  · rw [if_neg hk, if_neg hk]

end Weighted
end PamoRxpBench
