import Mathlib.Data.List.Flatten
import Mathlib.Data.List.Forall2
import Mathlib.Data.List.Lex
import Mathlib.Data.List.Nodup
import Mathlib.Data.List.Range
import Mathlib.Tactic.Linarith

/-!
# Grids of positions

The positions of a grid with the given sizes, the last coordinate varying fastest. Every
position occurs (`mem_positions`), in strictly increasing lexicographic order
(`pairwise_lex_positions`), and their number is the product of the sizes
(`length_positions`). The last section is about lists whose elements are repeated.
-/

namespace PamoRxpBench
namespace Grid

/-- The positions of a grid, in order. -/
def positions : List ℕ → List (List ℕ)
  | [] => [[]]
  | n :: sizes => (List.range n).flatMap fun i => (positions sizes).map (i :: ·)

/-- The positions are the tuples below the sizes. -/
theorem mem_positions {sizes pos : List ℕ} :
    pos ∈ positions sizes ↔ List.Forall₂ (· < ·) pos sizes := by
  induction sizes generalizing pos with
  | nil => rw [positions, List.mem_singleton, List.forall₂_nil_right_iff]
  | cons n sizes ih =>
    simp only [positions, List.mem_flatMap, List.mem_range, List.mem_map, ih]
    constructor
    · intro ⟨i, hi, rest, hrest, heq⟩
      rw [← heq]
      exact .cons hi hrest
    · intro h
      cases h with
      | cons hi hrest => exact ⟨_, hi, _, hrest, rfl⟩

/-- They come in the order in which nested loops visit them. -/
theorem pairwise_lex_positions (sizes : List ℕ) :
    (positions sizes).Pairwise (List.Lex (· < ·)) := by
  induction sizes with
  | nil => exact List.pairwise_singleton _ _
  | cons n sizes ih =>
    rw [positions, List.pairwise_flatMap]
    constructor
    · intro i _
      -- same first coordinate: the order of the others
      exact List.pairwise_map.mpr (ih.imp fun h => .cons h)
    · refine List.pairwise_lt_range.imp fun {i j} hij => ?_
      intro x hx y hy
      obtain ⟨s, -, rfl⟩ := List.mem_map.mp hx
      obtain ⟨t, -, rfl⟩ := List.mem_map.mp hy
      exact .rel hij

/-- No position occurs twice. -/
theorem nodup_positions (sizes : List ℕ) : (positions sizes).Nodup := by
  refine (pairwise_lex_positions sizes).imp fun {s t} hlex heq => ?_
  rw [heq] at hlex
  exact irrefl_of (List.Lex (· < ·)) t hlex

/-- There are as many as the product of the sizes. -/
theorem length_positions (sizes : List ℕ) :
    ∀ n, sizes.foldl (· * ·) n = n * (positions sizes).length := by
  induction sizes with
  | nil => intro n; simp [positions]
  | cons m sizes ih =>
    intro n
    have hlen : (positions (m :: sizes)).length = m * (positions sizes).length := by
      simp [positions, List.length_flatMap, List.map_const']
    rw [List.foldl_cons, ih, hlen, Nat.mul_assoc]

/-! ## Repeated elements -/

section Repeated
variable {α β : Type}

/-- Repetitions multiply the length. -/
theorem length_flatMap_replicate (l : List α) (n : ℕ) (f : α → β) :
    (l.flatMap fun a => List.replicate n (f a)).length = n * l.length := by
  induction l with
  | nil => rfl
  | cons a l ih =>
    rw [List.flatMap_cons, List.length_append, List.length_replicate, ih, List.length_cons,
      Nat.mul_add, Nat.mul_one, Nat.add_comm]

theorem countP_flatMap_replicate_eq_zero {l : List α} (n : ℕ) (f : α → β) {p : β → Bool}
    (hp : ∀ b ∈ l, ¬ p (f b) = true) :
    (l.flatMap fun b => List.replicate n (f b)).countP p = 0 := by
  apply List.countP_eq_zero.mpr
  intro x hx
  obtain ⟨b, hb, hrep⟩ := List.mem_flatMap.mp hx
  rw [List.eq_of_mem_replicate hrep]
  exact hp b hb

/-- An element that occurs once in `l` occurs `n` times when all are repeated `n` times. -/
theorem countP_flatMap_replicate {l : List α} (n : ℕ) (f : α → β) {p : β → Bool} {a : α}
    (hnodup : l.Nodup) (ha : a ∈ l) (hp : ∀ b ∈ l, p (f b) = true ↔ b = a) :
    (l.flatMap fun b => List.replicate n (f b)).countP p = n := by
  obtain ⟨s, t, rfl⟩ := List.append_of_mem ha
  have hnot : a ∉ s ++ t := (List.nodup_cons.mp (List.nodup_middle.mp hnodup)).1
  rw [List.mem_append, not_or] at hnot
  have hs := countP_flatMap_replicate_eq_zero (l := s) n f (p := p) fun b hb hpb =>
    hnot.1 ((hp b (List.mem_append_left _ hb)).mp hpb ▸ hb)
  have ht := countP_flatMap_replicate_eq_zero (l := t) n f (p := p) fun b hb hpb =>
    hnot.2 ((hp b (by simp [hb])).mp hpb ▸ hb)
  have hpa : p (f a) = true := (hp a ha).mpr rfl
  rw [List.flatMap_append, List.flatMap_cons, List.countP_append, List.countP_append, hs, ht,
    List.countP_replicate, if_pos hpa]
  omega

end Repeated

end Grid
end PamoRxpBench
