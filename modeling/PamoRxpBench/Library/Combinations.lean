import Mathlib.Algebra.Group.Nat.Defs
import Mathlib.Data.List.Lex
import Mathlib.Data.List.Nodup
import Mathlib.Data.Nat.Choose.Basic

/-!
# `itertools.combinations` and `itertools.product`

Both are enumerated in lexicographic order (`pairwise_lex_combinations`, `pairwise_lex_product`), so
without repetitions if the list they are made from has none.
-/

namespace PamoRxpBench
namespace Combinations

variable {α : Type}

/-- `itertools.combinations(l, k)`. -/
def combinations : List α → ℕ → List (List α)
  | _, 0 => [[]]
  | [], _ + 1 => []
  | x :: l, k + 1 => (combinations l k).map (x :: ·) ++ combinations l (k + 1)

/-- `itertools.product(l, repeat=k)`. -/
def product (l : List α) : ℕ → List (List α)
  | 0 => [[]]
  | k + 1 => l.flatMap fun x => (product l k).map (x :: ·)

variable {r : α → α → Prop} {l : List α}

/-- There are as many combinations as subsets of the places. -/
theorem length_combinations (l : List α) (k : ℕ) :
    (combinations l k).length = l.length.choose k := by
  induction l generalizing k with
  | nil =>
    cases k with
    | zero => rfl
    | succ k => exact (Nat.choose_zero_succ k).symm
  | cons x l ih =>
    cases k with
    | zero => exact (Nat.choose_zero_right _).symm
    | succ k =>
      rw [combinations, List.length_append, List.length_map, ih, ih, List.length_cons,
        Nat.choose_succ_succ]

/-- The combinations are all lists of the length with elements in the order of the list. -/
theorem mem_combinations {k : ℕ} {c : List α} :
    c ∈ combinations l k ↔ c.Sublist l ∧ c.length = k := by
  induction l generalizing k c with
  | nil =>
    rw [List.sublist_nil]
    cases k with
    | zero =>
      rw [combinations, List.mem_singleton]
      exact ⟨fun h => ⟨h, h ▸ rfl⟩, fun h => h.1⟩
    | succ k => exact iff_of_false List.not_mem_nil fun h => by cases h.1; cases h.2
  | cons x l ih =>
    cases k with
    | zero =>
      rw [combinations, List.mem_singleton, List.length_eq_zero_iff]
      exact ⟨fun h => ⟨h ▸ List.nil_sublist _, h⟩, fun h => h.2⟩
    | succ k =>
      rw [combinations, List.mem_append, List.mem_map, ih]
      constructor
      · rintro (⟨c, hc, rfl⟩ | h)
        · obtain ⟨hsub, hlen⟩ := ih.mp hc
          exact ⟨hsub.cons_cons x, congrArg (· + 1) hlen⟩
        · exact ⟨h.1.cons x, h.2⟩
      · rintro ⟨hsub, hlen⟩
        rcases List.sublist_cons_iff.mp hsub with h | ⟨c, rfl, h⟩
        · exact .inr ⟨h, hlen⟩
        · exact .inl ⟨c, ih.mpr ⟨h, Nat.succ.inj hlen⟩, rfl⟩

/-- Combinations come in the order of the list. -/
theorem pairwise_lex_combinations (h : l.Pairwise r) (k : ℕ) :
    (combinations l k).Pairwise (List.Lex r) := by
  induction l generalizing k with
  | nil =>
    cases k with
    | zero => exact List.pairwise_singleton _ _
    | succ k => exact List.Pairwise.nil
  | cons x l ih =>
    cases k with
    | zero => exact List.pairwise_singleton _ _
    | succ k =>
      obtain ⟨hx, hl⟩ := List.pairwise_cons.mp h
      rw [combinations, List.pairwise_append]
      refine ⟨List.pairwise_map.mpr ((ih hl k).imp fun h => .cons h), ih hl (k + 1), ?_⟩
      intro s hs t ht
      obtain ⟨s, _, rfl⟩ := List.mem_map.mp hs
      obtain ⟨hsub, hlen⟩ := mem_combinations.mp ht
      cases t with
      | nil => cases hlen
      | cons y t => exact .rel (hx y (hsub.subset List.mem_cons_self))

/-- So do words. -/
theorem pairwise_lex_product (h : l.Pairwise r) (k : ℕ) :
    (product l k).Pairwise (List.Lex r) := by
  induction k with
  | zero => exact List.pairwise_singleton _ _
  | succ k ih =>
    rw [product, List.pairwise_flatMap]
    refine ⟨fun x _ => List.pairwise_map.mpr (ih.imp fun h => .cons h), h.imp fun {x y} hxy => ?_⟩
    intro s hs t ht
    obtain ⟨s, _, rfl⟩ := List.mem_map.mp hs
    obtain ⟨t, _, rfl⟩ := List.mem_map.mp ht
    exact .rel hxy

theorem length_product (l : List α) (k : ℕ) : (product l k).length = l.length ^ k := by
  induction k with
  | zero => rfl
  | succ k ih =>
    have hmap : (fun x => ((product l k).map (x :: ·)).length) = fun _ => l.length ^ k := by
      funext x
      rw [List.length_map, ih]
    rw [product, List.length_flatMap, hmap, List.map_const', List.sum_replicate_nat,
      Nat.pow_succ']

theorem mem_product {k : ℕ} {w : List α} : w ∈ product l k ↔ w.length = k ∧ ∀ x ∈ w, x ∈ l := by
  induction k generalizing w with
  | zero =>
    rw [product, List.mem_singleton, List.length_eq_zero_iff]
    refine ⟨?_, And.left⟩
    intro h
    rw [h]
    exact ⟨rfl, fun x hx => absurd hx List.not_mem_nil⟩
  | succ k ih =>
    rw [product, List.mem_flatMap]
    constructor
    · intro ⟨x, hx, hw⟩
      obtain ⟨v, hv, rfl⟩ := List.mem_map.mp hw
      exact ⟨congrArg (· + 1) (ih.mp hv).1, List.forall_mem_cons.mpr ⟨hx, (ih.mp hv).2⟩⟩
    · intro ⟨hlength, hw⟩
      cases w with
      | nil => cases hlength
      | cons x w =>
        obtain ⟨hx, hw⟩ := List.forall_mem_cons.mp hw
        exact ⟨x, hx, List.mem_map_of_mem (ih.mpr ⟨Nat.succ.inj hlength, hw⟩)⟩

/-- The words with a property that excludes a letter are words over the others. -/
theorem filter_product_cons {x : α} {P : List α → Bool} (h : ∀ w, P w = true → x ∉ w) (k : ℕ) :
    (product (x :: l) k).filter P = (product l k).filter P := by
  induction k generalizing P with
  | zero => rfl
  | succ k ih =>
    have htail : ∀ y w, P (y :: w) = true → x ∉ w := fun y w hw hmem =>
      h (y :: w) hw (List.mem_cons_of_mem y hmem)
    have hx : ((product (x :: l) k).map (x :: ·)).filter P = [] := by
      apply List.filter_eq_nil_iff.mpr
      intro v hv hP
      obtain ⟨w, _, rfl⟩ := List.mem_map.mp hv
      exact h (x :: w) hP List.mem_cons_self
    rw [product, product, List.flatMap_cons, List.filter_append, hx, List.nil_append,
      List.filter_flatMap, List.filter_flatMap]
    apply congrArg (fun f => l.flatMap f)
    funext y
    rw [List.filter_map, List.filter_map]
    exact congrArg _ (ih fun w hw => htail y w hw)

/-- There is a sorted word for each multiset of letters. -/
theorem length_filter_product {s : α → α → Prop} (hrefl : ∀ x, s x x) {P : List α → Bool}
    (hP : ∀ w, P w = true ↔ w.Pairwise s) (h : l.Pairwise fun x y => s x y ∧ ¬ s y x) (k : ℕ) :
    ((product l k).filter P).length = Nat.multichoose l.length k := by
  have hnil : P [] = true := (hP []).mpr List.Pairwise.nil
  induction l generalizing k with
  | nil =>
    cases k with
    | zero =>
      rw [product, List.filter_cons_of_pos hnil, Nat.multichoose_zero_right]
      rfl
    | succ k =>
      rw [List.length_nil, Nat.multichoose_zero_succ]
      rfl
  | cons x l ihl =>
    obtain ⟨hx, hl⟩ := List.pairwise_cons.mp h
    induction k with
    | zero =>
      rw [product, List.filter_cons_of_pos hnil, Nat.multichoose_zero_right]
      rfl
    | succ k ihk =>
      -- the words that start with the first letter
      have hfirst : (((product (x :: l) k).map (x :: ·)).filter P).length =
          Nat.multichoose (l.length + 1) k := by
        rw [List.filter_map, List.length_map]
        refine Eq.trans ?_ ihk
        refine congrArg _ (List.filter_congr fun w hw => ?_)
        rw [Bool.eq_iff_iff, Function.comp_apply, hP, hP, List.pairwise_cons]
        refine and_iff_right fun y hy => ?_
        rcases List.mem_cons.mp ((mem_product.mp hw).2 y hy) with rfl | hy
        · exact hrefl y
        · exact (hx y hy).1
      -- the others do not contain it
      have hothers : (l.flatMap fun y => (product (x :: l) k).map (y :: ·)).filter P =
          (product l (k + 1)).filter P := by
        rw [product, List.filter_flatMap, List.filter_flatMap]
        refine List.flatMap_congr fun y hy => ?_
        rw [List.filter_map, List.filter_map]
        refine congrArg _ (filter_product_cons (fun w hw hmem => ?_) k)
        have hsorted := (List.pairwise_cons.mp ((hP (y :: w)).mp hw)).1
        exact (hx y hy).2 (hsorted x hmem)
      rw [product, List.flatMap_cons, List.filter_append, List.length_append, hfirst, hothers,
        ihl hl, List.length_cons, Nat.multichoose_succ_succ, Nat.add_comm]

theorem nodup_of_pairwise_lex {ls : List (List α)} (hr : ∀ x, ¬ r x x)
    (h : ls.Pairwise (List.Lex r)) : ls.Nodup := by
  refine h.imp fun {s t} hlex heq => ?_
  rw [heq] at hlex
  exact List.lex_irrefl hr t hlex

end Combinations
end PamoRxpBench
