import Mathlib.Data.List.Basic
import Mathlib.Logic.Function.Basic

/-!
# Interleavings

The operations of two programs in any order. An interleaving can be cut where one of its
operations stands (`cut`), or where an operation of the first program stands in it (`cut_left`).

If every operation only looks at and changes the cell of its own key, what a cell holds in the end
depends on the operations of its key alone (`foldl_act_apply`), and of these one program has all if
the other one has none (`filter_eq_left`).
-/

namespace PamoRxpBench
namespace Interleaving

variable {O : Type}

/-- Where an element of an append stands. -/
theorem append_cut {xs ys before after : List O} {x : O}
    (h : xs ++ ys = before ++ x :: after) :
    (∃ after', xs = before ++ x :: after') ∨
      ∃ before', before = xs ++ before' ∧ ys = before' ++ x :: after := by
  rcases List.append_eq_append_iff.mp h with ⟨t, hbefore, hys⟩ | ⟨t, hxs, ht⟩
  · exact Or.inr ⟨t, hbefore, hys⟩
  · cases t with
    | nil => exact Or.inr ⟨[], by rw [hxs, List.append_nil, List.append_nil], ht.symm⟩
    | cons y t => exact Or.inl ⟨t, by rw [hxs, (List.cons.inj ht).1]⟩

/-- The third list has the operations of the first two, each in their order. -/
inductive Interleaved : List O → List O → List O → Prop
  | nil : Interleaved [] [] []
  | left (x : O) {us vs ws : List O} : Interleaved us vs ws → Interleaved (x :: us) vs (x :: ws)
  | right (x : O) {us vs ws : List O} : Interleaved us vs ws → Interleaved us (x :: vs) (x :: ws)

variable {us vs ws : List O}

theorem Interleaved.symm (h : Interleaved us vs ws) : Interleaved vs us ws := by
  induction h with
  | nil => exact .nil
  | left x _ ih => exact .right x ih
  | right x _ ih => exact .left x ih

/-- The second program does nothing. -/
theorem Interleaved.of_nil_right (us : List O) : Interleaved us [] us := by
  induction us with
  | nil => exact .nil
  | cons x us ih => exact .left x ih

theorem Interleaved.mem (h : Interleaved us vs ws) {x : O} (hx : x ∈ ws) : x ∈ us ∨ x ∈ vs := by
  induction h with
  | nil => exact absurd hx List.not_mem_nil
  | left y _ ih =>
    rcases List.mem_cons.mp hx with hx | hx
    · exact Or.inl (hx ▸ List.mem_cons_self)
    · exact (ih hx).imp_left (List.mem_cons_of_mem y)
  | right y _ ih =>
    rcases List.mem_cons.mp hx with hx | hx
    · exact Or.inr (hx ▸ List.mem_cons_self)
    · exact (ih hx).imp_right (List.mem_cons_of_mem y)

/-- What only the first program has. -/
theorem Interleaved.filter_eq_left {p : O → Bool} (h : Interleaved us vs ws)
    (hvs : ∀ x ∈ vs, p x = false) : ws.filter p = us.filter p := by
  induction h with
  | nil => rfl
  | left x _ ih => rw [List.filter_cons, List.filter_cons, ih hvs]
  | right x _ ih =>
    rw [List.filter_cons_of_neg (by rw [hvs x List.mem_cons_self]; exact Bool.false_ne_true)]
    exact ih fun y hy => hvs y (List.mem_cons_of_mem x hy)

/-- Where an operation of the first program stands. -/
theorem Interleaved.cut_left {x : O} {us' : List O} (h : Interleaved (us ++ x :: us') vs ws) :
    ∃ before after vs₁ vs₂, ws = before ++ x :: after ∧ vs = vs₁ ++ vs₂ ∧
      Interleaved us vs₁ before ∧ Interleaved us' vs₂ after := by
  generalize hall : us ++ x :: us' = all at h
  induction h generalizing us with
  | nil => exact absurd hall (List.append_ne_nil_of_right_ne_nil us (List.cons_ne_nil x us'))
  | left y hrest ih =>
    cases us with
    | nil =>
      obtain ⟨rfl, rfl⟩ := List.cons.inj hall
      exact ⟨[], _, [], _, rfl, rfl, .nil, hrest⟩
    | cons z us =>
      obtain ⟨rfl, hus⟩ := List.cons.inj hall
      obtain ⟨before, after, vs₁, vs₂, rfl, rfl, hbefore, hafter⟩ := ih hus
      exact ⟨z :: before, after, vs₁, vs₂, rfl, rfl, .left z hbefore, hafter⟩
  | right y _ ih =>
    obtain ⟨before, after, vs₁, vs₂, rfl, rfl, hbefore, hafter⟩ := ih hall
    exact ⟨y :: before, after, y :: vs₁, vs₂, rfl, rfl, .right y hbefore, hafter⟩

/-- An operation is one of the first program or one of the second. -/
theorem Interleaved.cut {x : O} {before after : List O}
    (h : Interleaved us vs (before ++ x :: after)) :
    (∃ us₁ us₂ vs₁ vs₂, us = us₁ ++ x :: us₂ ∧ vs = vs₁ ++ vs₂ ∧ Interleaved us₁ vs₁ before) ∨
      ∃ us₁ us₂ vs₁ vs₂, us = us₁ ++ us₂ ∧ vs = vs₁ ++ x :: vs₂ ∧ Interleaved us₁ vs₁ before := by
  induction before generalizing us vs with
  | nil =>
    cases h with
    | left _ hrest => exact Or.inl ⟨[], _, [], _, rfl, rfl, .nil⟩
    | right _ hrest => exact Or.inr ⟨[], _, [], _, rfl, rfl, .nil⟩
  | cons y before ih =>
    cases h with
    | left _ hrest =>
      rcases ih hrest with ⟨us₁, us₂, vs₁, vs₂, rfl, rfl, hbefore⟩ |
          ⟨us₁, us₂, vs₁, vs₂, rfl, rfl, hbefore⟩
      · exact Or.inl ⟨y :: us₁, us₂, vs₁, vs₂, rfl, rfl, .left y hbefore⟩
      · exact Or.inr ⟨y :: us₁, us₂, vs₁, vs₂, rfl, rfl, .left y hbefore⟩
    | right _ hrest =>
      rcases ih hrest with ⟨us₁, us₂, vs₁, vs₂, rfl, rfl, hbefore⟩ |
          ⟨us₁, us₂, vs₁, vs₂, rfl, rfl, hbefore⟩
      · exact Or.inl ⟨us₁, us₂, y :: vs₁, vs₂, rfl, rfl, .right y hbefore⟩
      · exact Or.inr ⟨us₁, us₂, y :: vs₁, vs₂, rfl, rfl, .right y hbefore⟩

/-! ## Operations on cells -/

variable {K V : Type} [DecidableEq K]

/-- An operation changes the cell of its key. -/
def act (key : O → K) (effect : O → V → V) (cells : K → V) (o : O) : K → V :=
  Function.update cells (key o) (effect o (cells (key o)))

/-- The other operations leave a cell alone. -/
theorem foldl_act_apply (key : O → K) (effect : O → V → V) (ops : List O) (cells : K → V) (k : K) :
    ops.foldl (act key effect) cells k =
      (ops.filter fun o => key o = k).foldl (fun v o => effect o v) (cells k) := by
  induction ops generalizing cells with
  | nil => rfl
  | cons o ops ih =>
    rw [List.foldl_cons, ih]
    by_cases hkey : key o = k
    · rw [List.filter_cons_of_pos (by rw [hkey]; exact decide_eq_true rfl), List.foldl_cons, act,
        hkey, Function.update_self]
    · rw [List.filter_cons_of_neg (by rw [decide_eq_false hkey]; exact Bool.false_ne_true), act,
        Function.update_of_ne (Ne.symm hkey)]

end Interleaving
end PamoRxpBench
