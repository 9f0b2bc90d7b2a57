import Mathlib.Data.List.Basic
import Mathlib.Data.List.Infix
import Mathlib.Tactic.Basic

/-!
# Records of independent fields

A `Layout` says which fields a record has, how each is read and how it is assigned. An operation
with an own field computes the new value of that field from the old one (`assign`).

* `get_foldl_assign`: after a list of operations, a field is what its own operations make of it,
  in their order;
* `foldl_assign_congr`: two lists with the same operations of each field have the same effect;
* `get_foldl_assign_last`: where the new value does not depend on the old one, the last operation
  of the field decides.
-/

namespace PamoRxpBench

/-- The fields `ι` of a record `S`, with their types of values. -/
structure Layout (S ι : Type) (V : ι → Type) where
  get : S → (i : ι) → V i
  set : S → (i : ι) → V i → S
  get_set_self : ∀ s i v, get (set s i v) i = v
  get_set_ne : ∀ s {i j} v, i ≠ j → get (set s i v) j = get s j
  ext : ∀ s t, (∀ i, get s i = get t i) → s = t

namespace Layout

variable {S ι O : Type} {V : ι → Type} (L : Layout S ι V) (own : O → ι)
  (effect : (i : ι) → O → V i → V i)

/-- The operation `o` updates its own field. -/
def assign (s : S) (o : O) : S := L.set s (own o) (effect (own o) o (L.get s (own o)))

variable [DecidableEq ι]

/-- An operation changes the place that it owns. -/
theorem get_assign (s : S) (o : O) (i : ι) :
    L.get (L.assign own effect s o) i =
      if own o = i then effect i o (L.get s i) else L.get s i := by
  by_cases h : own o = i
  · subst h
    rw [if_pos rfl]
    exact L.get_set_self s (own o) _
  · rw [if_neg h]
    exact L.get_set_ne s _ h

/-- A run changes a place by the operations that own it, in their order. -/
theorem get_foldl_assign (s : S) (os : List O) (i : ι) :
    L.get (os.foldl (L.assign own effect) s) i =
      (os.filter fun o => own o = i).foldl (fun v o => effect i o v) (L.get s i) := by
  induction os generalizing s with
  | nil => rfl
  | cons o os ih =>
    rw [List.foldl_cons, ih, get_assign]
    by_cases h : own o = i
    · rw [if_pos h, List.filter_cons_of_pos (by simpa using h), List.foldl_cons]
    · rw [if_neg h, List.filter_cons_of_neg (by simpa using h)]

/-- Only the order of the operations of one field counts. -/
theorem foldl_assign_congr (s : S) {os os' : List O}
    (h : ∀ i, (os.filter fun o => own o = i) = os'.filter fun o => own o = i) :
    os.foldl (L.assign own effect) s = os'.foldl (L.assign own effect) s := by
  apply L.ext
  intro i
  rw [get_foldl_assign, get_foldl_assign, h]

theorem foldl_const {A B : Type} (f : A → B) (b : B) (as : List A) :
    as.foldl (fun _ a => f a) b = (as.getLast?.map f).getD b := by
  induction as generalizing b with
  | nil => rfl
  | cons a as ih =>
    rw [List.foldl_cons, ih, List.getLast?_cons]
    cases as.getLast? <;> rfl

/-- An assignment that does not read the field: the last one counts. -/
theorem get_foldl_assign_last (s : S) (os : List O) (i : ι) (value : O → V i)
    (h : ∀ o v, effect i o v = value o) :
    L.get (os.foldl (L.assign own effect) s) i =
      ((os.filter fun o => own o = i).getLast?.map value).getD (L.get s i) := by
  have hconst : (fun v o => effect i o v) = fun _ o => value o :=
    funext fun v => funext fun o => h o v
  rw [get_foldl_assign, hconst, foldl_const]

end Layout
end PamoRxpBench
