import Mathlib.Data.UInt
import Mathlib.Algebra.BigOperators.Group.List.Basic
import Mathlib.Algebra.Order.BigOperators.Group.List
import Mathlib.Tactic.Ring

/-!
# Wrapping 64-bit counters

`uint64_t` counters that are summed: the sum of a list of counters is the sum of their
values modulo `2^64` (`toNat_sum`), and exact when that sum fits (`toNat_sum_of_lt`). A loop
whose body adds to a counter leaves the sum of what it added (`foldl_counter`).
-/

namespace PamoRxpBench
namespace Counters

/-- A sum of counters is the sum of their values modulo `2^64`. -/
theorem toNat_sum (l : List UInt64) : l.sum.toNat = (l.map UInt64.toNat).sum % 2 ^ 64 := by
  induction l with
  | nil => rfl
  | cons x xs ih =>
    rw [List.sum_cons, UInt64.toNat_add, ih, List.map_cons, List.sum_cons, Nat.add_mod_mod]

/-- A sum of counters that fits is exact. -/
theorem toNat_sum_of_lt {l : List UInt64} (h : (l.map UInt64.toNat).sum < 2 ^ 64) :
    l.sum.toNat = (l.map UInt64.toNat).sum := by
  rw [toNat_sum, Nat.mod_eq_of_lt h]

/-- A loop whose body adds `inc x` to the counter `get` adds up the `inc`s. -/
theorem foldl_counter {S X : Type} (get : S → UInt64) (step : S → X → S) (inc : X → UInt64)
    (hstep : ∀ s x, get (step s x) = get s + inc x) (s : S) (xs : List X) :
    get (xs.foldl step s) = get s + (xs.map inc).sum := by
  induction xs generalizing s with
  | nil => simp
  | cons x xs ih => rw [List.foldl_cons, ih, hstep, List.map_cons, List.sum_cons, add_assoc]

end Counters
end PamoRxpBench
