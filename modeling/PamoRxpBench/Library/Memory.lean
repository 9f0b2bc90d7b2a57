import Mathlib.Logic.Function.Basic
import Mathlib.Data.List.Nodup

/-!
# A memory that is rewritten cell by cell

A loop over a list whose elements own pairwise distinct cells rewrites each of these cells once
(`rewrite_of_mem`) and no other (`rewrite_of_notMem`).
-/

namespace PamoRxpBench
namespace Memory

variable {M D P : Type} [DecidableEq M] (cell : P → M) (value : P → D → D)

/-- The loop: the cell of `p` gets the value that `p` makes of what it held. -/
def rewrite (mem : M → D) (ps : List P) : M → D :=
  ps.foldl (fun mem p => Function.update mem (cell p) (value p (mem (cell p)))) mem

/-- A loop that writes back what it reads. -/
theorem rewrite_id (mem : M → D) (ps : List P) : rewrite cell (fun _ d => d) mem ps = mem := by
  induction ps generalizing mem with
  | nil => rfl
  | cons p ps ih =>
    show rewrite cell (fun _ d => d) (Function.update mem (cell p) (mem (cell p))) ps = mem
    rw [Function.update_eq_self, ih]

/-- A cell that is not written stays. -/
theorem rewrite_of_notMem (mem : M → D) {ps : List P} {m : M} (hm : m ∉ ps.map cell) :
    rewrite cell value mem ps m = mem m := by
  induction ps generalizing mem with
  | nil => rfl
  | cons p ps ih =>
    rw [List.map_cons, List.mem_cons, not_or] at hm
    show rewrite cell value (Function.update mem (cell p) _) ps m = _
    rw [ih _ hm.2, Function.update_of_ne hm.1]

/-- A cell that is written once has the value of this write. -/
theorem rewrite_of_mem (mem : M → D) {ps : List P} (hnodup : (ps.map cell).Nodup) {p : P}
    (hp : p ∈ ps) : rewrite cell value mem ps (cell p) = value p (mem (cell p)) := by
  induction ps generalizing mem with
  | nil => cases hp
  | cons q ps ih =>
    rw [List.map_cons, List.nodup_cons] at hnodup
    show rewrite cell value (Function.update mem (cell q) _) ps (cell p) = _
    by_cases hpq : p ∈ ps
    · have hne : cell p ≠ cell q := fun heq => hnodup.1 (heq ▸ List.mem_map_of_mem hpq)
      rw [ih _ hnodup.2 hpq, Function.update_of_ne hne]
    · have heq : p = q := (List.mem_cons.mp hp).resolve_right hpq
      rw [heq, rewrite_of_notMem cell value _ hnodup.1, Function.update_self]

end Memory
end PamoRxpBench
