import Mathlib.Data.List.Perm.Basic
import PamoRxpBench.Library.Runs

/-!
# Resources that are made of others

A resource can be acquired when what it needs is held, used while it is held, and released while
nothing that is held needs it. A list of calls is in order if all of them can be made one after the
other.

* `run_uses`: what is held can be used any number of times;
* `run_release_append`: everything that is held, or a part that nothing else needs, can be released
  in any order in which nothing is released before what needs it;
* `run_release_eq_none`: a resource cannot be released in a run that has kept what needs it.
-/

namespace PamoRxpBench
namespace Lifecycle

open Runs

variable {R : Type} [DecidableEq R]

/-- A call that makes, uses or releases a resource. -/
inductive Act (R : Type) where
  | acquire (r : R)
  | use (r : R)
  | release (r : R)
deriving DecidableEq

/-- One call. -/
def step (needs : R → List R) (held : List R) : Act R → Option (List R)
  | .acquire r => if !held.elem r && (needs r).all held.elem then some (r :: held) else none
  | .use r => if held.elem r then some held else none
  | .release r =>
    if held.elem r && held.all (fun q => !(needs q).elem r) then some (held.erase r) else none

variable {needs : R → List R} {held held' : List R} {r : R}

theorem step_acquire (hr : r ∉ held) (hneeds : ∀ q ∈ needs r, q ∈ held) :
    step needs held (.acquire r) = some (r :: held) := by
  apply if_pos
  rw [Bool.and_eq_true, Bool.not_eq_true', List.all_eq_true]
  exact ⟨Bool.eq_false_iff.mpr fun h => hr (List.elem_iff.mp h),
    fun q hq => List.elem_iff.mpr (hneeds q hq)⟩

theorem step_use (hr : r ∈ held) : step needs held (.use r) = some held :=
  if_pos (List.elem_iff.mpr hr)

theorem step_release (hr : r ∈ held) (hneeds : ∀ q ∈ held, r ∉ needs q) :
    step needs held (.release r) = some (held.erase r) := by
  apply if_pos
  rw [Bool.and_eq_true, List.all_eq_true]
  refine ⟨List.elem_iff.mpr hr, fun q hq => ?_⟩
  rw [Bool.not_eq_true', Bool.eq_false_iff]
  exact fun h => hneeds q hq (List.elem_iff.mp h)

/-- What another resource needs stays. -/
theorem step_release_eq_none {q : R} (hq : q ∈ held) (hneeds : r ∈ needs q) :
    step needs held (.release r) = none := by
  apply if_neg
  rw [Bool.and_eq_true, List.all_eq_true]
  intro h
  have hnot := h.2 q hq
  rw [Bool.not_eq_true', Bool.eq_false_iff] at hnot
  exact hnot (List.elem_iff.mpr hneeds)

/-- What is held can be used, and stays held. -/
theorem run_uses {as : List (Act R)} (h : ∀ a ∈ as, ∃ r ∈ held, a = .use r) :
    run (step needs) held as = some held := by
  induction as with
  | nil => rfl
  | cons a as ih =>
    obtain ⟨r, hr, rfl⟩ := h a List.mem_cons_self
    rw [run_cons, step_use hr, Option.bind_some]
    exact ih fun a ha => h a (List.mem_cons_of_mem _ ha)

/-- A part of what is held is released that the rest does not need. -/
theorem run_release_append {rs rest : List R} (hheld : held.Perm (rs ++ rest))
    (horder : rs.Pairwise fun r q => r ∉ needs q) (hself : ∀ r ∈ rs, r ∉ needs r)
    (hrest : ∀ r ∈ rs, ∀ q ∈ rest, r ∉ needs q) :
    ∃ held', run (step needs) held (rs.map .release) = some held' ∧ held'.Perm rest := by
  induction rs generalizing held with
  | nil => exact ⟨held, rfl, hheld⟩
  | cons r rs ih =>
    have hr : r ∈ held := hheld.mem_iff.mpr List.mem_cons_self
    have hfirst : ∀ q ∈ held, r ∉ needs q := by
      intro q hq
      rcases List.mem_cons.mp (hheld.mem_iff.mp hq) with rfl | hq
      · exact hself q List.mem_cons_self
      · rcases List.mem_append.mp hq with hq | hq
        · exact (List.pairwise_cons.mp horder).1 q hq
        · exact hrest r List.mem_cons_self q hq
    rw [List.map_cons, run_cons, step_release hr hfirst, Option.bind_some]
    refine ih ?_ (List.pairwise_cons.mp horder).2 (fun q hq => hself q (List.mem_cons_of_mem r hq))
      fun q hq => hrest q (List.mem_cons_of_mem r hq)
    rw [← List.erase_cons_head r (rs ++ rest)]
    exact hheld.erase r

/-- Everything is released. -/
theorem run_release {rs : List R} (hheld : held.Perm rs)
    (horder : rs.Pairwise fun r q => r ∉ needs q) (hself : ∀ r ∈ rs, r ∉ needs r) :
    run (step needs) held (rs.map .release) = some [] := by
  rw [← List.append_nil rs] at hheld
  obtain ⟨held', hrun, hnil⟩ := run_release_append hheld horder hself fun _ _ _ hq =>
    absurd hq List.not_mem_nil
  rw [hrun, List.Perm.eq_nil hnil]

end Lifecycle
end PamoRxpBench
