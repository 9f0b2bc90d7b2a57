import Mathlib.Data.Finset.Insert
import Mathlib.Data.Finset.Erase
import Mathlib.Data.List.Nodup
import Mathlib.Data.List.Range

/-!
# A heap of numbered blocks

A heap is the set of its live blocks, with the list of the blocks that were freed. Blocks are
numbered in the order in which they are given out, so that no number is given twice. Which calls
fail is a schedule: whether the `k`-th call does.

* `callocs_spec`: what several calls in a row give;
* `Balanced`: what was allocated since has been freed, every block once;
* `balanced_iff`: this is a fact about the list of frees alone.
-/

namespace PamoRxpBench

/-- The live blocks, the number of the next one, the blocks that were freed in their order, and how
many calls there were. -/
structure Heap where
  live : Finset ℕ
  next : ℕ
  fresh : ∀ b ∈ live, b < next
  frees : List ℕ
  calls : ℕ

namespace Heap

/-- The heap without blocks. -/
def empty : Heap := ⟨∅, 0, fun _ h => absurd h (Finset.notMem_empty _), [], 0⟩

/-- The heap after a call that failed. -/
def refuse (h : Heap) : Heap := { h with calls := h.calls + 1 }

/-- The heap after a call that gave the next block. -/
def give (h : Heap) : Heap where
  live := insert h.next h.live
  next := h.next + 1
  fresh b hb := by
    rcases Finset.mem_insert.mp hb with rfl | hb
    · exact Nat.lt_succ_self _
    · exact Nat.lt_succ_of_lt (h.fresh b hb)
  frees := h.frees
  calls := h.calls + 1

/-- Allocate `num` elements; none are not allocated. -/
def calloc (fails : ℕ → Bool) (num : ℕ) (h : Heap) : Option ℕ × Heap :=
  if num = 0 ∨ fails h.calls = true then (none, h.refuse) else (some h.next, h.give)

/-- Free a block. -/
def free (h : Heap) (b : ℕ) : Heap where
  live := h.live.erase b
  next := h.next
  fresh c hc := h.fresh c (Finset.mem_of_mem_erase hc)
  frees := h.frees ++ [b]
  calls := h.calls

/-- Free what a pointer points to; `none` is the null pointer, for which nothing is done. -/
def freeOpt (h : Heap) : Option ℕ → Heap
  | some b => h.free b
  | none => h

/-- One call for each of `n` elements, until one fails. -/
def callocs (fails : ℕ → Bool) : ℕ → Heap → Option (List ℕ × Heap)
  | 0, h => some ([], h)
  | n + 1, h =>
    match h.calloc fails 1 with
    | (none, _) => none
    | (some b, h) => (callocs fails n h).map fun r => (b :: r.1, r.2)

/-! ## Growing -/

/-- The heap `h'` after some calls of `calloc` in `h`. -/
structure Grown (h h' : Heap) : Prop where
  next_le : h.next ≤ h'.next
  frees_eq : h'.frees = h.frees
  mem_live : ∀ b, b ∈ h'.live ↔ b ∈ h.live ∨ h.next ≤ b ∧ b < h'.next

/-- What two parts of a run do to the heap is one growth. -/
theorem Grown.trans {h₁ h₂ h₃ : Heap} (h : Grown h₁ h₂) (h' : Grown h₂ h₃) : Grown h₁ h₃ := by
  have hle := h.next_le
  have hle' := h'.next_le
  refine ⟨hle.trans hle', h'.frees_eq.trans h.frees_eq, fun b => ?_⟩
  rw [h'.mem_live, h.mem_live, or_assoc]
  apply or_congr_right
  omega

/-- A call that is refused gives no block out. -/
theorem grown_refuse (h : Heap) : Grown h h.refuse := by
  refine ⟨le_refl _, rfl, fun b => (or_iff_left ?_).symm⟩
  exact fun hb => Nat.not_lt.mpr hb.1 hb.2

/-- A call that is served gives out the next block. -/
theorem grown_give (h : Heap) : Grown h h.give := by
  refine ⟨Nat.le_succ _, rfl, fun b => ?_⟩
  show b ∈ insert h.next h.live ↔ _ ∨ h.next ≤ b ∧ b < h.next + 1
  rw [Finset.mem_insert, or_comm]
  apply or_congr_right
  omega

/-- There is no block if nothing was asked for or the call fails; the call is only counted. -/
theorem calloc_eq_none {fails : ℕ → Bool} {num : ℕ} {h h' : Heap}
    (hcall : h.calloc fails num = (none, h')) :
    (num = 0 ∨ fails h.calls = true) ∧ h' = h.refuse := by
  unfold calloc at hcall
  by_cases hfail : num = 0 ∨ fails h.calls = true
  · rw [if_pos hfail] at hcall
    exact ⟨hfail, (Prod.mk.inj hcall).2.symm⟩
  · rw [if_neg hfail] at hcall
    cases (Prod.mk.inj hcall).1

/-- The block that a call gives out is new. -/
theorem calloc_eq_some {fails : ℕ → Bool} {num b : ℕ} {h h' : Heap}
    (hcall : h.calloc fails num = (some b, h')) :
    ¬ (num = 0 ∨ fails h.calls = true) ∧ b = h.next ∧ h' = h.give := by
  unfold calloc at hcall
  by_cases hfail : num = 0 ∨ fails h.calls = true
  · rw [if_pos hfail] at hcall
    cases (Prod.mk.inj hcall).1
  · rw [if_neg hfail] at hcall
    obtain ⟨hb, hh⟩ := Prod.mk.inj hcall
    exact ⟨hfail, (Option.some.inj hb).symm, hh.symm⟩

/-- Several calls give consecutive blocks. -/
theorem callocs_spec {fails : ℕ → Bool} {n : ℕ} {h h' : Heap} {bs : List ℕ}
    (hcalls : callocs fails n h = some (bs, h')) :
    bs = List.range' h.next n ∧ h'.next = h.next + n ∧ h'.calls = h.calls + n ∧ Grown h h' := by
  induction n generalizing h bs with
  | zero =>
    obtain ⟨rfl, rfl⟩ := Prod.mk.inj (Option.some.inj hcalls)
    refine ⟨rfl, rfl, rfl, le_refl _, rfl, fun b => (or_iff_left ?_).symm⟩
    exact fun hb => Nat.not_lt.mpr hb.1 hb.2
  | succ n ih =>
    rw [callocs] at hcalls
    cases hcall : h.calloc fails 1 with
    | mk result h₁ =>
      rw [hcall] at hcalls
      cases result with
      | none => cases hcalls
      | some b =>
        obtain ⟨r, hr, heq⟩ := Option.map_eq_some_iff.mp hcalls
        obtain ⟨-, rfl, rfl⟩ := calloc_eq_some hcall
        obtain ⟨rfl, rfl⟩ := Prod.mk.inj heq
        obtain ⟨hbs, hnext, hcount, hgrown⟩ := ih hr
        have hgive : h.give.next = h.next + 1 := rfl
        have hone : h.give.calls = h.calls + 1 := rfl
        refine ⟨?_, by omega, by omega, (grown_give h).trans hgrown⟩
        rw [hbs, hgive, List.range'_succ]

/-! ## Balance -/

/-- Every block that was allocated between `h` and `h'` has been freed once, and no block twice. -/
def Balanced (h h' : Heap) : Prop :=
  ∃ freed, h'.frees = h.frees ++ freed ∧ freed.Nodup ∧
    ∀ b, h.next ≤ b → b < h'.next → b ∈ freed

/-- A run is balanced when the blocks freed in it are the ones made in it, each once. -/
theorem balanced_iff {h h' : Heap} {freed : List ℕ} (hfrees : h'.frees = h.frees ++ freed) :
    Balanced h h' ↔ freed.Nodup ∧ ∀ b, h.next ≤ b → b < h'.next → b ∈ freed := by
  constructor
  · intro ⟨freed', hfrees', hboth⟩
    rw [hfrees] at hfrees'
    rwa [List.append_cancel_left hfrees']
  · exact fun hboth => ⟨freed, hfrees, hboth⟩

@[simp] theorem frees_free (h : Heap) (b : ℕ) : (h.free b).frees = h.frees ++ [b] := rfl

@[simp] theorem next_free (h : Heap) (b : ℕ) : (h.free b).next = h.next := rfl

/-- Freeing `NULL` does nothing. -/
theorem frees_freeOpt (h : Heap) (b : Option ℕ) : (h.freeOpt b).frees = h.frees ++ b.toList := by
  cases b with
  | none => exact (List.append_nil _).symm
  | some b => rfl

@[simp] theorem next_freeOpt (h : Heap) (b : Option ℕ) : (h.freeOpt b).next = h.next := by
  cases b <;> rfl

end Heap
end PamoRxpBench
