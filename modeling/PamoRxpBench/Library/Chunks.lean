import Mathlib.Data.List.Range
import Mathlib.Data.List.TakeDrop
import Mathlib.Tactic.Ring

/-!
# Lists cut into chunks

Chunk `k` of size `c` are the elements from place `k * c` on. The chunks of a list, one behind the
other, are the list (`flatMap_chunk`), and there are `numChunks` of them, none of them empty.
-/

namespace PamoRxpBench
namespace Chunks

variable {α : Type}

/-- How many chunks of size `c` a list of `n` elements has. -/
def numChunks (c n : ℕ) : ℕ := (n + c - 1) / c

/-- Chunk `k` of size `c`. -/
def chunk (c k : ℕ) (l : List α) : List α := (l.drop (k * c)).take c

theorem lt_numChunks_iff {c n k : ℕ} (hc : 0 < c) : k < numChunks c n ↔ k * c < n := by
  rw [numChunks, Nat.lt_div_iff_mul_lt hc]
  omega

theorem numChunks_le {c n m : ℕ} (hc : 0 < c) (h : n ≤ m * c) : numChunks c n ≤ m := by
  by_contra hlt
  have hmul := (lt_numChunks_iff hc).mp (Nat.lt_of_not_le hlt)
  omega

theorem length_le_numChunks_mul {c n : ℕ} (hc : 0 < c) : n ≤ numChunks c n * c := by
  by_contra hlt
  have hself := (lt_numChunks_iff (k := numChunks c n) hc).mpr (Nat.lt_of_not_le hlt)
  omega

theorem chunk_ne_nil {c k : ℕ} (hc : 0 < c) {l : List α} (hk : k * c < l.length) :
    chunk c k l ≠ [] := by
  intro hnil
  have hlength := congrArg List.length hnil
  rw [chunk, List.length_take, List.length_drop, List.length_nil] at hlength
  omega

/-- The first chunks. -/
theorem flatMap_chunk_range (c n : ℕ) (l : List α) :
    ((List.range n).flatMap fun k => chunk c k l) = l.take (n * c) := by
  induction n with
  | zero => simp
  | succ n ih =>
    rw [List.range_succ, List.flatMap_append, ih, List.flatMap_singleton, chunk, ← List.take_add,
      Nat.succ_mul]

/-- All chunks. -/
theorem flatMap_chunk {c : ℕ} (hc : 0 < c) (l : List α) :
    ((List.range (numChunks c l.length)).flatMap fun k => chunk c k l) = l := by
  rw [flatMap_chunk_range]
  exact List.take_of_length_le (length_le_numChunks_mul hc)

end Chunks
end PamoRxpBench
