import PamoRxpBench.RegexTest.PatternTable
import PamoRxpBench.RegexTest.UtilHsTheorems
import Mathlib.Data.List.ReduceOption

/-!
# What Hyperscan is given

The second pass fills the arrays from the front: the first `i` entries are the expressions of the
lines read so far and the others are uninitialised (`Filled`). It reads as many lines as
`expression_count` is ahead of `i` (`secondPass_eq`), which is all of them as long as
`expression_count` did not wrap around in the first pass.
-/

namespace PamoRxpBench
namespace RegexTest

/-- `hs_compile_multi` is called after all lines were read, with the lines that are not empty,
and every entry it is given, or that is freed, was written. -/
def ExactTable (rules : Bytes) (exprFlags : UInt32) : Prop :=
  ∃ pass, fillTable rules exprFlags = .compile pass ∧
    pass.linesRead = (getlines [] rules).length ∧
    pass.expressionCount.toNat = (fileLines rules).length ∧
    pass.table.expressions.take pass.expressionCount.toNat = (fileLines rules).map some ∧
    pass.table.flags.take pass.expressionCount.toNat
      = List.replicate pass.expressionCount.toNat (some exprFlags) ∧
    pass.table.ids.take pass.expressionCount.toNat
      = List.replicate pass.expressionCount.toNat (some 1)

/-! ## The arrays -/

/-- An array of which the entries `written` were written, and `free` more are left. -/
def initialised {α : Type} (written : List α) (free : ℕ) : List (Option α) :=
  written.map some ++ List.replicate free none

/-- The next entry is written behind those that are written. -/
theorem writeArray_initialised {α : Type} {written : List α} {free : ℕ} {i : UInt32}
    (hi : i.toNat = written.length) (v : α) :
    writeArray (initialised written (free + 1)) i v
      = some (initialised (written ++ [v]) free) := by
  have hlt : i.toNat < (initialised written (free + 1)).length := by
    simp [initialised, hi]
  unfold writeArray
  rw [if_pos hlt]
  have hlen : (written.map some).length = i.toNat := by rw [List.length_map, hi]
  simp only [initialised, List.replicate_succ]
  rw [List.set_append_right _ _ (le_of_eq hlen), hlen, Nat.sub_self, List.set_cons_zero,
    List.map_append, List.append_assoc]
  rfl

theorem take_initialised {α : Type} (written : List α) (free : ℕ) :
    (initialised written free).take written.length = written.map some := by
  unfold initialised
  rw [List.take_append_of_le_length (by rw [List.length_map]), List.take_of_length_le]
  rw [List.length_map]

theorem reduceOption_take_initialised {α : Type} (written : List α) (free n : ℕ) :
    ((initialised written free).take n).reduceOption = written.take n := by
  unfold initialised
  rw [List.take_append, List.reduceOption_append, ← List.map_take, List.take_replicate,
    List.reduceOption_replicate_none, List.append_nil]
  simp [List.reduceOption]

/-- The table holds the expressions `written`, and `free` entries are left. -/
structure Filled (exprFlags : UInt32) (pass : TablePass) (written : List Bytes) (free : ℕ) :
    Prop where
  i : pass.i.toNat = written.length
  expressions : pass.table.expressions = initialised written free
  flags : pass.table.flags = initialised (List.replicate written.length exprFlags) free
  ids : pass.table.ids = initialised (List.replicate written.length 1) free

/-- The pass after an entry was stored. -/
def TablePass.stored (pass : TablePass) (expressions : List (Option Bytes))
    (flags ids : List (Option UInt32)) : TablePass :=
  ⟨pass.linesRead + 1, pass.i + 1, pass.expressionCount, ⟨expressions, flags, ids⟩⟩

variable {exprFlags : UInt32} {pass : TablePass} {written : List Bytes} {free : ℕ}

theorem filled_malloc (linesRead : ℕ) (expressionCount : UInt32) (n : ℕ) :
    Filled exprFlags ⟨linesRead, 0, expressionCount, PatternTable.malloc n⟩ [] n where
  i := rfl
  expressions := rfl
  flags := rfl
  ids := rfl

/-- Writing the next entry. -/
theorem Filled.write (h : Filled exprFlags pass written (free + 1)) (line : Bytes) :
    pass.table.write pass.i line exprFlags = some
      ⟨initialised (written ++ [line]) free,
        initialised (List.replicate (written ++ [line]).length exprFlags) free,
        initialised (List.replicate (written ++ [line]).length 1) free⟩ := by
  have hflags : pass.i.toNat = (List.replicate written.length exprFlags).length := by
    rw [List.length_replicate, h.i]
  have hids : pass.i.toNat = (List.replicate written.length (1 : UInt32)).length := by
    rw [List.length_replicate, h.i]
  unfold PatternTable.write
  rw [h.expressions, h.flags, h.ids, writeArray_initialised h.i, writeArray_initialised hflags,
    writeArray_initialised hids, List.length_append, List.length_singleton,
    List.replicate_succ', List.replicate_succ']
  rfl

/-- A line is read. -/
theorem Filled.read (h : Filled exprFlags pass written free) :
    Filled exprFlags { pass with linesRead := pass.linesRead + 1 } written free :=
  ⟨h.i, h.expressions, h.flags, h.ids⟩

/-- A blank line lowers the bound and takes no entry. -/
theorem Filled.blank {m : ℕ} (h : Filled exprFlags pass written (free + (m + 1))) :
    Filled exprFlags ⟨pass.linesRead + 1, pass.i, pass.expressionCount - 1, pass.table⟩ written
      (free + 1 + m) := by
  have hfree : free + 1 + m = free + (m + 1) := by omega
  rw [hfree]
  exact ⟨h.i, h.expressions, h.flags, h.ids⟩

/-- Another line takes the next entry. -/
theorem Filled.stored (h : Filled exprFlags pass written (free + 1)) (line : Bytes)
    (hi : (pass.i + 1).toNat = pass.i.toNat + 1) :
    Filled exprFlags (pass.stored (initialised (written ++ [line]) free)
      (initialised (List.replicate (written ++ [line]).length exprFlags) free)
      (initialised (List.replicate (written ++ [line]).length 1) free)) (written ++ [line])
      free where
  i := by
    rw [List.length_append, ← h.i]
    exact hi
  expressions := rfl
  flags := rfl
  ids := rfl

/-! ## The second pass -/

/-- The second pass stores the expressions of as many lines as `expression_count` is ahead of
`i`; if there are more lines, it has read one of them. -/
theorem secondPass_eq {lines : List Bytes} (hterm : Terminated lines) {m : ℕ}
    (hfilled : Filled exprFlags pass written (free + m))
    (hm : pass.expressionCount.toNat = pass.i.toNat + m) (hlen : m ≤ lines.length) :
    ∃ pass' free', secondPass exprFlags lines pass = .compile pass' ∧
      Filled exprFlags pass' (written ++ expressionsOf (lines.take m)) free' ∧
      pass'.expressionCount = pass'.i ∧
      pass'.linesRead = pass.linesRead + min (m + 1) lines.length := by
  induction lines generalizing pass written free m with
  | nil =>
    obtain rfl : m = 0 := Nat.le_zero.mp hlen
    refine ⟨pass, free, rfl, ?_, UInt32.toNat_inj.mp hm, rfl⟩
    rw [List.take_nil, show expressionsOf [] = [] from rfl, List.append_nil]
    exact hfilled
  | cons line lines ih =>
    have hlast : line.getLast? = some 10 := hterm line List.mem_cons_self
    have hrest : Terminated lines := fun l hl => hterm l (List.mem_cons_of_mem _ hl)
    unfold secondPass
    rw [List.length_cons] at hlen ⊢
    match m with
    | 0 =>
      -- the bound is reached: the line just read is dropped
      have hge : ¬ pass.i < pass.expressionCount := by
        rw [UInt32.lt_iff_toNat_lt]
        omega
      refine ⟨{ pass with linesRead := pass.linesRead + 1 }, free, if_neg hge, ?_,
        UInt32.toNat_inj.mp hm, ?_⟩
      · rw [List.take_zero, show expressionsOf [] = [] from rfl, List.append_nil]
        exact hfilled.read
      · show pass.linesRead + 1 = _
        omega
    | m + 1 =>
      have hlt : pass.i < pass.expressionCount := by
        rw [UInt32.lt_iff_toNat_lt]
        omega
      have hbound := pass.expressionCount.toNat_lt
      simp only [if_pos hlt, if_pos hlast]
      by_cases hblank : bufferString line.dropLast = []
      · rw [if_pos hblank]
        have hcount : (pass.expressionCount - 1).toNat = pass.i.toNat + m := by
          rw [toNat_sub_one (by omega)]
          omega
        obtain ⟨pass', free', hpass, hfill, hi, hread⟩ := ih hrest hfilled.blank hcount (by omega)
        rw [List.take_succ_cons, expressionsOf_cons_blank hblank]
        refine ⟨pass', free', hpass, hfill, hi, ?_⟩
        rw [hread]
        show pass.linesRead + 1 + _ = _
        omega
      · rw [if_neg hblank]
        have hi : (pass.i + 1).toNat = pass.i.toNat + 1 := toNat_add_one (by omega)
        have hfree : Filled exprFlags pass written (free + m + 1) := hfilled
        simp only [hfree.write]
        have hcount : pass.expressionCount.toNat = (pass.i + 1).toNat + m := by omega
        obtain ⟨pass', free', hpass, hfill, hi', hread⟩ := ih hrest
          (hfree.stored _ hi) hcount (by omega)
        rw [List.take_succ_cons, expressionsOf_cons hblank]
        refine ⟨pass', free', hpass, ?_, hi', ?_⟩
        · rw [List.append_assoc, List.singleton_append] at hfill
          exact hfill
        · rw [hread]
          show pass.linesRead + 1 + _ = _
          omega

/-! ## The table and the expressions -/

/-- The second pass with its arrays and the one that only collects the expressions do the same. -/
theorem secondPass_of_readExpressions {lines : List Bytes} {m : ℕ}
    (hfilled : Filled exprFlags pass written (free + m))
    (hm : pass.expressionCount.toNat = pass.i.toNat + m) :
    match readExpressions lines pass.i pass.expressionCount written with
    | none => secondPass exprFlags lines pass = .rtePanic
    | some (n, out) => ∃ pass' free', secondPass exprFlags lines pass = .compile pass' ∧
        Filled exprFlags pass' out free' ∧ pass'.expressionCount = n := by
  induction lines generalizing pass written free m with
  | nil => exact ⟨pass, free + m, rfl, hfilled, rfl⟩
  | cons line lines ih =>
    have hbound := pass.expressionCount.toNat_lt
    unfold readExpressions secondPass
    by_cases hlt : pass.i < pass.expressionCount
    · simp only [if_pos hlt]
      by_cases hlast : line.getLast? = some 10
      · simp only [if_pos hlast]
        obtain ⟨m, rfl⟩ : ∃ k, m = k + 1 := by
          rw [UInt32.lt_iff_toNat_lt] at hlt
          exact ⟨m - 1, by omega⟩
        by_cases hblank : bufferString line.dropLast = []
        · simp only [if_pos hblank]
          exact ih (hfilled.blank) (by
            show (pass.expressionCount - 1).toNat = pass.i.toNat + m
            rw [toNat_sub_one (by omega)]
            omega)
        · have hfree : Filled exprFlags pass written (free + m + 1) := hfilled
          simp only [if_neg hblank, hfree.write]
          have hi : (pass.i + 1).toNat = pass.i.toNat + 1 := toNat_add_one (by omega)
          exact ih (hfree.stored _ (by omega)) (by
            show pass.expressionCount.toNat = (pass.i + 1).toNat + m
            omega)
      · simp only [if_neg hlast]
    · simp only [if_neg hlt]
      exact ⟨_, _, rfl, hfilled.read, rfl⟩

/-- What `compileRules` hands to Hyperscan is what the arrays hold. -/
theorem compileRules_eq_fillTable {DB : Type} (libs : HsLibs DB) (call : HsCall) :
    libs.compileRules call =
      match fillTable call.rules call.flags with
      | .compile pass => libs.compileMulti
          (pass.table.expressions.take pass.expressionCount.toNat).reduceOption call.flags
      | .rtePanic | .outOfBounds | .noMemory => none := by
  unfold HsLibs.compileRules HsLibs.compileLines fillTable
  by_cases hzero : countExpressions (getlines [] call.rules) = 0
  · simp only [if_pos hzero]
  · simp only [if_neg hzero]
    have hmalloc : Filled call.flags ⟨0, 0, countExpressions (getlines [] call.rules),
        PatternTable.malloc (countExpressions (getlines [] call.rules)).toNat⟩ []
        (0 + (countExpressions (getlines [] call.rules)).toNat) := by
      rw [Nat.zero_add]
      exact filled_malloc 0 _ _
    generalize hlines : getlines [] call.rules = lines at hmalloc ⊢
    have hboth : match readExpressions lines 0 (countExpressions lines) [] with
        | none => _
        | some (n, out) => _ := secondPass_of_readExpressions hmalloc (Nat.zero_add _).symm
    match hread : readExpressions lines 0 (countExpressions lines) [] with
    | none =>
      rw [hread] at hboth
      rw [hboth]
    | some (n, out) =>
      rw [hread] at hboth
      obtain ⟨pass, free, hpass, hfilled, hcount⟩ := hboth
      simp only [hpass, hfilled.expressions, hcount, reduceOption_take_initialised, List.append_nil]

/-! ## The whole file -/

/-- The count of the first pass. -/
theorem fillTable_eq (exprFlags : UInt32) {rules : Bytes} (hterm : Terminated (getlines [] rules)) :
    (getlines [] rules).length % 2 ^ 32 = 0 ∧ fillTable rules exprFlags = .noMemory ∨
    0 < (getlines [] rules).length % 2 ^ 32 ∧
    ∃ pass free, fillTable rules exprFlags = .compile pass ∧
      Filled exprFlags pass
        (expressionsOf ((getlines [] rules).take ((getlines [] rules).length % 2 ^ 32))) free ∧
      pass.expressionCount = pass.i ∧
      pass.linesRead = min ((getlines [] rules).length % 2 ^ 32 + 1)
        (getlines [] rules).length := by
  have hcount := toNat_countExpressions (getlines [] rules)
  unfold fillTable
  by_cases hzero : countExpressions (getlines [] rules) = 0
  · left
    refine ⟨?_, if_pos hzero⟩
    rw [← hcount, hzero]
    rfl
  · right
    have hpos : 0 < (getlines [] rules).length % 2 ^ 32 := by
      rw [← hcount]
      exact Nat.pos_of_ne_zero fun h => hzero (UInt32.toNat_inj.mp h)
    refine ⟨hpos, ?_⟩
    simp only [if_neg hzero]
    have hmalloc : Filled exprFlags ⟨0, 0, countExpressions (getlines [] rules),
        PatternTable.malloc (countExpressions (getlines [] rules)).toNat⟩ []
        (0 + (countExpressions (getlines [] rules)).toNat) := by
      rw [Nat.zero_add]
      exact filled_malloc 0 _ _
    obtain ⟨pass, free, hpass, hfill, hi, hread⟩ := secondPass_eq hterm hmalloc
      (Nat.zero_add _).symm (by rw [hcount]; exact Nat.mod_le _ _)
    rw [hcount] at hfill hread
    exact ⟨pass, free, hpass, hfill, hi, hread.trans (Nat.zero_add _)⟩

/-- Where the count does not wrap, both passes see the same lines. -/
theorem exactTable_of_lt {rules : Bytes} (hterm : Terminated (getlines [] rules))
    (hnul : 0 ∉ rules) (hpos : 0 < (getlines [] rules).length)
    (hlt : (getlines [] rules).length < 2 ^ 32) : ExactTable rules exprFlags := by
  have hmod : (getlines [] rules).length % 2 ^ 32 = (getlines [] rules).length :=
    Nat.mod_eq_of_lt hlt
  match fillTable_eq exprFlags hterm with
  | .inl ⟨hzero, _⟩ => omega
  | .inr ⟨_, pass, free, hpass, hfill, hi, hread⟩ =>
    rw [hmod, List.take_length, expressionsOf_getlines hterm hnul] at hfill
    have hlen : pass.expressionCount.toNat = (fileLines rules).length := by rw [hi, hfill.i]
    refine ⟨pass, hpass, by omega, hlen, ?_, ?_, ?_⟩
    · rw [hlen, hfill.expressions, take_initialised]
    · have htake := take_initialised (List.replicate (fileLines rules).length exprFlags) free
      rw [List.length_replicate, List.map_replicate] at htake
      rw [hlen, hfill.flags, htake]
    · have htake := take_initialised (List.replicate (fileLines rules).length (1 : UInt32)) free
      rw [List.length_replicate, List.map_replicate] at htake
      rw [hlen, hfill.ids, htake]

/-- A count that wrapped around stops the second pass before the end, or is zero. -/
theorem not_exactTable {rules : Bytes} (hterm : Terminated (getlines [] rules))
    (h : (getlines [] rules).length = 0 ∨ 2 ^ 32 ≤ (getlines [] rules).length) :
    ¬ ExactTable rules exprFlags := by
  intro ⟨pass, hpass, hread, _⟩
  match fillTable_eq exprFlags hterm with
  | .inl ⟨_, hnone⟩ =>
    rw [hnone] at hpass
    cases hpass
  | .inr ⟨hpos, pass', _, hpass', _, _, hread'⟩ =>
    rw [hpass'] at hpass
    obtain rfl := TableOutcome.compile.inj hpass
    omega

/-- **When the tables are exact**: there is a line, and the count of the lines does not wrap. -/
theorem exactTable_iff (rules : Bytes) (exprFlags : UInt32)
    (hterm : Terminated (getlines [] rules)) (hnul : 0 ∉ rules) :
    ExactTable rules exprFlags ↔
      0 < (getlines [] rules).length ∧ (getlines [] rules).length < 2 ^ 32 := by
  constructor
  · intro hexact
    by_contra hout
    exact not_exactTable hterm (by omega) hexact
  · intro ⟨hpos, hlt⟩
    exact exactTable_of_lt hterm hnul hpos hlt

/-- A pattern between blank lines. -/
theorem exactTable_iff_blanks :
    ExactTable [10, 97, 10, 10] 0 ↔
      0 < (getlines [] [10, 97, 10, 10]).length ∧ (getlines [] [10, 97, 10, 10]).length < 2 ^ 32 :=
  exactTable_iff _ _ (by unfold Terminated; decide) (by decide)

/-- The file without lines, and one of `2 ^ 32 + 1` lines. -/
theorem not_exactTable_empty :
    ¬ ExactTable [] 0 ∧ ¬ ExactTable (manyLines (2 ^ 32 + 1)) 0 := by
  constructor
  · exact not_exactTable (by unfold Terminated; decide) (Or.inl rfl)
  · apply not_exactTable (terminated_manyLines _)
    right
    rw [getlines_manyLines, List.length_replicate]
    omega

end RegexTest
end PamoRxpBench
