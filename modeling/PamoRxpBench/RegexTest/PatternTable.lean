import PamoRxpBench.RegexTest.UtilHs

/-!
# `regex-test`: the pattern table of `hs_init_db`

The two passes over the rule file once more, with the arrays they fill. The arrays have the size
that the first pass counted; an entry that was not written yet is uninitialised. Allocating some
bytes succeeds.
-/

namespace PamoRxpBench
namespace RegexTest

/-- `expressions`, `flags` and `ids`. An entry that is `none` is uninitialised. -/
structure PatternTable where
  expressions : List (Option Bytes)
  flags : List (Option UInt32)
  ids : List (Option UInt32)

/-- Three arrays of `n` entries from `rte_malloc`. -/
def PatternTable.malloc (n : ℕ) : PatternTable where
  expressions := List.replicate n none
  flags := List.replicate n none
  ids := List.replicate n none

/-- `array[i] = v`; `none` is a write past the end. -/
def writeArray {α : Type} (array : List (Option α)) (i : UInt32) (v : α) :
    Option (List (Option α)) :=
  if i.toNat < array.length then some (array.set i.toNat (some v)) else none

/-- The entry of a line. -/
def PatternTable.write (table : PatternTable) (i : UInt32) (line : Bytes) (exprFlags : UInt32) :
    Option PatternTable := do
  let expressions ← writeArray table.expressions i line
  let flags ← writeArray table.flags i exprFlags
  -- the same id for every expression
  let ids ← writeArray table.ids i 1
  return ⟨expressions, flags, ids⟩

/-- The variables of the second pass, and how often `getline` has returned a line. -/
structure TablePass where
  linesRead : ℕ
  i : UInt32
  expressionCount : UInt32
  table : PatternTable

/-- How the second pass ends. -/
inductive TableOutcome
  /-- `hs_compile_multi` is called with what the pass leaves. -/
  | compile (pass : TablePass)
  /-- A line is not terminated. -/
  | rtePanic
  /-- A write past the end of an array. -/
  | outOfBounds
  /-- `rte_malloc` returned NULL: `hs_init_db` returns -1. -/
  | noMemory

/-- The second pass, from the next `getline` on. -/
def secondPass (exprFlags : UInt32) : List Bytes → TablePass → TableOutcome
  | [], pass => .compile pass
  | line :: lines, pass =>
    -- the line is read before the bound is tested
    let pass := { pass with linesRead := pass.linesRead + 1 }
    if pass.i < pass.expressionCount then
      if line.getLast? = some 10 then
        let line := bufferString line.dropLast
        if line = [] then
          secondPass exprFlags lines { pass with expressionCount := pass.expressionCount - 1 }
        else
          match pass.table.write pass.i line exprFlags with
          | none => .outOfBounds
          | some table => secondPass exprFlags lines { pass with table := table, i := pass.i + 1 }
      else .rtePanic
    else .compile pass

/-- From `fopen` of the rules to the call of `hs_compile_multi`. -/
def fillTable (rules : Bytes) (exprFlags : UInt32) : TableOutcome :=
  let lines := getlines [] rules
  let expressionCount := countExpressions lines
  -- `rte_malloc` of no bytes returns NULL
  if expressionCount = 0 then .noMemory
  else secondPass exprFlags lines
    ⟨0, 0, expressionCount, PatternTable.malloc expressionCount.toNat⟩

end RegexTest
end PamoRxpBench
