import PamoRxpBench.Library.Binary64
import PamoRxpBench.Library.Csv
import Mathlib.Algebra.Order.Ring.Int
import Mathlib.Algebra.Order.Ring.Rat

/-!
# `data`: `rules_to_subsets`

The rules of a file are written in consecutive subsets, each under a header `subset_id=i`, in
the proportions of a ratio string such as `0.9:0.1`. Floating point arithmetic is a parameter.
-/

namespace PamoRxpBench
namespace Data

/-- The floating point operations of `rules_to_subsets`; `none` where they raise. -/
structure PyFloat (F : Type) where
  /-- `float(s)`. -/
  float : Text → Option F
  /-- `math.fsum(ratios) != 1` is false. -/
  fsumIsOne : List F → Option Bool
  /-- `int(ratio * total_rules)`. -/
  intMul : F → ℕ → Option ℤ

/-- Numbers of 64 bits; a number that is not finite raises in the end. -/
def binary64 : PyFloat ℚ where
  float s := (Binary64.readDecimal s).bind Binary64.ofRat
  fsumIsOne ratios := some (Binary64.nearest ratios.sum = 1)
  intMul ratio totalRules := do
    let total ← Binary64.ofRat totalRules
    let product ← Binary64.ofRat (ratio * total)
    some (Binary64.truncate product)

/-- `xs[a:b]`. -/
def pySlice {α : Type} (xs : List α) (a b : ℤ) : List α :=
  let clamp (i : ℤ) : ℕ := (if i < 0 then i + xs.length else i).toNat
  (xs.take (clamp b)).drop (clamp a)

/-- `rule_counts[-1] += d`. -/
def addToLast : List ℤ → ℤ → List ℤ
  | [], _ => []
  | [c], d => [c + d]
  | c :: cs, d => c :: addToLast cs d

/-- The loop that writes the subsets: each header with the rules written under it. -/
def writeSubsets (rules : List Text) : ℕ → ℤ → List ℤ → List (ℕ × List Text)
  | _, _, [] => []
  | i, startIdx, count :: counts =>
    (i, pySlice rules startIdx (startIdx + count)) ::
      writeSubsets rules (i + 1) (startIdx + count) counts

/-- `rules_to_subsets` on the lines of the input file; `none` is a `ValueError`. -/
def rulesToSubsets {F : Type} (py : PyFloat F) (ratioStr : Text) (rules : List Text) :
    Option (List (ℕ × List Text)) := do
  let fields ← Text.split [':'] ratioStr
  let ratios ← fields.mapM py.float
  let one ← py.fsumIsOne ratios
  if !one then none
  else if rules.length ≤ ratios.length then none
  else do
    let counts ← ratios.mapM fun ratio => py.intMul ratio rules.length
    some (writeSubsets rules 1 0 (addToLast counts (rules.length - counts.sum)))

/-! ## The file of the subsets -/

/-- `subset_id=`. -/
def subsetKey : Text := "subset_id=".toList

/-- What is written: each header, and the rules under it. -/
def subsetsFile (subsets : List (ℕ × List Text)) : Text :=
  subsets.flatMap fun s => subsetKey ++ Text.decimal s.1 ++ '\n' :: s.2.flatten

/-- The number on a line `subset_id=i`. -/
def subsetIdOf (l : Text) : Option ℕ :=
  if subsetKey.isPrefixOf l then Text.readDigits (l.drop subsetKey.length) else none

/-- Lines cut at the headers: the lines before the first one, and the sections. -/
def cutSubsets : List Text → List Text × List (ℕ × List Text)
  | [] => ([], [])
  | l :: lines =>
    match subsetIdOf l with
    | some i => ([], (i, (cutSubsets lines).1) :: (cutSubsets lines).2)
    | none => (l :: (cutSubsets lines).1, (cutSubsets lines).2)

end Data
end PamoRxpBench
