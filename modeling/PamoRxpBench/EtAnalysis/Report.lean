import Mathlib.Data.Char
import Mathlib.Data.List.Lex
import PamoRxpBench.Library.Binary64
import PamoRxpBench.Library.Csv
import PamoRxpBench.EtAnalysis.Met7

/-!
# `et-analysis`: the report

What `met7.py` prints, with the analysis of patterns enabled. A whole number is printed as an
`int`; how Python writes another one is a parameter. An element of the list of a function is what
one call of `print` writes.
-/

namespace PamoRxpBench
namespace EtAnalysis

open Binary64 (fixed)

/-- A number between the braces of a format string. -/
def showNumber (floatRepr : ℚ → Text) (q : ℚ) : Text :=
  if q.den = 1 then (if q.num < 0 then ['-'] else []) ++ Text.decimal q.num.natAbs
  else floatRepr q

/-- A line of the histogram. -/
def histogramLine (entry : ℕ × ℕ) : Text :=
  "    ".toList ++ (Text.decimal entry.1 ++ (": ".toList ++ Text.decimal entry.2))

/-- `print_metrics`. Counts are distinct, so the pairs are sorted by the counts. -/
def printMetrics (levelName : Text) (metrics : Metrics) : List Text :=
  ["\nStatistics for level: ".toList ++ levelName,
    "  Average SGH memberships per rule (how many SGH the rule belongs to): ".toList ++
      fixed 3 metrics.avgSghPerRule,
    "  Unique rule coverage (fraction in only one group): ".toList ++
      fixed 3 metrics.uniqueRuleCoverage,
    "  Average overlap per group pair: ".toList ++ fixed 3 metrics.avgOverlapPerPair,
    "  Entropy of rule multiplicity distribution: ".toList ++ fixed 3 metrics.entropy,
    "  Histogram of rule multiplicity (rule count : occurrences):".toList] ++
  (metrics.multiplicityHistogram.entries.insertionSort (·.1 ≤ ·.1)).map histogramLine

/-- A line of the composition. -/
def compositionLine (floatRepr : ℚ → Text) (entry : Text × ℚ) : Text :=
  "    ".toList ++ (entry.1 ++ (": ".toList ++ showNumber floatRepr entry.2))

/-- `print_protocol_composition`. -/
def printProtocolComposition (floatRepr : ℚ → Text) (comp : Dict Text ℚ) : List Text :=
  "  Aggregated Protocol Composition:".toList ::
    if comp.entries.isEmpty then ["    No protocol composition data available.".toList]
    else comp.entries.map (compositionLine floatRepr)

/-- The four lines of a subsection. -/
def printValues (floatRepr : ℚ → Text) (avg median min max : ℚ) : List Text :=
  ["      Average: ".toList ++ fixed 2 avg,
    "      Median : ".toList ++ fixed 2 median,
    "      Min    : ".toList ++ showNumber floatRepr min,
    "      Max    : ".toList ++ showNumber floatRepr max]

/-- `print_mpm_analysis`; `None` cannot be formatted. -/
def printMpmAnalysis (floatRepr : ℚ → Text) (mpmGroup : Text) (stats : MpmStats) :
    Option (List Text) := do
  let lengths := stats.lengthStats
  let medianLength ← lengths.medianLength
  return ["  MPM Analysis:".toList,
      "    Total SGHs: ".toList ++ Text.decimal stats.totalSgh,
      "    SGHs with MPM present: ".toList ++ Text.decimal stats.mpmPresent,
      "    MPM patterns for group '".toList ++ mpmGroup ++ "':".toList] ++
    printValues floatRepr stats.avgPatterns stats.medianPatterns stats.minPatterns
      stats.maxPatterns ++
    ["    Pattern Lengths for group '".toList ++ mpmGroup ++ "':".toList] ++
    printValues floatRepr lengths.avgLength medianLength lengths.minLength lengths.maxLength

/-! ## `main` -/

/-- What is printed of a level. -/
structure LevelReport where
  name : Text
  metrics : Metrics
  composition : Dict Text ℚ
  mpmStats : MpmStats

/-- What is printed in one pass of the loop. -/
def printLevel (floatRepr : ℚ → Text) (mpmGroup : Text) (report : LevelReport) :
    Option (List Text) := do
  let mpm ← printMpmAnalysis floatRepr mpmGroup report.mpmStats
  return printMetrics report.name report.metrics ++
    printProtocolComposition floatRepr report.composition ++ mpm

/-- The text that is printed. -/
def printLevels (floatRepr : ℚ → Text) (mpmGroup : Text) (reports : List LevelReport) :
    Option Text := do
  let printed ← reports.mapM (printLevel floatRepr mpmGroup)
  return Csv.unlines printed.flatten

/-- What is computed in one pass of the loop. -/
def levelReport (mpmGroup : Text) (results : Dict Text Metrics) (level : Text × List Group) :
    Option LevelReport := do
  let metrics ← results.get? level.1
  let composition ← aggregateProtocolComposition level.2
  let mpmStats ← analyzeMpm mpmGroup level.2
  return ⟨level.1, metrics, composition, mpmStats⟩

/-- The loop over the sorted names of the levels; a level without groups is skipped. -/
def levelReports (log2 : ℚ → ℚ) (mpmGroup : Text) (data : Json) (filterPath : Option Text) :
    Option (List LevelReport) := do
  let (levels, results) ← analyzeLevels log2 data filterPath
  let sorted := levels.entries.insertionSort fun a b => a.1 ≤ b.1
  (sorted.filter fun level => !level.2.isEmpty).mapM (levelReport mpmGroup results)

/-- `main`. -/
def main (log2 : ℚ → ℚ) (floatRepr : ℚ → Text) (mpmGroup : Text) (data : Json)
    (filterPath : Option Text) : Option Text := do
  let reports ← levelReports log2 mpmGroup data filterPath
  printLevels floatRepr mpmGroup reports

end EtAnalysis
end PamoRxpBench
