import PamoRxpBench.Library.Binary64
import PamoRxpBench.Library.Csv
import PamoRxpBench.Library.Dict

/-!
# `et-analysis`: the values of the table

How `latextable2.py` reads the report of `met7.py`, up to the values that go to the table. `none`
stands for an exception. Numbers are read as exact decimals.
-/

namespace PamoRxpBench
namespace EtAnalysis

open Binary64 (isNumeral readDecimal)

/-! ## Patterns -/

/-- `\s*([\d\.]+)` at the start of a text: the group. -/
def leadingNumber (s : Text) : Option Text :=
  let number := (s.dropWhile Text.isSpace).takeWhile isNumeral
  if number = [] then none else some number

/-- `re.search(r":\s*([\d\.]+)", line)`: the group. -/
def searchNumber : Text → Option Text
  | [] => none
  | c :: s => (if c = ':' then leadingNumber s else none) <|> searchNumber s

/-- The match that begins with one of the alternatives. -/
def matchKey (line key : Text) : Option (Text × Text) :=
  if key <+: line then
    match (line.drop key.length).dropWhile Text.isSpace with
    | ':' :: s => (leadingNumber s).map fun number => (key, number)
    | _ => none
  else none

/-- `re.match(r"(Average|Median|Min|Max)\s*:\s*([\d\.]+)", line)`: the groups. -/
def matchValue (line : Text) : Option (Text × Text) :=
  ["Average".toList, "Median".toList, "Min".toList, "Max".toList].findSome? (matchKey line)

/-- `re.match(r"Statistics for level:\s*(\S+)", line)`: the group. -/
def matchLevel (line : Text) : Option Text :=
  let label := "Statistics for level:".toList
  let name := ((line.drop label.length).dropWhile Text.isSpace).takeWhile fun c => !Text.isSpace c
  if label <+: line ∧ name ≠ [] then some name else none

/-! ## `parse_histogram` -/

/-- The line before the rows. -/
def isHistogramLabel (line : Text) : Bool := "Histogram of rule multiplicity".toList <:+: line

/-- A line behind the last row. -/
def endsHistogram (line : Text) : Bool := Text.strip line = [] ∨ ¬ "    ".toList <+: line

/-- What a row adds to the total. -/
def rowValue (line : Text) : Option ℚ :=
  match searchNumber line with
  | some number => readDecimal number
  | none => some 0

/-- The loop over the lines, and `int(total)` after it. -/
def histogramLoop (histoStarted : Bool) (total : ℚ) : List Text → Option ℤ
  | [] => some (Binary64.truncate total)
  | line :: blockLines =>
    if isHistogramLabel line then histogramLoop true total blockLines
    else if histoStarted then
      if endsHistogram line then some (Binary64.truncate total)
      else (rowValue line).bind fun value => histogramLoop true (total + value) blockLines
    else histogramLoop false total blockLines

/-- `parse_histogram`. -/
def parseHistogram (blockLines : List Text) : Option ℤ := histogramLoop false 0 blockLines

/-! ## `parse_mpm_analysis` -/

/-- The variables of the loop. -/
structure MpmLoop where
  sgh : Option ℤ
  mpm : Dict Text ℚ
  length : Dict Text ℚ
  inMpm : Bool
  inLength : Bool

/-- Before the loop. -/
def MpmLoop.start : MpmLoop := ⟨none, Dict.empty, Dict.empty, false, false⟩

/-- `Total SGHs`: what stands behind it, if it is a number. -/
def readTotal (st : MpmLoop) (lineStrip : Text) : MpmLoop :=
  let label := "Total SGHs:".toList
  if label <+: lineStrip then
    { st with sgh := ((Text.splitFrom label 0 [] lineStrip)[1]?).bind fun part =>
        Text.readInt (Text.strip part) }
  else st

/-- A value goes to the subsection that is read. -/
def storeValue (st : MpmLoop) (key : Text) (value : ℚ) : MpmLoop :=
  if st.inMpm then { st with mpm := st.mpm.set key value }
  else if st.inLength then { st with length := st.length.set key value }
  else st

/-- The values within a subsection. -/
def readValue (st : MpmLoop) (lineStrip : Text) : Option MpmLoop :=
  if st.inMpm ∨ st.inLength then
    match matchValue lineStrip with
    | none => some st
    | some (key, number) =>
      (readDecimal number).map (storeValue st (key.map Char.toLower))
  else some st

/-- The body of the loop. -/
def mpmLine (st : MpmLoop) (line : Text) : Option MpmLoop :=
  let st := readTotal st (Text.strip line)
  if "MPM patterns for group".toList <:+: line then
    some { st with inMpm := true, inLength := false }
  else if "Pattern Lengths for group".toList <:+: line then
    some { st with inMpm := false, inLength := true }
  else readValue st (Text.strip line)

/-- The values in the order of the table. -/
structure Values where
  min : Option ℚ
  max : Option ℚ
  median : Option ℚ
  avg : Option ℚ
deriving DecidableEq

/-- The values of a subsection. -/
def reorder (values : Dict Text ℚ) : Values where
  min := values.get? "min".toList
  max := values.get? "max".toList
  median := values.get? "median".toList
  avg :=
    if (values.get? "average".toList).isSome then values.get? "average".toList
    else values.get? "avg".toList

/-- `parse_mpm_analysis`: the count of groups, the counts of patterns and their lengths. -/
def parseMpmAnalysis (blockLines : List Text) : Option (Option ℤ × Values × Values) :=
  (blockLines.foldlM mpmLine MpmLoop.start).map fun st =>
    (st.sgh, reorder st.mpm, reorder st.length)

/-! ## The levels -/

/-- The variables of the loop over the lines. -/
structure BlockLoop where
  dataByLevel : Dict Text (List Text)
  currentLevel : Option Text
  currentBlock : List Text

/-- The block of the current level is stored. -/
def storeBlock (st : BlockLoop) : Dict Text (List Text) :=
  match st.currentLevel with
  | some level => st.dataByLevel.set level st.currentBlock
  | none => st.dataByLevel

/-- The body of the loop. -/
def blockLine (st : BlockLoop) (line : Text) : BlockLoop :=
  match matchLevel line with
  | some name => ⟨storeBlock st, some (Text.strip name), []⟩
  | none =>
    if st.currentLevel.isSome then
      { st with currentBlock := st.currentBlock ++ [line.rdropWhile (· = '\n')] }
    else st

/-- `data_by_level` after the loop. -/
def dataByLevel (stdin : Text) : Dict Text (List Text) :=
  storeBlock ((Csv.readlines stdin).foldl blockLine ⟨Dict.empty, none, []⟩)

/-- An entry of `summary`, without the names of the protocol and the direction. -/
structure Summary where
  sgh : Option ℤ
  uniqueRules : ℤ
  mpm : Values
  length : Values
deriving DecidableEq

/-- The body of the loop over the blocks. -/
def summarize (entry : Text × List Text) : Option (Text × Summary) := do
  let uniqueRuleCount ← parseHistogram entry.2
  let (sgh, mpm, length) ← parseMpmAnalysis entry.2
  return (entry.1, ⟨sgh, uniqueRuleCount, mpm, length⟩)

/-- The entries of `summary`. -/
def summary (stdin : Text) : Option (List (Text × Summary)) :=
  (dataByLevel stdin).entries.mapM summarize

end EtAnalysis
end PamoRxpBench
