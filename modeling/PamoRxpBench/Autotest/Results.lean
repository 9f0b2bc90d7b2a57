import Mathlib.Data.List.AList
import Mathlib.Data.Int.Notation

/-!
# `autotest`: result entries

The data types of `expelib.py` and its functions on result entries. A dictionary is an
association list without repeated keys; nothing depends on the order of its keys.
-/

namespace PamoRxpBench
namespace Autotest

/-! ## Data types -/

/-- A value of a parameter or of a column. -/
inductive Value
  | str (s : String)
  | int (i : ℤ)
deriving DecidableEq, Repr

/-- `str(v)`. -/
def Value.toText : Value → String
  | .str s => s
  | .int i => toString i

/-- The list of values of a column, which is never empty: the first is `v[0]`. -/
structure Values where
  first : Value
  others : List Value
deriving DecidableEq, Repr

/-- The list `[v]`. -/
def Values.single (v : Value) : Values := ⟨v, []⟩

/-- `DataEntry`: the values of each column. -/
abbrev DataEntry := AList fun _ : String => Values

/-- `ParamSet`: the value of each parameter. -/
abbrev ParamSet := AList fun _ : String => Value

/-- A configuration of the scripts: the initial one updated with a parameter set. -/
abbrev Config := AList fun _ : String => Value

/-! ## Functions on entries -/

/-- `has_invalid`. -/
def hasInvalid (resultLine : DataEntry) (invalidToken : String) : Bool :=
  resultLine.entries.any fun e => e.2.first = .str invalidToken

/-- `fill_invalid`: a column the entry lacks gets the invalid token. -/
def fillInvalid (resultLine : DataEntry) (cols : List String) (invalidToken : String) :
    DataEntry :=
  cols.foldl (fun dicopy c =>
    if c ∈ resultLine then dicopy else dicopy.insert c (.single (.str invalidToken))) resultLine

/-- `update_cols`. The order is that of a set. -/
def updateCols (resultLine : DataEntry) (cols : List String) : List String :=
  cols ∪ resultLine.keys

/-- The columns of `results_to_matrix`: all keys, sorted. -/
def resultsCols (results : List DataEntry) : List String :=
  (results.foldl (fun colSet r => colSet ∪ r.keys) []).mergeSort fun a b => a ≤ b

/-- `results_to_matrix`: the header and one row for each result. -/
def resultsToMatrix (results : List DataEntry) : List String × List (List Value) :=
  let cols := resultsCols results
  (cols, results.map fun r => cols.map fun c =>
    match r.lookup c with
    | some v => v.first
    | none => .str "NaN")

/-- `results_to_csv`: the lines of the file. -/
def resultsToCsv (results : List DataEntry) : List String :=
  let res := resultsToMatrix results
  ",".intercalate res.1 :: res.2.map fun l => ", ".intercalate (l.map Value.toText)

end Autotest
end PamoRxpBench
