import PamoRxpBench.Autotest.Results

/-!
# `autotest`: `DataManager`

The table of results of an experiment: the columns seen so far and one entry for each row.
-/

namespace PamoRxpBench
namespace Autotest

/-- A computed metric and what is done with the entry once it has been computed. -/
structure Metric where
  name : String
  compute : DataEntry → Value
  postCompute : Option (DataEntry → DataEntry)

/-- `class DataManager`. -/
structure DataManager where
  invalidToken : String
  useIndex : Bool
  parameterPrefix : String
  columns : List String
  entries : List DataEntry
  rowIdx : ℕ
  metrics : List Metric

/-- `DataManager(expected_colums=[])`, the other arguments at their defaults. -/
def DataManager.init : DataManager where
  invalidToken := "NaN"
  useIndex := true
  parameterPrefix := "param_"
  columns := []
  entries := []
  rowIdx := 0
  metrics := []

namespace DataManager

/-- `_compute_metrics`. -/
def computeMetrics (data : DataManager) (entry : DataEntry) : DataEntry :=
  data.metrics.foldl (fun entry m =>
    let entry := entry.insert m.name (.single (m.compute entry))
    match m.postCompute with
    | some post => post entry
    | none => entry) entry

/-- The loop of `add_entry` over `current_parameters`: one column for each parameter. -/
def addParameters (parameterPrefix : String) (params : ParamSet) (entry : DataEntry) :
    DataEntry :=
  params.entries.foldl (fun entry p => entry.insert (parameterPrefix ++ p.1) (.single p.2)) entry

/-- `add_entry`. It returns whether the entry was added. -/
def addEntry (data : DataManager) (entry : DataEntry) (currentParameters : Option ParamSet)
    (force doUpdateCols : Bool) : Bool × DataManager :=
  let columns := if doUpdateCols then updateCols entry data.columns else data.columns
  let entry := fillInvalid entry columns data.invalidToken
  if hasInvalid entry data.invalidToken && !force then
    -- the entry is dropped, and its columns stay registered
    (false, { data with columns := columns })
  else
    let entry :=
      if data.useIndex then entry.insert "index" (.single (.int data.rowIdx)) else entry
    let rowIdx := if data.useIndex then data.rowIdx + 1 else data.rowIdx
    let entry :=
      match currentParameters with
      | some params => addParameters data.parameterPrefix params entry
      | none => entry
    (true, { data with
      columns := columns
      rowIdx := rowIdx
      entries := data.entries ++ [data.computeMetrics entry] })

/-- `validate_entry`. -/
def validateEntry (data : DataManager) (entry : DataEntry) : Bool :=
  !hasInvalid (fillInvalid entry data.columns data.invalidToken) data.invalidToken

/-- `load_from_csv`, given the rows read. -/
def loadFromCsv (data : DataManager) (rows : List DataEntry) : DataManager :=
  rows.foldl (fun data row => (data.addEntry row none false false).2) data

/-- `export_csv`: the lines written. -/
def exportCsv (data : DataManager) : List String := resultsToCsv data.entries

end DataManager

end Autotest
end PamoRxpBench
