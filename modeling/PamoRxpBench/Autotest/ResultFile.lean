import PamoRxpBench.Autotest.DataManager
import PamoRxpBench.Library.Csv

/-!
# `autotest`: the file of results

The file that `export_csv` writes and `load_from_csv` reads when an experiment is resumed.
-/

namespace PamoRxpBench
namespace Autotest

/-- `{k: [v] for k, v in row.items()}`. -/
def toAdd (row : List (Text × Text)) : DataEntry :=
  row.foldl (fun d p => d.insert (String.ofList p.1) (.single (.str (String.ofList p.2)))) ∅

namespace DataManager

/-- The file that `export_csv` writes. -/
def exportFile (data : DataManager) : Text := Csv.unlines (data.exportCsv.map String.toList)

/-- `load_from_csv` of a file. `none` stands for a row with a key or a value that is not a
text. -/
def loadFile (data : DataManager) (file : Text) : Option DataManager :=
  (Csv.dictReader file).map fun rows => data.loadFromCsv (rows.map toAdd)

end DataManager

/-- The file after it was loaded by a resumed session and saved again `n` times. -/
def resaved : ℕ → Text → Option Text
  | 0, file => some file
  | n + 1, file => (DataManager.init.loadFile file).bind fun data => resaved n data.exportFile

end Autotest
end PamoRxpBench
