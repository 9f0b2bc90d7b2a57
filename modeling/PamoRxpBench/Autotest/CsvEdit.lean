import PamoRxpBench.Library.CsvDict

/-!
# `autotest`: `csvedit.py`

The command that edits a file of results by hand: the rows that match the queries get the values
that are set. The texts on the terminal are left out, except that rows that cannot be printed raise.
-/

namespace PamoRxpBench
namespace Autotest

open CsvExcel

/-- `parse_key_value`; `none` is an error of `argparse`. -/
def parseKeyValue (item : Text) : Option (Text × Text) :=
  if item.contains '=' then
    some (Text.strip (item.takeWhile (· ≠ '=')), Text.strip (item.dropWhile (· ≠ '=')).tail)
  else none

/-- `dict(pairs)`. -/
def toDict (pairs : List (Text × Text)) : Dict Text Text :=
  pairs.foldl (fun d p => d.set p.1 p.2) .empty

/-- The loop of `row_matches`; `none` is the `AttributeError` at a value that is `None`. -/
def matchesAll (row : DictRow) : List (Text × Text) → Option Bool
  | [] => some true
  | (key, value) :: conditions =>
    match row.values.get? key with
    | none => some false
    | some none => none
    | some (some v) => if Text.strip v = value then matchesAll row conditions else some false

/-- `row_matches`. -/
def rowMatches (row : DictRow) (conditions : Dict Text Text) : Option Bool :=
  matchesAll row conditions.entries

/-- `[row for row in rows if row_matches(row, conditions)]`. -/
def matchingRows (conditions : Dict Text Text) : List DictRow → Option (List DictRow)
  | [] => some []
  | row :: rows => do
    let found ← rowMatches row conditions
    let rest ← matchingRows conditions rows
    return if found then row :: rest else rest

/-- The assignments of `update_rows` to one row: a field that the row does not have is skipped. -/
def updateRow (updates : Dict Text Text) (row : DictRow) : DictRow where
  values := updates.entries.foldl
    (fun d e => if (d.get? e.1).isSome then d.set e.1 (some e.2) else d) row.values
  rest := row.rest

/-- `update_rows`: the rows behind it, and how many were updated. -/
def updateRows (conditions updates : Dict Text Text) : List DictRow → Option (List DictRow × ℕ)
  | [] => some ([], 0)
  | row :: rows => do
    let found ← rowMatches row conditions
    let rest ← updateRows conditions updates rows
    return if found then (updateRow updates row :: rest.1, rest.2 + 1) else (row :: rest.1, rest.2)

/-- How the command ends. -/
inductive EditExit
  | loadError
  /-- An exception that is not caught, before the file is opened for writing. -/
  | raised
  | noRows
  | printed
  | saved (numUpdated : ℕ) (file : Text)
  /-- `Error writing CSV file`: what was written until then stays. -/
  | writeError (file : Text)
deriving DecidableEq, Repr

/-- `main` of `csvedit.py` behind the reading of its arguments. -/
def csvedit (file : Text) (query set : List (Text × Text)) : EditExit :=
  match dictReader file with
  | none => .loadError
  | some (names, rows) =>
    match matchingRows (toDict query) rows with
    | none => .raised
    | some [] => .noRows
    | some (row :: matching) =>
      if set = [] then
        if (dictWriter names (row :: matching)).2 then .printed else .raised
      else
        match updateRows (toDict query) (toDict set) rows with
        | none => .raised
        | some (rows, numUpdated) =>
          match matchingRows (toDict query) rows with
          | none => .raised
          | some changed =>
            if (dictWriter names changed).2 then
              if (dictWriter names rows).2 then .saved numUpdated (dictWriter names rows).1
              else .writeError (dictWriter names rows).1
            else .raised

/-- `csvedit.py` on the input file, with the arguments of `--query` and `--set`. -/
def csveditMain (file : Text) (query set : List Text) : Option EditExit := do
  let query ← query.mapM parseKeyValue
  let set ← set.mapM parseKeyValue
  return csvedit file query set

/-- What the command leaves in the output file, if it was opened for writing. -/
def EditExit.written? : EditExit → Option Text
  | .saved _ file | .writeError file => some file
  | .loadError | .raised | .noRows | .printed => none

end Autotest
end PamoRxpBench
