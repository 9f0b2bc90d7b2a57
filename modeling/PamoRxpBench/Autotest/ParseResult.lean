import PamoRxpBench.Library.Findall
import Mathlib.Data.List.AList

/-!
# `autotest`: `host_parse_single_result`

The results of the output of an experiment. The classes of characters of the regular expressions,
`str.lower` and the order of a set are parameters.
-/

namespace PamoRxpBench
namespace Autotest

open Findall

/-- What the language decides. -/
structure PyText where
  /-- `\w`. -/
  isWord : Char → Bool
  /-- `\d`. -/
  isDecimal : Char → Bool
  /-- `str.lower`. -/
  lower : Text → Text
  /-- `list(set(xs))`. -/
  listSet : List Text → List Text

variable (py : PyText)

/-- `[\.\w\d-]`. -/
def PyText.isField (c : Char) : Bool := c = '.' || py.isWord c || py.isDecimal c || c = '-'

/-- `[\.\d]`. -/
def PyText.isValue (c : Char) : Bool := c = '.' || py.isDecimal c

/-! ## The regular expressions -/

/-- `RESULT-`. -/
def resultKey : Text := "RESULT-".toList

/-- A match of `result_regex`; `blank` is a ghost: the blanks before the value. -/
structure ResultMatch where
  field : Text
  blank : Text
  value : Text
  unit : Text

/-- `RESULT-(?P<field>[\.\w\d-]+)\s+` at the start of the text: the field, the blanks and what is
left. A character of a field is no blank, so there is nothing to go back to. -/
def matchField (s : Text) : Option (Text × Text × Text) :=
  if resultKey.isPrefixOf s then
    let rest := s.drop resultKey.length
    let field := rest.takeWhile py.isField
    let rest := rest.dropWhile py.isField
    let blank := rest.takeWhile Text.isSpace
    if field = [] ∨ blank = [] then none else some (field, blank, rest.dropWhile Text.isSpace)
  else none

/-- `result_regex` at the start of the text. -/
def resultRegex (s : Text) : Option (ResultMatch × Text) :=
  match matchField py s with
  | none => none
  | some (field, blank, rest) =>
    let value := rest.takeWhile py.isValue
    let rest := rest.dropWhile py.isValue
    if value = [] then none
    else some (⟨field, blank, value, rest.takeWhile Char.isAlpha⟩, rest.dropWhile Char.isAlpha)

/-- `result_empty_regex` at the start of the text. -/
def resultEmptyRegex (s : Text) : Option (Text × Text) :=
  (matchField py s).map fun m => (m.1, m.2.2)

/-! ## `host_parse_single_result` -/

/-- `DataEntry`, of texts. -/
abbrev ParsedEntry := AList fun _ : Text => List Text

/-- `[el[1] for el in filter(lambda x: x[0] == f, results)]`. -/
def valuesOf (results : List ResultMatch) (f : Text) : List Text :=
  (results.filter fun el => el.field = f).map ResultMatch.value

/-- `host_parse_single_result`. -/
def hostParseSingleResult (toParse : Text) : ParsedEntry :=
  let results := findall (resultRegex py) toParse
  let fields := py.listSet (results.map ResultMatch.field)
  let ret := fields.foldl (fun ret f => ret.insert (py.lower f) (valuesOf results f)) ∅
  let resultsEmpty := findall (resultEmptyRegex py) toParse
  let fieldsEmpty := (py.listSet resultsEmpty).filter fun f => !fields.contains f
  fieldsEmpty.foldl (fun ret f => ret.insert (py.lower f) ["NaN".toList]) ret

end Autotest
end PamoRxpBench
