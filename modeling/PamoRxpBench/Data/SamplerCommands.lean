import PamoRxpBench.Data.RxpcFilter
import PamoRxpBench.Library.Utf8

/-!
# `data`: the commands of `rule_sampler.py`

The commands that `prep_rules.sh` calls, from the bytes of the file that is read to the bytes that
are written. A file that is not UTF-8 cannot be read, and a command that raises writes nothing.
-/

namespace PamoRxpBench
namespace Data

/-- The loop over the rules. -/
def pcreStrings (parseRule : Text → Option Rule) : List Text → Except Error (List Text)
  | [] => .ok []
  | l :: lines => do
    let r ← parsedRule parseRule l
    let rest ← pcreStrings parseRule lines
    return r.pcres ++ rest

/-- `extract_pcres`. With `rxpc_compatible` the patterns are numbered from 1 on. -/
def extractPcres (parseRule : Text → Option Rule) (rxpcCompatible : Bool) (file : List Text) :
    Except Error (List Text) := do
  let ret ← pcreStrings parseRule (filterWhitespace (ruleLines file))
  return if rxpcCompatible then
    ret.mapIdx fun i pcreStr => Text.decimal (i + 1) ++ [',', ' '] ++ pcreStr
  else ret

/-- `write_to_file_or_print` of `"\n".join(lines)`. -/
def writeLines (lines : List Text) : List UInt8 :=
  Utf8.encode (['\n'].intercalate lines ++ ['\n'])

/-- A command: it reads the lines of the input file and writes those it computes. -/
def command (action : List Text → Except Error (List Text)) (input : List UInt8) :
    Option (List UInt8) :=
  (Utf8.decode input).bind fun file => (action (Csv.readlines file)).toOption.map writeLines

variable (parseRule : Text → Option Rule)

/-- `rule_sampler.py … extract_content`. -/
def extractContentCommand : List UInt8 → Option (List UInt8) :=
  command (extractContentStrings parseRule)

/-- `rule_sampler.py … extract_pcres`. -/
def extractPcresCommand : List UInt8 → Option (List UInt8) := command (extractPcres parseRule false)

/-- `rule_sampler.py … to_hyperscan`. -/
def toHyperscanCommand : List UInt8 → Option (List UInt8) :=
  command fun file => (toHyperscan parseRule true false file).map Prod.fst

end Data
end PamoRxpBench
