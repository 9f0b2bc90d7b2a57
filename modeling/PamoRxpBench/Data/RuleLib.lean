import PamoRxpBench.Library.Text

/-!
# `data`: the rule library

The functions of `rule_lib.py` on the lines of a database and on the options of a rule. The
parser of rules is third-party code: a rule is what it returns, the list of its options.
-/

namespace PamoRxpBench
namespace Data

/-- An option of a rule. The options whose value is read have one. -/
structure RuleOption where
  name : Text
  value : Text
deriving DecidableEq, Repr

/-- A parsed rule. -/
structure Rule where
  options : List RuleOption
deriving DecidableEq, Repr

/-- `rule.get_option(name)`. -/
def Rule.getOption (r : Rule) (name : String) : List RuleOption :=
  r.options.filter fun opt => opt.name = name.toList

/-- `filter_whitespace`. -/
def filterWhitespace (lines : List Text) : List Text :=
  (lines.filter fun l => ¬ Text.strip l = ['\n'] ∧ ¬ (Text.strip l).length = 0).map fun l =>
    l.filter (· ≠ '\n')

/-- The lines of a database: stripped, without blank lines and comments. -/
def ruleLines (file : List Text) : List Text :=
  ((filterWhitespace file).filter fun l => ¬ ['#'].isPrefixOf (Text.strip l)).map Text.strip

/-- `unquote`. -/
def unquote (s : Text) : Text :=
  if s.length < 2 then s
  else if s.head? = some '"' ∧ s.getLast? = some '"' then s.tail.dropLast
  else s

/-! ## `suricata_content_to_regex` -/

/-- A hexadecimal block, without its blanks: every two digits become an escape. -/
def hexEscapes : Text → Text
  | [] => []
  | [a] => ['\\', 'x', a]
  | a :: b :: s => '\\' :: 'x' :: a :: b :: hexEscapes s

/-- A part outside the hexadecimal blocks: the special characters are escaped. -/
def escapeSpecial (part : Text) : Text :=
  part.flatMap fun char =>
    if char ∈ ",.^$*+?{}[]\\|()/".toList then ['\\', char] else [char]

/-- The loop over the parts between bars. -/
def regexParts : Bool → List Text → Text
  | _, [] => []
  | inHexBlock, part :: parts =>
    (if inHexBlock then hexEscapes (part.filter (· ≠ ' ')) else escapeSpecial part) ++
      regexParts (!inHexBlock) parts

/-- `suricata_content_to_regex`. -/
def suricataContentToRegex (content : Text) : Text := regexParts false (content.splitOn '|')

example : suricataContentToRegex "a.b|0d 0A|c".toList = "a\\.b\\x0d\\x0Ac".toList := by decide

end Data
end PamoRxpBench
