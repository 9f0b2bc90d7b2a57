import PamoRxpBench.Library.Random
import PamoRxpBench.Library.Text

/-!
# `regex-gen.py`

The generator of random expressions, with its draws in the order in which the program makes them.
-/

namespace PamoRxpBench
namespace Data

open Gen (choice randint raise)

/-- The dictionary `config`. -/
structure GenConfig where
  useBoundQuants : Bool
  useUnboundQuants : Bool
  useSets : Bool
  useGroups : Bool
deriving DecidableEq, Repr

/-- `string.ascii_lowercase + string.digits`. -/
def baseChars : Text := "abcdefghijklmnopqrstuvwxyz0123456789".toList

/-- `char_sets` when sets are used. -/
def charSets : List Text :=
  ["[aeiou]".toList, "[1-3]".toList, "[a-z]".toList, "[A-Z]".toList, "[0-9]".toList,
    "[^0-9]".toList, "[m-n]".toList]

/-- `unbounded_quantifiers`. -/
def unboundedQuantifiers (config : GenConfig) (requireNonEmpty : Bool) : List Text :=
  if config.useUnboundQuants then
    if !requireNonEmpty then ["+".toList, "*".toList] else ["+".toList]
  else []

/-- `bounded_quantifiers`; the three numbers are drawn whether or not they are used. -/
def boundedQuantifiers (config : GenConfig) : Gen (List Text) :=
  if config.useBoundQuants then do
    let n ← randint 1 15
    let lower ← randint 1 10
    let upper ← randint 11 50
    pure ['\x7b' :: (Text.decimal n ++ ['\x7d']),
      '\x7b' :: (Text.decimal lower ++ ',' :: (Text.decimal upper ++ ['\x7d']))]
  else pure []

/-- The base character or the character set of a segment. -/
def generateAtom (config : GenConfig) : Gen Text := do
  let ch := baseChars :: (if config.useSets then charSets else [])
  let segmentChoice ← choice ch
  if segmentChoice = baseChars then do
    let c ← choice segmentChoice
    pure [c]
  else pure segmentChoice

/-- `quantifiers and (not require_non_empty or random.choice([True, False]))`. -/
def addsQuantifier (quantifiers : List Text) (requireNonEmpty : Bool) : Gen Bool :=
  if quantifiers = [] then pure false
  else if !requireNonEmpty then pure true
  else choice [true, false]

/-- `generate_regex_segment`. -/
def generateRegexSegment (config : GenConfig) (requireNonEmpty : Bool) : Gen Text := do
  let bounded ← boundedQuantifiers config
  let quantifiers := unboundedQuantifiers config requireNonEmpty ++ bounded
  let segment ← generateAtom config
  let adds ← addsQuantifier quantifiers requireNonEmpty
  if adds then do
    let quantifier ← choice quantifiers
    pure (segment ++ quantifier)
  else pure segment

/-- `segments[i] = '(' + segments[i] + segments.pop(i + 1) + ')'`. -/
def mergeSegments (segments : List Text) (i : ℕ) : Option (List Text) := do
  let a ← segments[i]?
  let b ← segments[i + 1]?
  some ((segments.eraseIdx (i + 1)).set i ('(' :: (a ++ (b ++ [')']))))

/-- The optional group of two segments. -/
def groupSegments (config : GenConfig) (segments : List Text) : Gen (List Text) :=
  if config.useGroups && decide (1 < segments.length) then do
    let startIndex ← randint 0 (segments.length - 2)
    match mergeSegments segments startIndex with
    | some segments => pure segments
    | none => raise
  else pure segments

/-- `random_valid_regex`. -/
def randomValidRegex (config : GenConfig) : Gen Text := do
  let first ← generateRegexSegment config true
  let numSegments ← randint 3 10
  let others ← (List.range' 1 (numSegments - 1)).mapM fun _ => generateRegexSegment config false
  let segments ← groupSegments config (first :: others)
  pure segments.flatten

end Data
end PamoRxpBench
