import PamoRxpBench.Data.SamplerCommands
import PamoRxpBench.Library.Combinations

/-!
# `data`: rules for generated prefixes

`gen_prefixes` and `rules_from_patterns` of `rule_sampler.py`, and the script
`prefixes_4b_64k_generate.py`. How a rule is written is third-party code (`str(rule)`).
-/

namespace PamoRxpBench
namespace Data

open Combinations

/-! ## `gen_prefixes` and `rules_from_patterns` -/

/-- `alphabet`. -/
def alphabet : Text := "abcdefghijklmnopqrstuvwxyzABCDEFGHIJKLMNOPQRSTUVWXYZ".toList

/-- `gen_prefixes`, with what it prints; `none` is the `ValueError` of `itertools.combinations`. -/
def genPrefixes (prefixSize maxPrefixes : ℤ) : Option (List Text × Option String) :=
  if prefixSize < 0 then none
  else
    let prefixes := (combinations alphabet prefixSize.toNat).take maxPrefixes.toNat
    some (prefixes, if prefixes.length < maxPrefixes then
        some ("Could not find enough prefixes !\nRequired " ++ toString maxPrefixes ++
          " found only " ++ toString prefixes.length)
      else none)

/-- The rule for a pattern. -/
def patternRule (i : ℕ) (p : Text) : Rule :=
  ⟨[⟨"content".toList, p⟩, ⟨"sid".toList, Text.decimal i⟩]⟩

/-- `rules_from_patterns`. -/
def rulesFromPatterns (showRule : Rule → Text) (file : List Text) : List Text :=
  (ruleLines file).mapIdx fun i p => showRule (patternRule i p)

/-- `rule_sampler.py … rules_from_patterns`. -/
def rulesFromPatternsCommand (showRule : Rule → Text) : List UInt8 → Option (List UInt8) :=
  command fun file => .ok (rulesFromPatterns showRule file)

/-! ## `prefixes_4b_64k_generate.py` -/

/-- `is_alphabetical`. -/
def isAlphabetical (s : Text) : Bool := s = s.mergeSort fun a b => decide (a.toNat ≤ b.toNat)

/-- The line for a combination. -/
def generatedRule (combination : Text) (sid : ℕ) : Text :=
  "alert tcp any any -> any any (content:\"".toList ++ combination ++ "\"; sid:".toList ++
    Text.decimal sid ++ ";)\n".toList

/-- The variables of the script. -/
structure Generated where
  sid : ℕ
  uniqueCombinations : List Text
  file : Text
deriving DecidableEq, Repr

/-- Before the loop. -/
def Generated.init : Generated := ⟨1, [], []⟩

/-- The loop over the combinations. -/
def generate (desiredRulesCount : ℕ) (s : Generated) : List Text → Generated
  | [] => s
  | combination :: rest =>
    if !isAlphabetical combination && !s.uniqueCombinations.elem combination then
      let s : Generated := {
        sid := s.sid + 1
        uniqueCombinations := combination :: s.uniqueCombinations
        file := s.file ++ generatedRule combination s.sid }
      if desiredRulesCount ≤ s.uniqueCombinations.length then s
      else generate desiredRulesCount s rest
    else generate desiredRulesCount s rest

/-- The file that the script writes, for any alphabet, length and number of rules. -/
def prefixesGenerate (letters : Text) (repeats desiredRulesCount : ℕ) : Text :=
  (generate desiredRulesCount .init (product letters repeats)).file

end Data
end PamoRxpBench
