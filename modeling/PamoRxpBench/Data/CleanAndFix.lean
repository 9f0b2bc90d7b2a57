import PamoRxpBench.Data.RuleLib

/-!
# `data`: cleaning rules

The part of `clean_and_fix` of `rule_sampler.py` that removes options: those that are not
supported, and the negated contents and the expressions with what belongs to them.
-/

namespace PamoRxpBench
namespace Data

/-! ## Options -/

/-- `content_kw`. -/
def contentKw : List Text := ["content".toList, "pcre".toList]

/-- `prefix_content_modifier_before`. -/
def prefixContentModifierBefore : List Text := ["http.".toList, "dns.".toList]

/-- `content_modifiers`. -/
def contentModifiers : List Text :=
  ["nocase".toList, "depth".toList, "startswith".toList, "endswith".toList,
    "offset".toList, "distance".toList, "within".toList, "rawbytes".toList,
    "isdataat".toList, "bsize".toList, "dsize".toList, "byte_test".toList,
    "byte_math".toList, "byte_jump".toList, "byte_extract".toList,
    "rpc".toList, "replace".toList, "pcre".toList, "fast_pattern".toList]

/-- The names of the options that are not supported. -/
def unsupportedOptions : List Text :=
  ["metadata".toList, "reference".toList, "classtype".toList, "target".toList,
    "isdataat".toList, "bsize".toList]

/-- `rule.pop_option(name)`. -/
def Rule.popOption (r : Rule) (name : Text) : Rule :=
  ⟨r.options.filter fun opt => opt.name ≠ name⟩

/-- `filter_options`. -/
def filterOptions (r : Rule) (filterFunc : RuleOption → Bool) : Rule :=
  ⟨r.options.filter filterFunc⟩

/-- The rule without the options that are not supported. -/
def Rule.supported (r : Rule) : Rule :=
  filterOptions (r.popOption "bsize".toList) fun opt => !unsupportedOptions.contains opt.name

/-- A negated content or an expression. -/
def RuleOption.isRemoved (opt : RuleOption) : Bool :=
  (opt.name == "content".toList && ['!'].isPrefixOf opt.value) || opt.name == "pcre".toList

/-- An option in the loop. `place` is a ghost: the index of the option in the rule that the loop
starts from, which tells equal options apart. -/
structure PlacedOption extends RuleOption where
  place : ℕ
deriving DecidableEq, Repr

/-- The options of a rule, with their places. -/
def Rule.placed (r : Rule) : List PlacedOption := r.options.zipIdx.map fun x => ⟨x.1, x.2⟩

/-! ## The scans -/

/-- How the loop can fail, or not be done yet. -/
inductive CleanError
  | indexError
  | outOfFuel
deriving DecidableEq, Repr

/-- `new_options[-back_idx]`, for a positive `back_idx`. -/
def optionBack (newOptions : List PlacedOption) (backIdx : ℕ) : Except CleanError PlacedOption :=
  if backIdx ≤ newOptions.length then
    match newOptions[newOptions.length - backIdx]? with
    | some opt => .ok opt
    | none => .error .indexError
  else .error .indexError

/-- The body of the loop over the prefixes: `del new_options[-back_idx]` if the option there has
this one. -/
def deleteBack (backIdx : ℕ) (newOptions : List PlacedOption) (pfx : Text) :
    Except CleanError (List PlacedOption) := do
  let opt ← optionBack newOptions backIdx
  return if pfx.isPrefixOf opt.name then newOptions.eraseIdx (newOptions.length - backIdx)
    else newOptions

/-- The loop backwards over the kept options, for at most `fuel` tests. -/
def backLoop : ℕ → ℕ → List PlacedOption → Except CleanError (List PlacedOption)
  | 0, _, _ => .error .outOfFuel
  | fuel + 1, backIdx, newOptions => do
    let opt ← optionBack newOptions backIdx
    if ¬ contentKw.contains opt.name ∧ backIdx ≤ newOptions.length - 1 then
      -- the prefixes are tried one after the other at the same index, whatever was deleted there
      let newOptions ← prefixContentModifierBefore.foldlM (deleteBack backIdx) newOptions
      backLoop fuel (backIdx + 1) newOptions
    else return newOptions

/-- The loop forwards stops at this option. -/
def RuleOption.stopsScan (opt : RuleOption) : Bool :=
  ["sid".toList, "content".toList, "pcre".toList].contains opt.name ||
    "http.".toList.isPrefixOf opt.name

/-- The loop forwards over the options from `idx` on. -/
def forwardLoop : List PlacedOption → Except CleanError (List PlacedOption)
  | [] => .error .indexError
  | opt :: rest => if opt.stopsScan then .ok (opt :: rest) else forwardLoop rest

/-! ## The loop over the options -/

/-- The variables of the loop; `rest` are the options from `idx` on. -/
structure CleanState where
  newOptions : List PlacedOption
  rest : List PlacedOption

/-- The body of the loop. -/
def cleanBody (newOptions : List PlacedOption) (currOpt : PlacedOption)
    (rest : List PlacedOption) : Except CleanError CleanState :=
  if currOpt.isRemoved then do
    let newOptions ← backLoop (newOptions.length + 1) 1 newOptions
    let rest ← forwardLoop rest
    return ⟨newOptions, rest⟩
  else .ok ⟨newOptions ++ [currOpt], rest⟩

/-- The loop, for at most `fuel` turns. -/
def cleanLoop : ℕ → CleanState → Except CleanError (List PlacedOption)
  | _, ⟨newOptions, []⟩ => .ok newOptions
  | 0, ⟨_, _ :: _⟩ => .error .outOfFuel
  | fuel + 1, ⟨newOptions, currOpt :: rest⟩ => do
    let s ← cleanBody newOptions currOpt rest
    cleanLoop fuel s

/-- The state before the loop. -/
def Rule.cleanInit (r : Rule) : CleanState := ⟨[], r.supported.placed⟩

/-- The options of a rule after the loop. -/
def cleanOptions (r : Rule) : Except CleanError (List PlacedOption) :=
  cleanLoop r.supported.options.length r.cleanInit

end Data
end PamoRxpBench
