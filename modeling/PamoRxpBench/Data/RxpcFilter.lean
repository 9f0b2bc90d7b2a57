import PamoRxpBench.Data.RuleSampler
import Mathlib.Algebra.GroupWithZero.Nat

/-!
# `data`: the RXPC filter

`filter_rxpc` and `extract_content_strings` of `rule_lib.py`. The compiler `rxpc` is a parameter:
it is given the file of expressions and leaves the lines of its log.
-/

namespace PamoRxpBench
namespace Data

/-! ## Submitting expressions -/

/-- A line `i, rgx` of the file that is compiled. `line` and `literal` are ghosts: the index of the
rule it comes from, and whether it comes from a content of it. -/
structure Submitted where
  id : ℕ
  rgx : Text
  line : ℕ
  literal : Bool

/-- The variables of the first loop of `filter_rxpc`; `line` is a ghost: the number of rules it
went through. -/
structure Submission where
  inRgxs : List Submitted
  i : ℕ
  id2sid : IdMap
  excludedSids : List Text
  initialSids : List Text
  line : ℕ

/-- The variables before the loop. -/
def Submission.init : Submission := ⟨[], 1, ∅, [], [], 0⟩

/-- `in_rgxs.append(f"{i}, {rgx}\n"); id2sid[i] = sid; i += 1`. -/
def Submission.submit (sid : Text) (literal : Bool) (rgx : Text) (st : Submission) : Submission :=
  { st with
    inRgxs := st.inRgxs ++ [⟨st.i, rgx, st.line, literal⟩]
    id2sid := st.id2sid.insert st.i sid
    i := st.i + 1 }

/-- `excluded_sids.add(sid)`. -/
def Submission.exclude (sid : Text) (st : Submission) : Submission :=
  { st with excludedSids := st.excludedSids.insert sid }

/-- The contents of a rule: a negated one excludes the rule and ends the loop. -/
def Submission.addContents (sid : Text) : Submission → List RuleOption → Submission
  | st, [] => st
  | st, cntnt :: opts =>
    if ['!'].isPrefixOf cntnt.value then st.exclude sid
    else (st.submit sid true (suricataContentToRegex (unquote cntnt.value))).addContents sid opts

/-- `rxcp_modifiers`. -/
def rxcpModifiers : List Text := ["/i".toList, "/m".toList, "/s".toList, "/x".toList]

/-- The expressions of a rule: one without a modifier that `rxpc` takes excludes the rule and ends
the loop. -/
def Submission.addPcres (sid : Text) : Submission → List RuleOption → Submission
  | st, [] => st
  | st, rgx :: opts =>
    if rxcpModifiers.any fun m => m.isSuffixOf (Text.strip (unquote rgx.value)) then
      (st.submit sid false (unquote rgx.value)).addPcres sid opts
    else st.exclude sid

/-- The body of the loop over the rules. -/
def Submission.addRule (includePcres includeLiterals : Bool) (sid : Text) (r : Rule)
    (st : Submission) : Submission :=
  let st := { st with initialSids := st.initialSids.insert sid }
  let st := if includeLiterals then st.addContents sid (r.getOption "content") else st
  let st := if includePcres then st.addPcres sid (r.getOption "pcre") else st
  { st with line := st.line + 1 }

/-- The loop over the rules; it ends when `i` reaches `max_rules`. -/
def submitRules (parseRule : Text → Option Rule) (includePcres includeLiterals : Bool)
    (maxRules : ℕ) : Submission → List Text → Except Error Submission
  | st, [] => .ok st
  | st, l :: lines =>
    if st.i ≥ maxRules then .ok st
    else do
      let r ← parsedRule parseRule l
      let sid ← r.sid
      submitRules parseRule includePcres includeLiterals maxRules
        (st.addRule includePcres includeLiterals sid r) lines

/-! ## The log of the compiler -/

/-- `(Rule_index|rule_id):`. -/
def ruleIdKeys : List Text := ["Rule_index:".toList, "rule_id:".toList]

/-- `(Rule_index|rule_id):\s*(?P<id>\d+)` at the start of the text: the group `id`. -/
def matchRuleId (s : Text) : Option ℕ :=
  match ruleIdKeys.find? fun key => key.isPrefixOf s with
  | none => none
  | some key =>
    let digits := ((s.drop key.length).dropWhile Text.isSpace).takeWhile Char.isDigit
    if digits = [] then none else some (Nat.ofDigitChars 10 digits 0)

/-- `rgx_rule_idx.search(l)`. -/
def searchRuleId : Text → Option ℕ
  | [] => none
  | c :: s => (matchRuleId (c :: s)).or (searchRuleId s)

/-- `excluded_sids.update({id2sid[i] for i in uncompiled_idxs})`. -/
def excludeUncompiled (id2sid : IdMap) : List Text → List ℕ → Except Error (List Text)
  | excludedSids, [] => .ok excludedSids
  | excludedSids, i :: idxs =>
    match IdMap.get? id2sid i with
    | none => .error .keyError
    | some sid => excludeUncompiled id2sid (excludedSids.insert sid) idxs

/-! ## `filter_rxpc` -/

/-- `temp_rgx_file`. -/
def tempRgx (inRgxs : List Submitted) : Text :=
  inRgxs.flatMap fun e => Text.decimal e.id ++ ", ".toList ++ e.rgx ++ ['\n']

/-- `sid not in excluded_sids and sid in initial_sids`. -/
def Submission.keeps (st : Submission) (sid : Text) : Bool :=
  !st.excludedSids.contains sid && st.initialSids.contains sid

/-- The loop over the rules that are written. -/
def keptLines (parseRule : Text → Option Rule) (st : Submission) :
    List Text → Except Error (List Text)
  | [] => .ok []
  | l :: lines => do
    let r ← parsedRule parseRule l
    let sid ← r.sid
    let kept ← keptLines parseRule st lines
    return if st.keeps sid then (l ++ ['\n']) :: kept else kept

/-- `filter_rxpc`: its variables at the end and the lines written to `db_out`. -/
def filterRxpc (parseRule : Text → Option Rule) (rxpc : Text → List Text)
    (includePcres includeLiterals : Bool) (maxRules : ℕ) (dbIn : List Text) :
    Except Error (Submission × List Text) := do
  let st ← submitRules parseRule includePcres includeLiterals maxRules .init (ruleLines dbIn)
  let uncompiledIdxs := (rxpc (tempRgx st.inRgxs)).filterMap searchRuleId
  let excludedSids ← excludeUncompiled st.id2sid st.excludedSids uncompiledIdxs
  let st := { st with excludedSids := excludedSids }
  let kept ← keptLines parseRule st (ruleLines dbIn)
  return (st, kept)

/-! ## `extract_content_strings` -/

/-- `s.strip('"')`. -/
def stripQuotes (s : Text) : Text := (s.dropWhile (· = '"')).rdropWhile (· = '"')

/-- The loop over the options of a rule. -/
def Rule.contentStrings (r : Rule) : List Text :=
  (r.getOption "content").map fun opt => suricataContentToRegex (stripQuotes opt.value)

/-- `extract_content_strings`. -/
def extractContentStrings (parseRule : Text → Option Rule) : List Text → Except Error (List Text)
  | [] => .ok []
  | line :: file =>
    if Text.strip line = [] ∨ ['#'].isPrefixOf (Text.strip line) then
      extractContentStrings parseRule file
    else do
      let r ← parsedRule parseRule (Text.strip line)
      let rest ← extractContentStrings parseRule file
      return r.contentStrings ++ rest

/-! ## The three lists -/

/-- The literal expressions that were compiled for the rule of index `j`. -/
def Submission.literalsOf (st : Submission) (j : ℕ) : List Text :=
  (st.inRgxs.filter fun e => e.line = j ∧ e.literal).map Submitted.rgx

/-- How many expressions `to_hyperscan` numbers before the literals of the rule `r` of index `j`. -/
def expressionsBefore (parseRule : Text → Option Rule) (lines : List Text) (j : ℕ) (r : Rule) : ℕ :=
  (((lines.take j).filterMap parseRule).map fun r => (r.pcres ++ r.literals).length).sum
    + r.pcres.length

/-- The lines of the Hyperscan export for the literals of the rule `r` of index `j`. -/
def exportedLiterals (parseRule : Text → Option Rule) (dbIn : List Text) (j : ℕ) (r : Rule)
    (out : List Text) : List Text :=
  (out.drop (expressionsBefore parseRule (ruleLines dbIn) j r)).take r.literals.length

/-- An exported expression; for the tools it has slashes around it, and its number before them. -/
def withoutSlashes (toHsTools : Bool) (line : Text) : Text :=
  if toHsTools then ((line.dropWhile (· ≠ ':')).drop 2).dropLast else line

/-- The expressions that were compiled for the rule of index `j` are those that the benchmark gets
for it, and those of the Hyperscan export, with or without what the tools need. -/
structure SameLiterals (parseRule : Text → Option Rule) (dbIn : List Text) (st : Submission)
    (j : ℕ) (r : Rule) : Prop where
  benchmarked : st.literalsOf j = r.contentStrings
  /-- Only the export for the tools can fail. -/
  exports : ∃ out id2sid, toHyperscan parseRule false false dbIn = .ok (out, id2sid)
  exported : ∀ toHsTools out id2sid,
    toHyperscan parseRule false toHsTools dbIn = .ok (out, id2sid) →
    st.literalsOf j = (exportedLiterals parseRule dbIn j r out).map (withoutSlashes toHsTools)

end Data
end PamoRxpBench
