import PamoRxpBench.Data.RuleLib
import Mathlib.Data.List.AList

/-!
# `data`: the Hyperscan export

`to_hyperscan` and `filter_hyperscan` of `rule_sampler.py`. A file is the list of its lines,
as `readlines` returns them. Two things are parameters: `parse_rule`, which returns `None` for
a line that is not a rule, and the tool `hscheck`.
-/

namespace PamoRxpBench
namespace Data

/-- How the two functions can fail. -/
inductive Error
  /-- An attribute of the `None` that stands for a line that is not a rule. -/
  | attributeError
  | indexError
  | keyError
  | valueError
  | unboundLocalError
  | exit (code : ℤ)
deriving DecidableEq, Repr

/-- A sequence of two steps that both succeed. -/
theorem bind_eq_ok {α β : Type} {x : Except Error α} {f : α → Except Error β} {b : β}
    (h : (x >>= f) = .ok b) : ∃ a, x = .ok a ∧ f a = .ok b := by
  cases x with
  | error e => cases h
  | ok a => exact ⟨a, rfl, h⟩

/-! ## Bracket groups -/

/-- `re.sub(r'(?<!\\)' + re.escape(char), r'\\' + char, s)`; `behind` says whether the character
before `s` is a backslash. -/
def escapeChar (char : Char) : Bool → Text → Text
  | _, [] => []
  | behind, c :: s =>
    if c = char ∧ behind = false then '\\' :: c :: escapeChar char (c = '\\') s
    else c :: escapeChar char (c = '\\') s

/-- `escape_chars`. -/
def escapeChars (groupContent : Text) : Text :=
  "^{}$".toList.foldl (fun groupContent char => escapeChar char false groupContent) groupContent

/-- `re.sub(r'\[[^\]]*]', repl, s)`. The state is the group that is being read: from its `[` on,
and so far without a `]`. -/
def subGroups (repl : Text → Text) : Option Text → Text → Text
  | none, [] => []
  | some group, [] => group
  | none, c :: s =>
    if c = '[' then subGroups repl (some [c]) s else c :: subGroups repl none s
  | some group, c :: s =>
    if c = ']' then repl (group ++ [c]) ++ subGroups repl none s
    else subGroups repl (some (group ++ [c])) s

/-- `re.compile(r'^/(.*)/').search(line)`: the group of the match. -/
def searchBody (line : Text) : Option Text :=
  match line with
  | '/' :: rest =>
    let run := rest.takeWhile (· ≠ '\n')
    if '/' ∈ run then some (run.rdropWhile (· ≠ '/')).dropLast else none
  | _ => none

/-- `matched_pattern`. -/
def matchedPattern (line : Text) : Text := (searchBody line).getD line

/-- `fixed_pattern`. -/
def fixedPattern (line : Text) : Text := subGroups escapeChars none (matchedPattern line)

/-- The body of the loop over the expressions. -/
def exportLine (toHsTools : Bool) (i : ℕ) (line : Text) : Except Error Text :=
  if (searchBody line).isSome ∧ toHsTools then
    match Text.split (matchedPattern line) line with
    | none => .error .valueError
    | some (a :: b :: _) =>
      -- `ends[0]` and `ends[1]`: parts behind a second occurrence of the body are lost
      .ok (Text.decimal (i + 1) ++ ':' :: a ++ fixedPattern line ++ b)
    | some _ => .error .indexError
  else .ok (fixedPattern line)

/-- The loop over the expressions, from number `i` on. -/
def exportLines (toHsTools : Bool) : ℕ → List Text → Except Error (List Text)
  | _, [] => .ok []
  | i, line :: lines => do
    let out ← exportLine toHsTools i line
    let outs ← exportLines toHsTools (i + 1) lines
    return out :: outs

/-! ## Expressions of a database -/

/-- `id2sid`. -/
abbrev IdMap := AList fun _ : ℤ => Text

/-- `id2sid[i]`; it raises `KeyError` (`none`) for a number without a sid. -/
def IdMap.get? (id2sid : IdMap) (i : ℤ) : Option Text := id2sid.lookup i

/-- `parse_rule(l)`, of which an attribute is read next. -/
def parsedRule (parseRule : Text → Option Rule) (l : Text) : Except Error Rule :=
  match parseRule l with
  | some r => .ok r
  | none => .error .attributeError

/-- `r.get_option('sid')[0].value`. -/
def Rule.sid (r : Rule) : Except Error Text :=
  match r.getOption "sid" with
  | o :: _ => .ok o.value
  | [] => .error .indexError

/-- `pcres`. -/
def Rule.pcres (r : Rule) : List Text := (r.getOption "pcre").map fun el => unquote el.value

/-- `literals`. -/
def Rule.literals (r : Rule) : List Text :=
  (r.getOption "content").map fun el => '/' :: suricataContentToRegex (unquote el.value) ++ ['/']

/-- The variables of the loop over the rules. -/
structure Numbering where
  patterns : List Text
  i : ℕ
  id2sid : IdMap

/-- `id2sid[i] = sid; i += 1`. -/
def Numbering.assign (sid : Text) (n : Numbering) : Numbering :=
  { n with i := n.i + 1, id2sid := n.id2sid.insert n.i sid }

/-- The body of the loop over the rules. -/
def Numbering.addRule (sid : Text) (r : Rule) (n : Numbering) : Numbering :=
  let n := r.pcres.foldl (fun n _ => n.assign sid) n
  let n := r.literals.foldl (fun n _ => n.assign sid) n
  { n with patterns := n.patterns ++ (r.pcres ++ r.literals) }

/-- The loop over the rules. -/
def numberRules (parseRule : Text → Option Rule) : Numbering → List Text → Except Error Numbering
  | n, [] => .ok n
  | n, l :: lines => do
    let r ← parsedRule parseRule l
    let sid ← r.sid
    numberRules parseRule (n.addRule sid r) lines

/-- `to_hyperscan`. The map is returned as well when the caller asks for it; it is not bound when
the file is one of patterns. -/
def toHyperscan (parseRule : Text → Option Rule) (fromPatterns toHsTools : Bool)
    (file : List Text) : Except Error (List Text × Option IdMap) :=
  if fromPatterns then do
    let lines ← exportLines toHsTools 0 (filterWhitespace file)
    return (lines, none)
  else do
    let n ← numberRules parseRule ⟨[], 0, ∅⟩ (ruleLines file)
    let lines ← exportLines toHsTools 0 n.patterns
    return (lines, some n.id2sid)

/-! ## `filter_hyperscan` -/

/-- What `sp.run` returns. -/
structure Completed where
  returncode : ℤ
  stdout : Text
deriving DecidableEq, Repr

/-- `"OK"`. -/
def okWord : Text := "OK".toList

/-- `"SUMMARY"`. -/
def summaryWord : Text := "SUMMARY".toList

/-- The body of the loop over the lines of the output: the sid to exclude, if any. -/
def excludeLine (id2sid : IdMap) (excludedSids : List Text) (l : Text) :
    Except Error (List Text) :=
  match l.splitOn ':' with
  | kind :: id :: _ :: _ :: _ =>
    if kind ∈ [okWord, summaryWord] then .ok excludedSids
    else
      match Text.readInt (Text.strip id) with
      | none => .error .valueError
      | some ruleId =>
        -- the printed numbers start at 1 and those of `id2sid` at 0
        match IdMap.get? id2sid ruleId with
        | none => .error .keyError
        | some sid => .ok (excludedSids.insert sid)
  | _ => .ok excludedSids

/-- The loop over the rules that are written: those whose sid is not excluded. -/
def keepRules (parseRule : Text → Option Rule) (excludedSids : List Text) :
    List Text → Except Error (List Text)
  | [] => .ok []
  | l :: lines => do
    let r ← parsedRule parseRule l
    let sid ← r.sid
    let kept ← keepRules parseRule excludedSids lines
    return if sid ∉ excludedSids then (l ++ ['\n']) :: kept else kept

/-- `temp.hst`. -/
def tempHst (lines : List Text) : Text := lines.flatMap (· ++ ['\n'])

/-- `filter_hyperscan`: the lines written to `db_out`. -/
def filterHyperscan (parseRule : Text → Option Rule) (hscheck : Text → Completed)
    (dbIn : List Text) : Except Error (List Text) := do
  let (lines, id2sid) ← toHyperscan parseRule false true dbIn
  let ran := hscheck (tempHst lines)
  if ran.returncode ≠ 0 then throw (.exit (-1))
  match id2sid with
  | none => throw .unboundLocalError
  | some id2sid =>
    let excludedSids ← (ran.stdout.splitOn '\n').foldlM (excludeLine id2sid) []
    keepRules parseRule excludedSids (ruleLines dbIn)

end Data
end PamoRxpBench
