import PamoRxpBench.Autotest.Results
import PamoRxpBench.Library.Shell

/-!
# `autotest`: `prep_rules.sh`

The template, as the script it renders to for a configuration. The tools it calls are
parameters (`Tools`); a tool that fails writes nothing. The counts collected in
`/tmp/rgx_cnt` are left out: no other command reads them.

`curr_id_uniq` is empty, so every file named after it has one name for all configurations:
`.regexes`, `.rxpc`, `.contents`, `.pcres` and their temporaries.
-/

namespace PamoRxpBench
namespace Autotest

open Shell

/-- The template variables of `prep_rules.sh`; only the subset ratio may be undefined. -/
structure PrepConfig where
  nRules : Value
  rulesPatlenGreaterthan : Value
  rulesUseContentKw : Value
  rulesUsePcreKw : Value
  ruleSubsetRatio : Option Value
  patternDb : Value
  fixedSeed : Value
  rgxEnabled : Value
  hsEnabled : Value
deriving DecidableEq, Repr

/-- A run of the script: its configuration, and what seeds the sampler if nothing else does. -/
structure PrepRun where
  config : PrepConfig
  entropy : ℕ
deriving DecidableEq, Repr

/-- The two kinds of patterns. -/
inductive PatternKind
  | contents
  | pcres
deriving DecidableEq, Repr

/-- The bytes of a file. -/
abbrev Bytes := List UInt8

/-- The tools. `jinjaInt` is the template filter `int` on a string; `sample` is given the
database, the number of rules and either the fixed seed (`none`) or the entropy. -/
structure Tools where
  jinjaInt : String → ℤ
  sample : Bytes → String → Option ℕ → Option Bytes
  extract : PatternKind → Bytes → Option Bytes
  sortUniq : Bytes → Bytes
  grepLonger : String → Bytes → Bytes
  number : Bytes → Bytes
  rulesToSubsets : String → Bytes → Option Bytes
  rxpc : Bytes → Option Bytes
  toHyperscan : Bytes → Option Bytes

/-- The files of `$EXPATH` and `/tmp` that the script names. -/
inductive ExpFile
  /-- The copy of the pattern database. -/
  | db (name : String)
  /-- `$curr_id.rules`. -/
  | rules (currId : String)
  /-- `$curr_id.contents` and `$curr_id.pcres`. -/
  | extracted (k : PatternKind) (currId : String)
  /-- `.contents.tmp` and `.pcres.tmp`. -/
  | tmp (k : PatternKind)
  /-- `.contents` and `.pcres`. -/
  | uniq (k : PatternKind)
  /-- `.regexes`. -/
  | regexes
  /-- `.rxpc`. -/
  | rxpc
  /-- `.rxpc.orig`. -/
  | rxpcOrig
  /-- `/tmp/.rxpc`. -/
  | tmpRxpc
  /-- `precompiled_$curr_id`. -/
  | precompiled (currId : String)
  /-- `$curr_id.rof2.binary`. -/
  | rof2 (currId : String)
  /-- `current.rof2.binary`. -/
  | current
  /-- `current.hyperscan`. -/
  | currentHyperscan
  /-- `working_set_uniq.rxpc`. -/
  | workingSetUniq
  /-- `working_set_compiled.rof2.binary`. -/
  | workingSetCompiled
deriving DecidableEq, Repr

/-! ## Rendering -/

namespace Tools

variable (T : Tools)

/-- `x | int`. -/
def int : Value → ℤ
  | .str s => T.jinjaInt s
  | .int i => i

/-- The option that enables the patterns of a kind. -/
def useKw (c : PrepConfig) : PatternKind → Value
  | .contents => c.rulesUseContentKw
  | .pcres => c.rulesUsePcreKw

/-- `rules_use_…_kw | int == 1`. -/
def enabled (c : PrepConfig) (k : PatternKind) : Bool := T.int (useKw c k) == 1

/-- Both keywords are disabled, and the script exits. -/
def exits (c : PrepConfig) : Bool :=
  T.int c.rulesUseContentKw == 0 && T.int c.rulesUsePcreKw == 0

/-- `rules_patlen_greaterthan | int > 0`. -/
def filtersLength (c : PrepConfig) : Bool := T.int c.rulesPatlenGreaterthan > 0

/-- What `sample` is seeded with. -/
def seed (r : PrepRun) : Option ℕ := if T.int r.config.fixedSeed > 0 then none else some r.entropy

end Tools

/-- `curr_id`. An undefined variable renders as nothing. -/
def currId (c : PrepConfig) : String :=
  "nr" ++ c.nRules.toText ++ "_patlengte" ++ c.rulesPatlenGreaterthan.toText
    ++ "_ct" ++ c.rulesUseContentKw.toText ++ "_pcre" ++ c.rulesUsePcreKw.toText
    ++ "_subsets" ++ (c.ruleSubsetRatio.map Value.toText).getD ""

/-! ## The script -/

section Script

variable (T : Tools) (rendir : String → Option Bytes) (r : PrepRun)

/-- The rule sample of a run: that of the database in `$RENDIR`. -/
def sampled : Option Bytes :=
  (rendir r.config.patternDb.toText).bind fun db =>
    T.sample db r.config.nRules.toText (T.seed r)

/-- `extract_contents` and `extract_pcres`. -/
def extractCommands (k : PatternKind) : List (Command ExpFile UInt8) :=
  [.tool (.rules (currId r.config)) (.extracted k (currId r.config)) (T.extract k),
   .redirect (.extracted k (currId r.config)) (.tmp k) T.sortUniq]
  ++ (if T.filtersLength r.config then
    [.redirect (.tmp k) (.uniq k) (T.grepLonger r.config.rulesPatlenGreaterthan.toText)]
  else [])  -- `.contents` or `.pcres` is whatever an earlier run left
  ++ [.append (.uniq k) .regexes]

/-- The calls of the two functions. -/
def patternCommands : List (Command ExpFile UInt8) :=
  (if T.enabled r.config .contents then extractCommands T r .contents else [])
    ++ if T.enabled r.config .pcres then extractCommands T r .pcres else []

/-- Sample the rules, and delete the leftovers. -/
def sampleCommands : List (Command ExpFile UInt8) :=
  [.make (.db r.config.patternDb.toText) (rendir r.config.patternDb.toText),
   .make (.rules (currId r.config)) (sampled T rendir r),
   .rm .regexes]

/-- The input of the RXP compiler. -/
def rxpcCommands : List (Command ExpFile UInt8) :=
  .redirect .regexes .rxpc T.number ::
    match r.config.ruleSubsetRatio with
    | some ratio =>
      [.mv .rxpc .rxpcOrig, .tool .rxpcOrig .rxpc (T.rulesToSubsets ratio.toText)]
    | none => []

/-- Compile, unless there is a compiled file under the same identifier. -/
def compileScript : Script ExpFile UInt8 :=
  .ifExists (.precompiled (currId r.config))
    (.acts [.cp (.precompiled (currId r.config)) .current])
    (.acts
      [.cp .rxpc .tmpRxpc,
       .tool .rxpc (.rof2 (currId r.config)) T.rxpc,
       .cp (.rof2 (currId r.config)) (.precompiled (currId r.config)),
       .cp (.rof2 (currId r.config)) .current])

/-- The part that depends on the engine. -/
def engineScript : Script ExpFile UInt8 :=
  if T.int r.config.rgxEnabled = 1 then
    (Script.acts (rxpcCommands T r)).andThen ((compileScript T r).andThen
      (.acts [.tool .workingSetUniq .workingSetCompiled T.rxpc]))
  else if T.int r.config.hsEnabled = 1 then
    .acts [.tool .regexes .currentHyperscan T.toHyperscan]
  else .done

/-- `prep_rules.sh`, for the databases in `$RENDIR`. -/
def prepRules : Script ExpFile UInt8 :=
  (Script.acts (sampleCommands T rendir r)).andThen
    (if T.exits r.config then .done
    else (Script.acts (patternCommands T r)).andThen (engineScript T r))

end Script

/-- The directory after the script was run for each of `runs`, starting from an empty one. -/
def afterRuns (T : Tools) (rendir : String → Option Bytes) (runs : List PrepRun) :
    Files ExpFile UInt8 :=
  runs.foldl (fun s r => (prepRules T rendir r).run s) Files.empty

end Autotest
end PamoRxpBench
