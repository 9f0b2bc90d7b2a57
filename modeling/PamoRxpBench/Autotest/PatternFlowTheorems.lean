import PamoRxpBench.Autotest.PrepRulesTheorems
import PamoRxpBench.RegexTest.PatternFileTheorems
import Mathlib.Data.Set.List

/-!
# From the rules to the two engines

`prep_rules.sh` makes the input of the RXP compiler and the pattern file of Hyperscan from the same
files of extracted patterns. Followed through all of the tools, from the sampled rules to the table
that `hs_init_db` hands to Hyperscan, a run for the one engine and a run for the other give them the
same patterns in the same order (`engines_samePatterns`): the contents as they are, and for
Hyperscan the pcres without their delimiters and flags. Only blank patterns do not reach Hyperscan.
-/

namespace PamoRxpBench
namespace Autotest

open Data (Rule notBlank fixedPattern)
open RegexTest (fillTable)
open Shell

/-! ## The tools -/

/-- What the manuals of `sort`, `uniq`, `grep` and `awk` say of files of lines; `keeps n` are the
lines that match `^.{n,}$`. -/
structure Tools.Documented (T : Tools) (keeps : String → Bytes → Bool) : Prop where
  sortUniq_lines : ∀ ls : List Bytes, (∀ l ∈ ls, 10 ∉ l) →
    ∃ sorted, T.sortUniq (Utf8.unlines ls) = Utf8.unlines sorted ∧ sorted.Nodup ∧
      ∀ l, l ∈ sorted ↔ l ∈ ls
  grepLonger_lines : ∀ n, ∀ ls : List Bytes, (∀ l ∈ ls, 10 ∉ l) →
    T.grepLonger n (Utf8.unlines ls) = Utf8.unlines (ls.filter (keeps n))
  keeps_nil : ∀ v, 0 < T.int v → keeps v.toText [] = false
  number_lines : ∀ ls : List Bytes, (∀ l ∈ ls, 10 ∉ l) →
    T.number (Utf8.unlines ls) =
      Utf8.unlines (ls.mapIdx fun i l => Utf8.encode (Text.decimal (i + 1) ++ [',']) ++ l)

/-- The commands of `rule_sampler.py`. -/
structure Tools.OfSampler (T : Tools) (parseRule : Text → Option Rule) : Prop where
  contents : T.extract .contents = Data.extractContentCommand parseRule
  pcres : T.extract .pcres = Data.extractPcresCommand parseRule
  toHyperscan : T.toHyperscan = Data.toHyperscanCommand parseRule

/-- Two runs that collect the same patterns: they may differ in the engine. -/
structure SamePatterns (T : Tools) (r r' : PrepRun) : Prop where
  nRules : r'.config.nRules = r.config.nRules
  patlen : r'.config.rulesPatlenGreaterthan = r.config.rulesPatlenGreaterthan
  contentKw : r'.config.rulesUseContentKw = r.config.rulesUseContentKw
  pcreKw : r'.config.rulesUsePcreKw = r.config.rulesUsePcreKw
  patternDb : r'.config.patternDb = r.config.patternDb
  seed : T.seed r' = T.seed r

variable {T : Tools} {rendir : String → Option Bytes} {r r' : PrepRun}
  {s s' : Files ExpFile UInt8} {parseRule : Text → Option Rule} {keeps : String → Bytes → Bool}

theorem SamePatterns.enabled (h : SamePatterns T r r') (k : PatternKind) :
    T.enabled r'.config k = T.enabled r.config k := by
  unfold Tools.enabled
  cases k with
  | contents => rw [Tools.useKw, Tools.useKw, h.contentKw]
  | pcres => rw [Tools.useKw, Tools.useKw, h.pcreKw]

theorem SamePatterns.filtersLength (h : SamePatterns T r r') :
    T.filtersLength r'.config = T.filtersLength r.config := by
  rw [Tools.filtersLength, Tools.filtersLength, h.patlen]

/-- What is collected depends on what the two runs have in common. -/
theorem SamePatterns.ownPatterns (h : SamePatterns T r r') (rendir : String → Option Bytes) :
    Autotest.ownPatterns T rendir r' = Autotest.ownPatterns T rendir r := by
  have hsampled : sampled T rendir r' = sampled T rendir r := by
    rw [sampled, sampled, h.patternDb, h.nRules, h.seed]
  have hkind : ∀ k, enabledPatterns T rendir r' k = enabledPatterns T rendir r k := by
    intro k
    rw [enabledPatterns, enabledPatterns, h.enabled, patternsOf, patternsOf, hsampled,
      h.filtersLength, h.patlen]
  rw [Autotest.ownPatterns, Autotest.ownPatterns, hkind, hkind]

/-! ## The patterns that are collected -/

/-- Of the extracted patterns `ls` of a kind a run collects `es`: each of the long ones once, if the
kind is enabled. -/
structure Collects (T : Tools) (keeps : String → Bytes → Bool) (r : PrepRun) (k : PatternKind)
    (ls es : List Text) : Prop where
  nodup : es.Nodup
  mem_iff : ∀ e, e ∈ es ↔ T.enabled r.config k = true ∧ e ∈ ls ∧
    keeps r.config.rulesPatlenGreaterthan.toText (Utf8.encode e) = true

/-- Sorting, `uniq` and `grep` leave each long line once. -/
theorem exists_collects (hT : T.Documented keeps) (hlen : T.filtersLength r.config = true)
    {rules : Bytes} (hsampled : sampled T rendir r = some rules) {k : PatternKind} {ls : List Text}
    (hlines : ∀ l ∈ ls, Csv.IsLine l) (hextract : T.extract k rules = some (Data.writeLines ls)) :
    ∃ es, enabledPatterns T rendir r k = some (Utf8.unlines (es.map Utf8.encode)) ∧
      Collects T keeps r k ls es := by
  unfold enabledPatterns
  split
  · rename_i henabled
    have hfeeds : ∀ b ∈ (Data.printedLines ls).map Utf8.encode, 10 ∉ b := by
      intro b hb
      obtain ⟨l, hl, rfl⟩ := List.mem_map.mp hb
      exact Utf8.lineFeed_not_mem_encode
        (Data.forall_mem_printedLines ⟨List.not_mem_nil, List.not_mem_nil⟩ hlines l hl)
    obtain ⟨sorted, hsorted, hnodup, hmem⟩ := hT.sortUniq_lines _ hfeeds
    have hgrep := hT.grepLonger_lines r.config.rulesPatlenGreaterthan.toText sorted
      fun l hl => hfeeds l ((hmem l).mp hl)
    -- every line that is kept is the bytes of a text
    obtain ⟨es, hes⟩ : sorted.filter (keeps r.config.rulesPatlenGreaterthan.toText) ∈
        Set.range (List.map Utf8.encode) := by
      rw [Set.range_list_map]
      intro b hb
      obtain ⟨l, -, hl⟩ := List.mem_map.mp ((hmem b).mp (List.mem_of_mem_filter hb))
      exact ⟨l, hl⟩
    refine ⟨es, ?_, ?_, fun e => ?_⟩
    · rw [patternsOf, hsampled, Option.bind_some, hextract, Option.map_some, if_pos hlen,
        Data.writeLines_eq, Utf8.encode_unlines, hsorted, hgrep, hes]
    · refine List.Nodup.of_map Utf8.encode ?_
      rw [hes]
      exact hnodup.filter _
    · rw [← List.mem_map_of_injective Utf8.encode_injective, hes, List.mem_filter, hmem,
        List.mem_map_of_injective Utf8.encode_injective]
      unfold Data.printedLines
      split
      · rename_i hnil
        have hshort := hT.keeps_nil r.config.rulesPatlenGreaterthan (of_decide_eq_true hlen)
        rw [hnil, List.mem_singleton]
        constructor
        · intro hkept
          rw [hkept.1, Utf8.encode_nil, hshort] at hkept
          exact absurd hkept.2 Bool.false_ne_true
        · exact fun he => absurd he.2.1 List.not_mem_nil
      · exact ⟨fun he => ⟨henabled, he⟩, fun he => he.2⟩
  · rename_i hdisabled
    exact ⟨[], rfl, List.nodup_nil, fun e => ⟨fun he => absurd he List.not_mem_nil,
      fun he => absurd he.1 hdisabled⟩⟩

/-! ## The runs -/

/-- A run for Hyperscan exports the pattern file. -/
theorem afterRun_currentHyperscan (hrgx : T.int r.config.rgxEnabled ≠ 1)
    (hhs : T.int r.config.hsEnabled = 1) (hany : SomeEnabled T r)
    (hlen : T.filtersLength r.config = true) {patterns exported : Bytes}
    (hown : ownPatterns T rendir r = some patterns)
    (hexport : T.toHyperscan patterns = some exported) :
    afterRun T rendir r s .currentHyperscan = some exported := by
  have hregexes : afterPatterns T rendir r s .regexes = some patterns := by
    rw [afterPatterns_regexes hown hany, shares_of_filters hlen hown]
  rw [afterRun, prepRules, Script.run_andThen, exits_eq_false hany, if_neg Bool.false_ne_true,
    Script.run_andThen, engineScript, if_neg hrgx, if_pos hhs]
  show (Script.acts [.tool .regexes .currentHyperscan T.toHyperscan]).run
    (afterPatterns T rendir r s) .currentHyperscan = some exported
  simp [Script.acts, Script.run, Command.exec, hregexes, hexport]

/-- What the RXP compiler is given of a file of numbered patterns: the file in subsets, if there is
a ratio. -/
def compilerInput (T : Tools) (r : PrepRun) (numbered : Bytes) : Option Bytes :=
  match r.config.ruleSubsetRatio with
  | some ratio => T.rulesToSubsets ratio.toText numbered
  | none => some numbered

/-- A run for the regex device leaves the input of the compiler. -/
theorem afterRun_rxpc (hrgx : T.int r.config.rgxEnabled = 1) (hany : SomeEnabled T r)
    (hlen : T.filtersLength r.config = true) {patterns : Bytes}
    (hown : ownPatterns T rendir r = some patterns) :
    afterRun T rendir r s .rxpc = compilerInput T r (T.number patterns) := by
  have hregexes : afterPatterns T rendir r s .regexes = some patterns := by
    rw [afterPatterns_regexes hown hany, shares_of_filters hlen hown]
  have hcompile : ∀ u, (compileScript T r).run u .rxpc = u .rxpc := fun u =>
    Script.run_eq_of_untouched _ u (by
      simp [compileScript, Script.touched, Script.acts, Command.touched])
  rw [afterRun_eq hrgx hany, run_workingSet_of_ne (by simp), hcompile]
  exact run_rxpcCommands hregexes

/-- The lines `number,pattern`. -/
def numberedLines (es : List Text) : List Text :=
  es.mapIdx fun i e => Text.decimal (i + 1) ++ ',' :: e

/-- `awk` numbers the lines from 1 on. -/
theorem number_unlines (hT : T.Documented keeps) {es : List Text} (hes : ∀ e ∈ es, Csv.IsLine e) :
    T.number (Utf8.unlines (es.map Utf8.encode)) =
      Utf8.encode (Csv.unlines (numberedLines es)) := by
  have hfeeds : ∀ b ∈ es.map Utf8.encode, 10 ∉ b := by
    intro b hb
    obtain ⟨e, he, rfl⟩ := List.mem_map.mp hb
    exact Utf8.lineFeed_not_mem_encode (hes e he)
  rw [hT.number_lines _ hfeeds, Utf8.encode_unlines, numberedLines]
  congr 1
  apply List.ext_getElem
  · rw [List.length_mapIdx, List.length_map, List.length_map, List.length_mapIdx]
  intro i hi hi'
  rw [List.getElem_mapIdx, List.getElem_map, List.getElem_map, List.getElem_mapIdx]
  rw [← Utf8.encode_append, List.append_assoc]
  rfl

/-! ## The two engines -/

/-- One value for each kind of patterns. -/
def byKind {α : Type} (contents pcres : α) : PatternKind → α
  | .contents => contents
  | .pcres => pcres

/-- What Hyperscan is given of the contents and of the pcres that were collected. -/
def hyperscanPatterns (contents pcres : List Text) : List Text :=
  contents.filter notBlank ++ ((pcres.filter notBlank).map fixedPattern).filter fun l => l ≠ []

/-- A sample of rules that the sampler's commands can read, and what they extract. The hexadecimal
blocks of the contents hold digits and blanks. -/
structure ReadableSample (parseRule : Text → Option Rule) (rules : Bytes) where
  file : Text
  decoded : Utf8.decode rules = some file
  no_nul : Char.ofNat 0 ∉ file
  extracted : PatternKind → List Text
  contents : Data.extractContentStrings parseRule (Csv.readlines file) = .ok (extracted .contents)
  pcres : Data.extractPcres parseRule false (Csv.readlines file) = .ok (extracted .pcres)
  blocks : ∀ e ∈ extracted .contents, ∃ content : Data.ContentString,
    e = Data.suricataContentToRegex content.text
  count : (extracted .contents).length + (extracted .pcres).length < 2 ^ 32

theorem ReadableSample.extract {rules : Bytes} (sample : ReadableSample parseRule rules)
    (hsampler : T.OfSampler parseRule) (k : PatternKind) :
    T.extract k rules = some (Data.writeLines (sample.extracted k)) := by
  cases k with
  | contents =>
    rw [hsampler.contents]
    exact Data.command_of_decode sample.decoded sample.contents
  | pcres =>
    rw [hsampler.pcres]
    exact Data.command_of_decode sample.decoded sample.pcres

/-- The extracted patterns are lines without NUL. -/
theorem ReadableSample.line {rules : Bytes} (sample : ReadableSample parseRule rules)
    (hvalues : Data.ValuesOfLines parseRule) {k : PatternKind} {e : Text}
    (he : e ∈ sample.extracted k) : Csv.IsLine e ∧ Char.ofNat 0 ∉ e := by
  have hchar : ∀ c ∈ e, c = '\\' ∨ c = 'x' ∨ c ∈ sample.file ∧ c ≠ '\n' ∧ c ≠ '\r' := by
    intro c hc
    cases k with
    | contents => exact Data.mem_of_mem_extractContentStrings hvalues sample.contents he hc
    | pcres => exact Or.inr (Or.inr (Data.mem_of_mem_extractPcres hvalues sample.pcres he hc))
  refine ⟨⟨fun hc => ?_, fun hc => ?_⟩, fun hc => ?_⟩
  · rcases hchar _ hc with h | h | h
    · exact absurd h (by decide)
    · exact absurd h (by decide)
    · exact h.2.1 rfl
  · rcases hchar _ hc with h | h | h
    · exact absurd h (by decide)
    · exact absurd h (by decide)
    · exact h.2.2 rfl
  · rcases hchar _ hc with h | h | h
    · exact absurd h (by decide)
    · exact absurd h (by decide)
    · exact sample.no_nul h.1

/-- A kind is collected as some of the extracted patterns, none of them twice. -/
theorem Collects.length_le {k : PatternKind} {ls es : List Text} (h : Collects T keeps r k ls es) :
    es.length ≤ ls.length :=
  (h.nodup.subperm fun e he => ((h.mem_iff e).mp he).2.1).length_le

/-- The contents reach Hyperscan as they are. -/
theorem map_fixedPattern_contents {rules : Bytes} (sample : ReadableSample parseRule rules)
    {cs : List Text} (h : ∀ e ∈ cs, e ∈ sample.extracted .contents) :
    cs.map fixedPattern = cs := by
  refine (List.map_congr_left fun e he => ?_).trans (List.map_id cs)
  obtain ⟨content, rfl⟩ := sample.blocks e (h e he)
  exact content.fixedPattern_regex

/-- **The engines are given the same patterns.** Take two runs of `prep_rules.sh` that collect the
same patterns, one for the regex device and one for Hyperscan, each in a directory with any
leftovers. There are lists of contents and of pcres, each of the long extracted ones once, such that
the input of the RXP compiler has a numbered line for each of them and the table of Hyperscan an
entry for each that is not blank, in the same order: the contents as they are, the pcres as
`to_hyperscan` exports them, without delimiters and with its escapes in the character groups. -/
theorem engines_samePatterns (hT : T.Documented keeps) (hsampler : T.OfSampler parseRule)
    (hvalues : Data.ValuesOfLines parseRule) (hsame : SamePatterns T r r')
    (hrgx : T.int r.config.rgxEnabled = 1) (hhs : T.int r'.config.rgxEnabled ≠ 1)
    (hhs' : T.int r'.config.hsEnabled = 1) (hany : SomeEnabled T r)
    (hlen : T.filtersLength r.config = true) {rules : Bytes}
    (hsampled : sampled T rendir r = some rules) (sample : ReadableSample parseRule rules)
    (exprFlags : UInt32) :
    ∃ own : PatternKind → List Text,
      (∀ k, Collects T keeps r k (sample.extracted k) (own k)) ∧
      afterRun T rendir r s .rxpc = compilerInput T r
        (Utf8.encode (Csv.unlines (numberedLines (own .contents ++ own .pcres)))) ∧
      ∃ exported pass, afterRun T rendir r' s' .currentHyperscan = some exported ∧
        fillTable exported exprFlags = .compile pass ∧
        pass.table.expressions.take pass.expressionCount.toNat =
          (hyperscanPatterns (own .contents) (own .pcres)).map fun l => some (Utf8.encode l) := by
  obtain ⟨cs, hcs, hcollects⟩ := exists_collects hT hlen hsampled
    (fun l hl => (sample.line hvalues hl).1) (sample.extract hsampler .contents)
  obtain ⟨ps, hps, hcollects'⟩ := exists_collects hT hlen hsampled
    (fun l hl => (sample.line hvalues hl).1) (sample.extract hsampler .pcres)
  have hown : ownPatterns T rendir r = some (Utf8.unlines ((cs ++ ps).map Utf8.encode)) := by
    rw [ownPatterns, hcs, hps, Option.bind_some, Option.map_some, List.map_append,
      Utf8.unlines_append]
  have hcontents : ∀ e ∈ cs, e ∈ sample.extracted .contents := fun e he =>
    ((hcollects.mem_iff e).mp he).2.1
  have hline : ∀ e ∈ cs ++ ps, Csv.IsLine e ∧ Char.ofNat 0 ∉ e := by
    intro e he
    rcases List.mem_append.mp he with he | he
    · exact sample.line hvalues (hcontents e he)
    · exact sample.line hvalues ((hcollects'.mem_iff e).mp he).2.1
  refine ⟨byKind cs ps, fun k => ?_, ?_, ?_⟩
  · cases k with
    | contents => exact hcollects
    | pcres => exact hcollects'
  · rw [afterRun_rxpc hrgx hany hlen hown, number_unlines hT fun e he => (hline e he).1]
    rfl
  · -- the run for Hyperscan has the same pattern file
    have hexport : T.toHyperscan (Utf8.unlines ((cs ++ ps).map Utf8.encode)) =
        some (Data.writeLines (((cs ++ ps).filter notBlank).map fixedPattern)) := by
      rw [hsampler.toHyperscan, ← Utf8.encode_unlines]
      exact Data.toHyperscanCommand_unlines fun e he => (hline e he).1
    have hany' : SomeEnabled T r' := by
      rw [SomeEnabled, hsame.enabled, hsame.enabled]
      exact hany
    have hfinal := afterRun_currentHyperscan (s := s') hhs hhs' hany'
      (hsame.filtersLength.trans hlen) ((hsame.ownPatterns rendir).trans hown) hexport
    have hexported : ∀ l ∈ ((cs ++ ps).filter notBlank).map fixedPattern,
        Csv.IsLine l ∧ Char.ofNat 0 ∉ l := by
      intro l hl
      obtain ⟨e, he, rfl⟩ := List.mem_map.mp hl
      obtain ⟨hisLine, hnul⟩ := hline e (List.mem_of_mem_filter he)
      exact ⟨Data.isLine_fixedPattern hisLine,
        fun hc => (Data.mem_fixedPattern hc).elim hnul (by decide)⟩
    have hcount : (((cs ++ ps).filter notBlank).map fixedPattern).length < 2 ^ 32 := by
      have hfilter := List.length_filter_le notBlank (cs ++ ps)
      have hle := hcollects.length_le
      have hle' := hcollects'.length_le
      have hbound := sample.count
      rw [List.length_append] at hfilter
      rw [List.length_map]
      omega
    obtain ⟨pass, hpass, htable⟩ := RegexTest.fillTable_writeLines
      (fun l hl => (hexported l hl).1) (fun l hl => (hexported l hl).2) hcount exprFlags
    refine ⟨_, pass, hfinal, hpass, ?_⟩
    rw [htable]
    congr 1
    show _ = hyperscanPatterns cs ps
    rw [hyperscanPatterns, List.filter_append, List.map_append, List.filter_append,
      map_fixedPattern_contents sample fun e he => hcontents e (List.mem_of_mem_filter he)]
    congr 1
    -- a pattern that is not blank is not empty
    rw [List.filter_eq_self]
    intro e he
    refine decide_eq_true fun hnil => ?_
    have hblank := (List.mem_filter.mp he).2
    rw [hnil] at hblank
    exact absurd hblank (by decide)

/-! ## Two runs -/

/-- A rule with a content and a pcre. -/
def ruleLine : Text :=
  "alert tcp any any -> any any (content:\"abcdef\"; pcre:\"/ab.de/i\"; sid:1;)".toList

/-- What the parser reads in it. -/
def readRule : Rule :=
  ⟨[⟨"content".toList, "\"abcdef\"".toList⟩, ⟨"pcre".toList, "\"/ab.de/i\"".toList⟩,
    ⟨"sid".toList, ['1']⟩]⟩

/-- The parser on this line. -/
def ruleParser (l : Text) : Option Rule :=
  if l = ruleLine then some readRule else none

/-- The lines that are not shorter than `n`. -/
def keepsLong (n : String) (b : Bytes) : Bool :=
  b ≠ [] ∧ (Text.readInt n.toList).getD 0 ≤ b.length

/-- The lines of a file. -/
def lineTool (f : List Bytes → List Bytes) (file : Bytes) : Bytes :=
  Utf8.unlines (f (file.splitOn 10).dropLast)

/-- Tools of which a sample is its database. -/
def lineTools : Tools where
  jinjaInt := fun s => (Text.readInt s.toList).getD 0
  sample := fun db _ _ => some db
  extract := byKind (Data.extractContentCommand ruleParser) (Data.extractPcresCommand ruleParser)
  sortUniq := lineTool List.dedup
  grepLonger := fun n => lineTool (List.filter (keepsLong n))
  number := lineTool fun ls =>
    ls.mapIdx fun i l => Utf8.encode (Text.decimal (i + 1) ++ [',']) ++ l
  rulesToSubsets := fun _ patterns => some patterns
  rxpc := some
  toHyperscan := Data.toHyperscanCommand ruleParser

theorem lineTool_unlines (f : List Bytes → List Bytes) {ls : List Bytes} (h : ∀ l ∈ ls, 10 ∉ l) :
    lineTool f (Utf8.unlines ls) = Utf8.unlines (f ls) := by
  rw [lineTool, RegexTest.splitOn_unlines h, List.dropLast_concat]

theorem documented_lineTools : lineTools.Documented keepsLong where
  sortUniq_lines ls h :=
    ⟨ls.dedup, lineTool_unlines _ h, List.nodup_dedup ls, fun _ => List.mem_dedup⟩
  grepLonger_lines _ _ h := lineTool_unlines _ h
  keeps_nil _ _ := rfl
  number_lines _ h := lineTool_unlines _ h

theorem valuesOfLines_ruleParser : Data.ValuesOfLines ruleParser := by
  intro l r hr
  obtain ⟨hl, hrule⟩ := Option.ite_none_right_eq_some.1 hr
  rw [hl, ← Option.some.inj hrule]
  intro o ho c hc
  have hall : (readRule.options.all fun o => o.value.all ruleLine.elem) = true := by decide +kernel
  exact List.elem_iff.1 (List.all_eq_true.1 (List.all_eq_true.1 hall o ho) c hc)

/-- What can be read of a database with this rule. -/
def readableRule : ReadableSample ruleParser (Utf8.encode (ruleLine ++ ['\n'])) where
  file := ruleLine ++ ['\n']
  decoded := Utf8.decode_encode _
  no_nul := by decide +kernel
  extracted := byKind ["abcdef".toList] ["/ab.de/i".toList]
  contents := by rfl
  pcres := by rfl
  blocks := by
    intro e he
    refine ⟨⟨"abcdef".toList, ⟨by decide, by decide⟩, fun h => (by cases h), trivial⟩, ?_⟩
    rw [List.mem_singleton.mp he]
    decide +kernel
  count := by decide

/-- A run that collects both kinds of patterns of the rule. -/
def ruleRun (rgxEnabled hsEnabled : String) : PrepRun where
  config := { rxpConfig "a.rules" with
    rulesUsePcreKw := .str "1"
    rgxEnabled := .str rgxEnabled
    hsEnabled := .str hsEnabled }
  entropy := 0

/-- The two engines after a run for each of them. -/
theorem engines_samePatterns_oneRule :
    ∃ own : PatternKind → List Text,
      (∀ k, Collects lineTools keepsLong (ruleRun "1" "0") k (readableRule.extracted k) (own k)) ∧
      afterRun lineTools (fun _ => some (Utf8.encode (ruleLine ++ ['\n']))) (ruleRun "1" "0")
          Files.empty .rxpc =
        some (Utf8.encode (Csv.unlines (numberedLines (own .contents ++ own .pcres)))) ∧
      ∃ exported pass, afterRun lineTools (fun _ => some (Utf8.encode (ruleLine ++ ['\n'])))
          (ruleRun "0" "1") Files.empty .currentHyperscan = some exported ∧
        fillTable exported 0 = .compile pass ∧
        pass.table.expressions.take pass.expressionCount.toNat =
          (hyperscanPatterns (own .contents) (own .pcres)).map fun l => some (Utf8.encode l) := by
  have hsame : SamePatterns lineTools (ruleRun "1" "0") (ruleRun "0" "1") :=
    ⟨rfl, rfl, rfl, rfl, rfl, rfl⟩
  exact engines_samePatterns documented_lineTools ⟨rfl, rfl, rfl⟩ valuesOfLines_ruleParser hsame
    (by decide) (by decide) (by decide) (Or.inl (by decide)) (by decide) rfl readableRule 0

end Autotest
end PamoRxpBench
