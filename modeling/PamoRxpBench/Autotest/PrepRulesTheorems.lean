import PamoRxpBench.Autotest.PrepRules
import Mathlib.Data.List.Induction

/-!
# What `prep_rules.sh` leaves behind

The pattern file after a run is the concatenation of what each enabled kind contributes
(`run_regexes`), and the binary is the cached one if there is one under the identifier, else
the compilation of the pattern file (`run_current_of_cached`, `run_current_of_compiled`). So a
run leaves what it would have left in an empty directory, its own patterns and their
compilation, exactly when the patterns were filtered by length in this run (or there are none,
and none were left over) and the cache holds nothing else under its identifier
(`historyIndependent_iff_findsNothingStale`).
-/

namespace PamoRxpBench
namespace Autotest

open Shell

/-! ## The patterns and the binary of a run -/

section Own

variable (T : Tools) (rendir : String → Option Bytes) (r : PrepRun)

/-- The patterns of a kind in the rule sample: sorted, without repetitions, and only the long
ones if the run filters by length. -/
def patternsOf (k : PatternKind) : Option Bytes :=
  (sampled T rendir r).bind fun rules => (T.extract k rules).map fun patterns =>
    if T.filtersLength r.config then
      T.grepLonger r.config.rulesPatlenGreaterthan.toText (T.sortUniq patterns)
    else T.sortUniq patterns

/-- The patterns of the kind, if it is enabled. -/
def enabledPatterns (k : PatternKind) : Option Bytes :=
  if T.enabled r.config k then patternsOf T rendir r k else some []

/-- The patterns of the run's own rule sample. -/
def ownPatterns : Option Bytes :=
  (enabledPatterns T rendir r .contents).bind fun contents =>
    (enabledPatterns T rendir r .pcres).map fun pcres => contents ++ pcres

/-- The compilation of some patterns. -/
def compiled (patterns : Bytes) : Option Bytes :=
  (match r.config.ruleSubsetRatio with
    | some ratio => T.rulesToSubsets ratio.toText (T.number patterns)
    | none => some (T.number patterns)).bind T.rxpc

/-- The directory after the run. -/
def afterRun (s : Files ExpFile UInt8) : Files ExpFile UInt8 := (prepRules T rendir r).run s

end Own

variable {T : Tools} {rendir : String → Option Bytes} {r : PrepRun} {s : Files ExpFile UInt8}

/-! ## The sample -/

/-- The directory after the sample was taken and the leftovers deleted. -/
def afterSample (T : Tools) (rendir : String → Option Bytes) (r : PrepRun)
    (s : Files ExpFile UInt8) : Files ExpFile UInt8 :=
  (Script.acts (sampleCommands T rendir r)).run s

theorem afterSample_regexes : afterSample T rendir r s .regexes = none := by
  simp [afterSample, sampleCommands, Script.acts, Script.run, Command.exec]

theorem afterSample_rules {rules : Bytes} (h : sampled T rendir r = some rules) :
    afterSample T rendir r s (.rules (currId r.config)) = some rules := by
  simp [afterSample, sampleCommands, Script.acts, Script.run, Command.exec, h]

/-- The sample leaves the files of the patterns and of the binaries alone. -/
theorem afterSample_of_untouched {f : ExpFile} (hdb : ∀ n, f ≠ .db n) (hrules : ∀ i, f ≠ .rules i)
    (hregexes : f ≠ .regexes) : afterSample T rendir r s f = s f := by
  refine Script.run_acts_of_untouched _ s fun c hc => ?_
  simp only [sampleCommands, List.mem_cons, List.not_mem_nil, or_false] at hc
  rcases hc with rfl | rfl | rfl
  · simpa [Command.touched] using hdb _
  · simpa [Command.touched] using hrules _
  · simpa [Command.touched] using hregexes

/-! ## The patterns -/

/-- What a kind contributes to the pattern file: its patterns if they are filtered by length,
else whatever the file `.contents` or `.pcres` held before. -/
def contribution (T : Tools) (rendir : String → Option Bytes) (r : PrepRun)
    (s : Files ExpFile UInt8) (k : PatternKind) : Bytes :=
  if T.filtersLength r.config then (patternsOf T rendir r k).getD [] else s.text (.uniq k)

/-- The files extracting the patterns of a kind touches. -/
theorem run_extractCommands_of_untouched {k : PatternKind} {f : ExpFile}
    (hextracted : f ≠ .extracted k (currId r.config)) (htmp : f ≠ .tmp k) (huniq : f ≠ .uniq k)
    (hregexes : f ≠ .regexes) : (Script.acts (extractCommands T r k)).run s f = s f := by
  refine Script.run_acts_of_untouched _ s fun c hc => ?_
  simp only [extractCommands] at hc
  split at hc <;> simp only [List.mem_append, List.mem_cons, List.not_mem_nil, or_false] at hc
  · rcases hc with ((rfl | rfl) | rfl) | rfl
    · simpa [Command.touched] using hextracted
    · simpa [Command.touched] using htmp
    · simpa [Command.touched] using huniq
    · simpa [Command.touched] using hregexes
  · rcases hc with (rfl | rfl) | rfl
    · simpa [Command.touched] using hextracted
    · simpa [Command.touched] using htmp
    · simpa [Command.touched] using hregexes

/-- Extracting the patterns of a kind appends its contribution to the pattern file. -/
theorem run_extractCommands_regexes {k : PatternKind} {rules patterns : Bytes}
    (hrules : s (.rules (currId r.config)) = some rules)
    (hsampled : sampled T rendir r = some rules) (hpatterns : T.extract k rules = some patterns) :
    (Script.acts (extractCommands T r k)).run s .regexes
      = some (s.text .regexes ++ contribution T rendir r s k) := by
  have hown : patternsOf T rendir r k = some (if T.filtersLength r.config then
      T.grepLonger r.config.rulesPatlenGreaterthan.toText (T.sortUniq patterns)
      else T.sortUniq patterns) := by
    rw [patternsOf, hsampled, Option.bind_some, hpatterns, Option.map_some]
  unfold contribution
  rw [hown]
  by_cases hlen : T.filtersLength r.config = true
  · simp [extractCommands, hlen, Script.acts, Script.run, Command.exec, hrules, hpatterns,
      Files.text, Files.write]
  · simp [extractCommands, hlen, Script.acts, Script.run, Command.exec, hrules, hpatterns,
      Files.text, Files.write]

/-- The part of the pattern file that a kind is responsible for. -/
def share (T : Tools) (rendir : String → Option Bytes) (r : PrepRun) (s : Files ExpFile UInt8)
    (k : PatternKind) : Bytes :=
  if T.enabled r.config k then contribution T rendir r s k else []

theorem contribution_congr {s s' : Files ExpFile UInt8} {k : PatternKind}
    (h : s' (.uniq k) = s (.uniq k)) :
    contribution T rendir r s' k = contribution T rendir r s k := by
  rw [contribution, contribution, Files.text, Files.text, h]

theorem share_congr {s s' : Files ExpFile UInt8} {k : PatternKind}
    (h : s' (.uniq k) = s (.uniq k)) : share T rendir r s' k = share T rendir r s k := by
  rw [share, share, contribution_congr h]

/-- The commands that collect the patterns of a kind. -/
def kindCommands (T : Tools) (r : PrepRun) (k : PatternKind) : List (Command ExpFile UInt8) :=
  if T.enabled r.config k then extractCommands T r k else []

theorem run_kindCommands_of_untouched {k : PatternKind} {f : ExpFile}
    (hextracted : f ≠ .extracted k (currId r.config)) (htmp : f ≠ .tmp k) (huniq : f ≠ .uniq k)
    (hregexes : f ≠ .regexes) : (Script.acts (kindCommands T r k)).run s f = s f := by
  unfold kindCommands
  split
  · exact run_extractCommands_of_untouched hextracted htmp huniq hregexes
  · rfl

/-- The patterns of an enabled kind exist: the sample and the extraction succeed. -/
theorem exists_extract {k : PatternKind} {own : Bytes} (hk : T.enabled r.config k = true)
    (h : enabledPatterns T rendir r k = some own) :
    ∃ rules patterns, sampled T rendir r = some rules ∧ T.extract k rules = some patterns := by
  rw [enabledPatterns, if_pos hk, patternsOf] at h
  obtain ⟨rules, hrules, hmap⟩ := Option.bind_eq_some_iff.mp h
  obtain ⟨patterns, hpatterns, -⟩ := Option.map_eq_some_iff.mp hmap
  exact ⟨rules, patterns, hrules, hpatterns⟩

/-- Collecting the patterns of a kind appends its share; the file is there if it was there
or the kind is enabled. -/
theorem run_kindCommands_regexes {k : PatternKind} {own : Bytes}
    (hrules : s (.rules (currId r.config)) = sampled T rendir r)
    (h : enabledPatterns T rendir r k = some own) :
    (Script.acts (kindCommands T r k)).run s .regexes
      = if T.enabled r.config k then some (s.text .regexes ++ share T rendir r s k)
        else s .regexes := by
  unfold kindCommands share
  by_cases hk : T.enabled r.config k = true
  · obtain ⟨rules, patterns, hsampled, hpatterns⟩ := exists_extract hk h
    simp only [hk, if_true]
    exact run_extractCommands_regexes (hrules.trans hsampled) hsampled hpatterns
  · simp only [hk, Bool.false_eq_true, if_false]
    rfl

theorem patternCommands_eq (T : Tools) (r : PrepRun) :
    patternCommands T r = kindCommands T r .contents ++ kindCommands T r .pcres := rfl

/-- The directory when the patterns have been collected. -/
def afterPatterns (T : Tools) (rendir : String → Option Bytes) (r : PrepRun)
    (s : Files ExpFile UInt8) : Files ExpFile UInt8 :=
  (Script.acts (patternCommands T r)).run (afterSample T rendir r s)

/-- Collecting the patterns leaves the binaries alone. -/
theorem afterPatterns_of_untouched {f : ExpFile} (hextracted : ∀ k i, f ≠ .extracted k i)
    (htmp : ∀ k, f ≠ .tmp k) (huniq : ∀ k, f ≠ .uniq k) (hdb : ∀ n, f ≠ .db n)
    (hrules : ∀ i, f ≠ .rules i) (hregexes : f ≠ .regexes) :
    afterPatterns T rendir r s f = s f := by
  rw [afterPatterns, patternCommands_eq, Script.run_acts_append,
    run_kindCommands_of_untouched (hextracted _ _) (htmp _) (huniq _) hregexes,
    run_kindCommands_of_untouched (hextracted _ _) (htmp _) (huniq _) hregexes,
    afterSample_of_untouched hdb hrules hregexes]

/-- Either kind is extracted from the sample, so the sample is there. -/
theorem exists_sampled {own : Bytes} (h : ownPatterns T rendir r = some own)
    (hany : T.enabled r.config .contents = true ∨ T.enabled r.config .pcres = true) :
    ∃ rules, sampled T rendir r = some rules := by
  obtain ⟨contents, hcontents, hmap⟩ := Option.bind_eq_some_iff.mp h
  obtain ⟨pcres, hpcres, -⟩ := Option.map_eq_some_iff.mp hmap
  rcases hany with hk | hk
  · obtain ⟨rules, -, hrules, -⟩ := exists_extract hk hcontents
    exact ⟨rules, hrules⟩
  · obtain ⟨rules, -, hrules, -⟩ := exists_extract hk hpcres
    exact ⟨rules, hrules⟩

/-- The directory when the contents have been collected. -/
def afterContents (T : Tools) (rendir : String → Option Bytes) (r : PrepRun)
    (s : Files ExpFile UInt8) : Files ExpFile UInt8 :=
  (Script.acts (kindCommands T r .contents)).run (afterSample T rendir r s)

/-- The contents are appended to a file that was deleted. -/
theorem afterContents_regexes {rules contents : Bytes} (hsampled : sampled T rendir r = some rules)
    (hcontents : enabledPatterns T rendir r .contents = some contents) :
    afterContents T rendir r s .regexes
      = if T.enabled r.config .contents then some (share T rendir r s .contents) else none := by
  have hrules : afterSample T rendir r s (.rules (currId r.config)) = sampled T rendir r := by
    rw [afterSample_rules hsampled, hsampled]
  have hshare : share T rendir r (afterSample T rendir r s) .contents
      = share T rendir r s .contents :=
    share_congr (afterSample_of_untouched (by simp) (by simp) (by simp))
  have htext : (afterSample T rendir r s).text .regexes = [] := by
    rw [Files.text, afterSample_regexes]
    rfl
  rw [afterContents, run_kindCommands_regexes hrules hcontents, hshare, htext, List.nil_append,
    afterSample_regexes]

/-- The pattern file holds the shares of the two kinds, if one of them is enabled. -/
theorem afterPatterns_regexes {own : Bytes} (h : ownPatterns T rendir r = some own)
    (hany : T.enabled r.config .contents = true ∨ T.enabled r.config .pcres = true) :
    afterPatterns T rendir r s .regexes
      = some (share T rendir r s .contents ++ share T rendir r s .pcres) := by
  obtain ⟨contents, hcontents, hmap⟩ := Option.bind_eq_some_iff.mp h
  obtain ⟨pcres, hpcres, -⟩ := Option.map_eq_some_iff.mp hmap
  obtain ⟨rules, hsampled⟩ := exists_sampled h hany
  -- collecting the contents changes neither the sample nor `.pcres`
  have hrules : afterContents T rendir r s (.rules (currId r.config)) = sampled T rendir r := by
    rw [afterContents, run_kindCommands_of_untouched (by simp) (by simp) (by simp) (by simp),
      afterSample_rules hsampled, hsampled]
  have hshare : share T rendir r (afterContents T rendir r s) .pcres
      = share T rendir r s .pcres := by
    refine share_congr ?_
    rw [afterContents, run_kindCommands_of_untouched (by simp) (by simp) (by simp) (by simp),
      afterSample_of_untouched (by simp) (by simp) (by simp)]
  have hregexes := afterContents_regexes (s := s) hsampled hcontents
  rw [afterPatterns, patternCommands_eq, Script.run_acts_append, ← afterContents,
    run_kindCommands_regexes hrules hpcres, Files.text, hregexes, hshare]
  by_cases hk : T.enabled r.config .contents = true
  · by_cases hk' : T.enabled r.config .pcres = true
    · rw [if_pos hk, if_pos hk']
      rfl
    · rw [if_pos hk, if_neg hk', share, share, if_neg hk', List.append_nil]
  · have hk' : T.enabled r.config .pcres = true := hany.resolve_left hk
    rw [if_neg hk, if_pos hk', share, share, if_neg hk]
    rfl

/-- Without an enabled kind there is no pattern file. -/
theorem afterPatterns_regexes_of_none (hcontents : T.enabled r.config .contents = false)
    (hpcres : T.enabled r.config .pcres = false) :
    afterPatterns T rendir r s .regexes = none := by
  rw [afterPatterns, patternCommands_eq, kindCommands, kindCommands, hcontents, hpcres]
  exact afterSample_regexes

/-! ## The binary -/

/-- The input of the compiler is made from the pattern file. -/
theorem run_rxpcCommands {regexes : Bytes} (h : s .regexes = some regexes) :
    (Script.acts (rxpcCommands T r)).run s .rxpc
      = match r.config.ruleSubsetRatio with
        | some ratio => T.rulesToSubsets ratio.toText (T.number regexes)
        | none => some (T.number regexes) := by
  unfold rxpcCommands
  cases r.config.ruleSubsetRatio with
  | none => simp [Script.acts, Script.run, Command.exec, h]
  | some ratio =>
    cases hsub : T.rulesToSubsets ratio.toText (T.number regexes) with
    | none => simp [Script.acts, Script.run, Command.exec, h, hsub, Files.write]
    | some out => simp [Script.acts, Script.run, Command.exec, h, hsub, Files.write]

theorem run_rxpcCommands_of_untouched {f : ExpFile} (hrxpc : f ≠ .rxpc) (horig : f ≠ .rxpcOrig) :
    (Script.acts (rxpcCommands T r)).run s f = s f := by
  refine Script.run_acts_of_untouched _ s fun c hc => ?_
  unfold rxpcCommands at hc
  rcases List.mem_cons.mp hc with rfl | hc
  · simpa [Command.touched] using hrxpc
  · cases hratio : r.config.ruleSubsetRatio with
    | none => simp [hratio] at hc
    | some ratio =>
      simp only [hratio, List.mem_cons, List.not_mem_nil, or_false] at hc
      rcases hc with rfl | rfl
      · simp [Command.touched, hrxpc, horig]
      · simpa [Command.touched] using hrxpc

/-- A cached binary is copied. -/
theorem run_compileScript_of_cached {binary : Bytes}
    (h : s (.precompiled (currId r.config)) = some binary) :
    (compileScript T r).run s .current = some binary := by
  simp [compileScript, Script.run, Script.acts, Command.exec, h]

/-- Without one the compiler's is. -/
theorem run_compileScript_of_compiled {input binary : Bytes}
    (hnone : s (.precompiled (currId r.config)) = none) (hinput : s .rxpc = some input)
    (hbinary : T.rxpc input = some binary) :
    (compileScript T r).run s .current = some binary := by
  simp [compileScript, Script.run, Script.acts, Command.exec, Files.write, hnone, hinput, hbinary]

/-! ## A whole run -/

/-- Some kind of patterns is enabled. -/
def SomeEnabled (T : Tools) (r : PrepRun) : Prop :=
  T.enabled r.config .contents = true ∨ T.enabled r.config .pcres = true

theorem exits_eq_false (hany : SomeEnabled T r) : T.exits r.config = false := by
  rcases hany with h | h
  · have h1 : T.int r.config.rulesUseContentKw = 1 := by simpa [Tools.enabled, Tools.useKw] using h
    simp [Tools.exits, h1]
  · have h1 : T.int r.config.rulesUsePcreKw = 1 := by simpa [Tools.enabled, Tools.useKw] using h
    simp [Tools.exits, h1]

/-- A run of an RXP configuration, in its parts. -/
theorem afterRun_eq (hrgx : T.int r.config.rgxEnabled = 1) (hany : SomeEnabled T r) :
    afterRun T rendir r s
      = (Script.acts [.tool .workingSetUniq .workingSetCompiled T.rxpc]).run
          ((compileScript T r).run
            ((Script.acts (rxpcCommands T r)).run (afterPatterns T rendir r s))) := by
  rw [afterRun, prepRules, Script.run_andThen, exits_eq_false hany, if_neg Bool.false_ne_true,
    Script.run_andThen, engineScript, if_pos hrgx, Script.run_andThen, Script.run_andThen]
  rfl

theorem run_compileScript_regexes : (compileScript T r).run s .regexes = s .regexes :=
  Script.run_eq_of_untouched _ s (by
    simp [compileScript, Script.touched, Script.acts, Command.touched])

theorem run_workingSet_of_ne {f : ExpFile} (h : f ≠ .workingSetCompiled) :
    (Script.acts [.tool .workingSetUniq .workingSetCompiled T.rxpc]).run s f = s f :=
  Script.run_eq_of_untouched _ s (by simpa [Script.touched, Script.acts, Command.touched] using h)

/-- The pattern file a run leaves. -/
theorem afterRun_regexes (hrgx : T.int r.config.rgxEnabled = 1) (hany : SomeEnabled T r)
    {own : Bytes} (hown : ownPatterns T rendir r = some own) :
    afterRun T rendir r s .regexes
      = some (share T rendir r s .contents ++ share T rendir r s .pcres) := by
  rw [afterRun_eq hrgx hany, run_workingSet_of_ne (by simp), run_compileScript_regexes,
    run_rxpcCommands_of_untouched (by simp) (by simp), afterPatterns_regexes hown hany]

/-- Without an enabled kind a run leaves no pattern file. -/
theorem afterRun_regexes_of_not_enabled (hrgx : T.int r.config.rgxEnabled = 1)
    (hany : ¬ SomeEnabled T r) : afterRun T rendir r s .regexes = none := by
  rw [SomeEnabled, not_or, Bool.not_eq_true, Bool.not_eq_true] at hany
  rw [afterRun, prepRules, Script.run_andThen]
  split
  · exact afterSample_regexes
  · rw [Script.run_andThen, engineScript, if_pos hrgx, Script.run_andThen, Script.run_andThen,
      run_workingSet_of_ne (by simp), run_compileScript_regexes,
      run_rxpcCommands_of_untouched (by simp) (by simp)]
    exact afterPatterns_regexes_of_none hany.1 hany.2

theorem run_rxpcCommands_precompiled (i : String) :
    (Script.acts (rxpcCommands T r)).run (afterPatterns T rendir r s) (.precompiled i)
      = s (.precompiled i) := by
  rw [run_rxpcCommands_of_untouched (by simp) (by simp),
    afterPatterns_of_untouched (by simp) (by simp) (by simp) (by simp) (by simp) (by simp)]

/-- With a cached binary a run leaves that. -/
theorem afterRun_current_of_cached (hrgx : T.int r.config.rgxEnabled = 1)
    (hany : SomeEnabled T r) {binary : Bytes}
    (h : s (.precompiled (currId r.config)) = some binary) :
    afterRun T rendir r s .current = some binary := by
  rw [afterRun_eq hrgx hany, run_workingSet_of_ne (by simp)]
  exact run_compileScript_of_cached ((run_rxpcCommands_precompiled _).trans h)

/-- Without one it leaves the compilation of the pattern file. -/
theorem afterRun_current_of_compiled (hrgx : T.int r.config.rgxEnabled = 1)
    (hany : SomeEnabled T r) {regexes binary : Bytes}
    (hregexes : afterPatterns T rendir r s .regexes = some regexes)
    (hbinary : compiled T r regexes = some binary)
    (hnone : s (.precompiled (currId r.config)) = none) :
    afterRun T rendir r s .current = some binary := by
  obtain ⟨input, hinput, hrxpc⟩ := Option.bind_eq_some_iff.mp hbinary
  rw [afterRun_eq hrgx hany, run_workingSet_of_ne (by simp)]
  refine run_compileScript_of_compiled ((run_rxpcCommands_precompiled _).trans hnone) ?_ hrxpc
  rw [run_rxpcCommands hregexes]
  exact hinput

/-! ## Independence of the history -/

/-- The run leaves its own patterns and their compilation, and in an empty directory it would
leave the same. -/
structure HistoryIndependent (T : Tools) (rendir : String → Option Bytes) (s : Files ExpFile UInt8)
    (r : PrepRun) : Prop where
  same_regexes : afterRun T rendir r s .regexes = afterRun T rendir r Files.empty .regexes
  same_binary : afterRun T rendir r s .current = afterRun T rendir r Files.empty .current
  own : ∃ patterns binary, ownPatterns T rendir r = some patterns ∧
    compiled T r patterns = some binary ∧
    afterRun T rendir r Files.empty .regexes = some patterns ∧
    afterRun T rendir r Files.empty .current = some binary

/-- What a run needs of the directory it finds: its patterns are filtered by length, or there
are none and none were left over; and the cache holds nothing but their compilation. -/
structure FindsNothingStale (T : Tools) (rendir : String → Option Bytes) (s : Files ExpFile UInt8)
    (r : PrepRun) (patterns binary : Bytes) : Prop where
  own_patterns : ownPatterns T rendir r = some patterns
  own_binary : compiled T r patterns = some binary
  leftovers : T.filtersLength r.config = true ∨
    patterns = [] ∧ ∀ k, T.enabled r.config k = true → s.text (.uniq k) = []
  cached : ∀ b, s (.precompiled (currId r.config)) = some b → b = binary

/-- With the filter the shares are the run's own patterns. -/
theorem shares_of_filters (hlen : T.filtersLength r.config = true) {patterns : Bytes}
    (h : ownPatterns T rendir r = some patterns) (s : Files ExpFile UInt8) :
    share T rendir r s .contents ++ share T rendir r s .pcres = patterns := by
  have hshare : ∀ {k own}, enabledPatterns T rendir r k = some own →
      share T rendir r s k = own := by
    intro k own hk
    rw [share, contribution, if_pos hlen]
    unfold enabledPatterns at hk
    split at hk
    · rename_i hen
      rw [if_pos hen, hk, Option.getD_some]
    · rename_i hen
      rw [if_neg hen]
      exact Option.some.inj hk
  obtain ⟨contents, hcontents, hmap⟩ := Option.bind_eq_some_iff.mp h
  obtain ⟨pcres, hpcres, rfl⟩ := Option.map_eq_some_iff.mp hmap
  rw [hshare hcontents, hshare hpcres]

/-- Without it they are the leftovers. -/
theorem shares_of_not_filters (hlen : T.filtersLength r.config = false)
    (rendir : String → Option Bytes) (s : Files ExpFile UInt8) :
    share T rendir r s .contents ++ share T rendir r s .pcres = [] ↔
      ∀ k, T.enabled r.config k = true → s.text (.uniq k) = [] := by
  have hshare : ∀ k, share T rendir r s k = [] ↔
      (T.enabled r.config k = true → s.text (.uniq k) = []) := by
    intro k
    rw [share, contribution, hlen, if_neg Bool.false_ne_true]
    by_cases hk : T.enabled r.config k = true <;> simp [hk]
  rw [List.append_eq_nil_iff, hshare, hshare]
  constructor
  · rintro ⟨hcontents, hpcres⟩ k
    cases k
    · exact hcontents
    · exact hpcres
  · exact fun h => ⟨h .contents, h .pcres⟩

/-- A run that finds nothing stale leaves its own patterns and their compilation. -/
theorem FindsNothingStale.afterRun (hrgx : T.int r.config.rgxEnabled = 1)
    (hany : SomeEnabled T r) {patterns binary : Bytes}
    (h : FindsNothingStale T rendir s r patterns binary) :
    Autotest.afterRun T rendir r s .regexes = some patterns ∧
      Autotest.afterRun T rendir r s .current = some binary := by
  have hshares : share T rendir r s .contents ++ share T rendir r s .pcres = patterns := by
    rcases Bool.eq_false_or_eq_true (T.filtersLength r.config) with hlen | hlen
    · exact shares_of_filters hlen h.own_patterns s
    · rcases h.leftovers with hlen' | ⟨hnil, hleft⟩
      · rw [hlen] at hlen'
        cases hlen'
      · rw [hnil]
        exact (shares_of_not_filters hlen rendir s).mpr hleft
  refine ⟨by rw [afterRun_regexes hrgx hany h.own_patterns, hshares], ?_⟩
  cases hcache : s (.precompiled (currId r.config)) with
  | some b => rw [afterRun_current_of_cached hrgx hany hcache, h.cached b hcache]
  | none =>
    refine afterRun_current_of_compiled hrgx hany ?_ h.own_binary hcache
    rw [afterPatterns_regexes h.own_patterns hany, hshares]

/-- A run is independent of the directory it finds iff some kind of patterns is enabled and the
directory holds nothing stale. -/
theorem historyIndependent_iff_findsNothingStale (hrgx : T.int r.config.rgxEnabled = 1) :
    HistoryIndependent T rendir s r ↔
      SomeEnabled T r ∧ ∃ patterns binary, FindsNothingStale T rendir s r patterns binary := by
  constructor
  · rintro ⟨hregexes, hbinary, patterns, binary, hown, hcompiled, hfresh, hcurrent⟩
    -- a run without patterns has no pattern file, even in an empty directory
    have hany : SomeEnabled T r := by
      by_contra hnone
      rw [afterRun_regexes_of_not_enabled hrgx hnone] at hfresh
      cases hfresh
    refine ⟨hany, patterns, binary, hown, hcompiled, ?_, fun b hb => ?_⟩
    · rcases Bool.eq_false_or_eq_true (T.filtersLength r.config) with hlen | hlen
      · exact Or.inl hlen
      · -- in an empty directory there are no leftovers, so the run has no patterns
        have hnil : patterns = [] := by
          rw [afterRun_regexes hrgx hany hown] at hfresh
          rw [← Option.some.inj hfresh]
          exact (shares_of_not_filters hlen rendir Files.empty).mpr fun _ _ => rfl
        refine Or.inr ⟨hnil, (shares_of_not_filters hlen rendir s).mp ?_⟩
        rw [hfresh, afterRun_regexes hrgx hany hown] at hregexes
        rw [Option.some.inj hregexes, hnil]
    · rw [hcurrent, afterRun_current_of_cached hrgx hany hb] at hbinary
      exact Option.some.inj hbinary
  · rintro ⟨hany, patterns, binary, h⟩
    -- an empty directory holds nothing stale either, so both runs leave the same
    have hfresh : FindsNothingStale T rendir Files.empty r patterns binary :=
      ⟨h.own_patterns, h.own_binary, h.leftovers.imp_right fun hl => ⟨hl.1, fun _ _ => rfl⟩,
        fun b hb => by cases hb⟩
    obtain ⟨hregexes, hcurrent⟩ := h.afterRun hrgx hany
    obtain ⟨hregexes', hcurrent'⟩ := hfresh.afterRun hrgx hany
    exact ⟨hregexes.trans hregexes'.symm, hcurrent.trans hcurrent'.symm, patterns, binary,
      h.own_patterns, h.own_binary, hregexes', hcurrent'⟩

/-! ## The cache -/

/-- Another identifier's binary is left alone, and without the regex device all are. -/
theorem afterRun_precompiled_of_ne {i : String}
    (h : T.int r.config.rgxEnabled = 1 → i ≠ currId r.config) :
    afterRun T rendir r s (.precompiled i) = s (.precompiled i) := by
  have hsample : afterSample T rendir r s (.precompiled i) = s (.precompiled i) :=
    afterSample_of_untouched (by simp) (by simp) (by simp)
  have hpatterns : afterPatterns T rendir r s (.precompiled i) = s (.precompiled i) :=
    afterPatterns_of_untouched (by simp) (by simp) (by simp) (by simp) (by simp) (by simp)
  rw [afterRun, prepRules, Script.run_andThen]
  split
  · exact hsample
  · rw [Script.run_andThen, engineScript]
    split
    · rename_i hrgx
      rw [Script.run_andThen, Script.run_andThen, run_workingSet_of_ne (by simp),
        Script.run_eq_of_untouched (compileScript T r)]
      · exact run_rxpcCommands_precompiled i
      · simp [compileScript, Script.touched, Script.acts, Command.touched, h hrgx]
    · rw [Script.run_eq_of_untouched]
      · exact hpatterns
      · split <;> simp [Script.touched, Script.acts, Command.touched]

/-- A run that compiles its own patterns: it filters them by length and no tool fails. -/
structure CompilesOwn (T : Tools) (rendir : String → Option Bytes) (r : PrepRun)
    (binary : Bytes) : Prop where
  enabled : SomeEnabled T r
  filters : T.filtersLength r.config = true
  own : ∃ patterns, ownPatterns T rendir r = some patterns ∧ compiled T r patterns = some binary

/-- What the cache holds under the identifier of such a run: what it held before, or else the
run's own binary. -/
theorem CompilesOwn.afterRun_precompiled {binary : Bytes} (h : CompilesOwn T rendir r binary)
    (hrgx : T.int r.config.rgxEnabled = 1) :
    afterRun T rendir r s (.precompiled (currId r.config))
      = some ((s (.precompiled (currId r.config))).getD binary) := by
  obtain ⟨patterns, hown, hbinary⟩ := h.own
  obtain ⟨input, hinput, hrxpc⟩ := Option.bind_eq_some_iff.mp hbinary
  have hregexes : afterPatterns T rendir r s .regexes = some patterns := by
    rw [afterPatterns_regexes hown h.enabled, shares_of_filters h.filters hown]
  rw [afterRun_eq hrgx h.enabled, run_workingSet_of_ne (by simp)]
  have hcache : (Script.acts (rxpcCommands T r)).run (afterPatterns T rendir r s)
      (.precompiled (currId r.config)) = s (.precompiled (currId r.config)) :=
    run_rxpcCommands_precompiled _
  have hrxpc' : (Script.acts (rxpcCommands T r)).run (afterPatterns T rendir r s) .rxpc
      = some input := (run_rxpcCommands hregexes).trans hinput
  cases hs : s (.precompiled (currId r.config)) with
  | some b =>
    rw [hs] at hcache
    simp [compileScript, Script.run, Script.acts, Command.exec, Files.write, hcache]
  | none =>
    rw [hs] at hcache
    simp [compileScript, Script.run, Script.acts, Command.exec, Files.write, hcache, hrxpc', hrxpc]

/-- Tools that keep what they are given; a sample is its database. -/
def plainTools : Tools where
  jinjaInt := fun s => if s = "1" ∨ s = "5" then 1 else 0
  sample := fun db _ _ => some db
  extract := fun _ rules => some rules
  sortUniq := id
  grepLonger := fun _ => id
  number := id
  rulesToSubsets := fun _ patterns => some patterns
  rxpc := some
  toHyperscan := some

/-- An RXP configuration of the parameter files that samples `patternDb`. -/
def rxpConfig (patternDb : String) : PrepConfig where
  nRules := .int 100
  rulesPatlenGreaterthan := .str "5"
  rulesUseContentKw := .str "1"
  rulesUsePcreKw := .str "0"
  ruleSubsetRatio := some (.str "1.0")
  patternDb := .str patternDb
  fixedSeed := .str "1"
  rgxEnabled := .str "1"
  hsEnabled := .str "0"

/-- Two databases with different rules. -/
def twoDatabases (name : String) : Option Bytes :=
  if name = "a.rules" then some [1] else if name = "b.rules" then some [2] else none

end Autotest
end PamoRxpBench
