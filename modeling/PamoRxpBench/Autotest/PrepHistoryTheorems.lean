import PamoRxpBench.Autotest.PrepRulesTheorems
import Mathlib.Data.List.Induction

/-!
# After which runs `prep_rules.sh` is independent of the history

With tools that do not fail, two kinds of files carry something from one run to another. `.contents`
and `.pcres` are those of the last run that has filtered the kind by length (`afterRuns_uniq`), and
`precompiled_$curr_id` is the binary of the first run with the identifier (`afterRuns_precompiled`),
which collected its patterns from the former. So whether a run is independent of the ones before it,
for all tools and databases, is a question about the configurations (`historyIndependent_iff`).
-/

namespace PamoRxpBench
namespace Autotest

open Shell

/-- Tools that do not fail, and number nothing where there is nothing. -/
structure Tools.Succeed (T : Tools) : Prop where
  sample : ∀ db n seed, (T.sample db n seed).isSome = true
  extract : ∀ k rules, (T.extract k rules).isSome = true
  rulesToSubsets : ∀ ratio patterns, (T.rulesToSubsets ratio patterns).isSome = true
  rxpc : ∀ input, (T.rxpc input).isSome = true
  number_nil : T.number [] = []

/-- The pattern databases of the runs are there. -/
def HasDatabases (rendir : String → Option Bytes) (runs : List PrepRun) : Prop :=
  ∀ e ∈ runs, (rendir e.config.patternDb.toText).isSome = true

variable {T : Tools} {rendir : String → Option Bytes} {e r : PrepRun} {s : Files ExpFile UInt8}

/-! ## Which runs leave something -/

/-- The run filters the patterns of the kind by length. -/
def Filters (T : Tools) (k : PatternKind) (e : PrepRun) : Bool :=
  T.enabled e.config k && T.filtersLength e.config

/-- The run that `.contents` or `.pcres` is from: the last one that filters the kind. -/
def writer (T : Tools) (k : PatternKind) (runs : List PrepRun) : Option PrepRun :=
  (runs.filter (Filters T k)).getLast?

/-- The run whose patterns of the kind `e` collects, after the runs `before`. -/
def source (T : Tools) (before : List PrepRun) (e : PrepRun) (k : PatternKind) : Option PrepRun :=
  if T.enabled e.config k then writer T k (before ++ [e]) else none

/-- The run gets to the compiler, or to the file that is cached under the identifier. -/
def Compiles (T : Tools) (id : String) (e : PrepRun) : Prop :=
  T.int e.config.rgxEnabled = 1 ∧ T.exits e.config = false ∧ currId e.config = id

instance (T : Tools) (id : String) (e : PrepRun) : Decidable (Compiles T id e) :=
  inferInstanceAs (Decidable (_ ∧ _ ∧ _))

theorem writer_concat (T : Tools) (k : PatternKind) (runs : List PrepRun) (e : PrepRun) :
    writer T k (runs ++ [e]) = if Filters T k e = true then some e else writer T k runs := by
  rw [writer, List.filter_append]
  by_cases h : Filters T k e = true
  · rw [if_pos h, List.filter_cons_of_pos h, List.filter_nil, List.getLast?_concat]
  · rw [if_neg h, List.filter_cons_of_neg h, List.filter_nil, List.append_nil, writer]

/-! ## One run -/

theorem exists_sampled_of_succeed (hT : T.Succeed)
    (hdb : (rendir e.config.patternDb.toText).isSome = true) :
    ∃ rules, sampled T rendir e = some rules := by
  obtain ⟨db, hdb⟩ := Option.isSome_iff_exists.mp hdb
  obtain ⟨rules, hrules⟩ := Option.isSome_iff_exists.mp
    (hT.sample db e.config.nRules.toText (T.seed e))
  exact ⟨rules, by rw [sampled, hdb, Option.bind_some, hrules]⟩

theorem exists_patternsOf (hT : T.Succeed)
    (hdb : (rendir e.config.patternDb.toText).isSome = true) (k : PatternKind) :
    ∃ patterns, patternsOf T rendir e k = some patterns := by
  obtain ⟨rules, hrules⟩ := exists_sampled_of_succeed hT hdb
  obtain ⟨patterns, hpatterns⟩ := Option.isSome_iff_exists.mp (hT.extract k rules)
  exact ⟨_, by rw [patternsOf, hrules, Option.bind_some, hpatterns, Option.map_some]⟩

/-- With tools that succeed there are patterns. -/
theorem exists_ownPatterns (hT : T.Succeed)
    (hdb : (rendir e.config.patternDb.toText).isSome = true) :
    ∃ own, ownPatterns T rendir e = some own := by
  have henabled : ∀ k, ∃ own, enabledPatterns T rendir e k = some own := by
    intro k
    unfold enabledPatterns
    split
    · exact exists_patternsOf hT hdb k
    · exact ⟨[], rfl⟩
  obtain ⟨contents, hcontents⟩ := henabled .contents
  obtain ⟨pcres, hpcres⟩ := henabled .pcres
  exact ⟨_, by rw [ownPatterns, hcontents, Option.bind_some, hpcres, Option.map_some]⟩

theorem exists_compiled (hT : T.Succeed) (e : PrepRun) (patterns : Bytes) :
    ∃ binary, compiled T e patterns = some binary := by
  unfold compiled
  cases e.config.ruleSubsetRatio with
  | none => exact Option.isSome_iff_exists.mp (hT.rxpc _)
  | some ratio =>
    obtain ⟨subsets, hsubsets⟩ :=
      Option.isSome_iff_exists.mp (hT.rulesToSubsets ratio.toText (T.number patterns))
    simp only [hsubsets, Option.bind_some]
    exact Option.isSome_iff_exists.mp (hT.rxpc _)

theorem not_enabled_of_exits (h : T.exits e.config = true) (k : PatternKind) :
    T.enabled e.config k = false := by
  rw [Tools.exits, Bool.and_eq_true, beq_iff_eq, beq_iff_eq] at h
  cases k with
  | contents =>
    show (T.int e.config.rulesUseContentKw == 1) = false
    rw [h.1]
    rfl
  | pcres =>
    show (T.int e.config.rulesUsePcreKw == 1) = false
    rw [h.2]
    rfl

/-- What collecting the patterns of a kind leaves in `.contents` or `.pcres`. -/
theorem run_kindCommands_uniq {k : PatternKind} {rules patterns : Bytes}
    (hrules : s (.rules (currId e.config)) = some rules)
    (hpatterns : T.extract k rules = some patterns) :
    (Script.acts (kindCommands T e k)).run s (.uniq k)
      = if Filters T k e = true then
          some (T.grepLonger e.config.rulesPatlenGreaterthan.toText (T.sortUniq patterns))
        else s (.uniq k) := by
  unfold kindCommands Filters
  by_cases hk : T.enabled e.config k = true
  · by_cases hlen : T.filtersLength e.config = true
    · simp [extractCommands, hk, hlen, Script.acts, Script.run, Command.exec, hrules, hpatterns,
        Files.write]
    · simp [extractCommands, hk, hlen, Script.acts, Script.run, Command.exec, hrules, hpatterns,
        Files.write]
  · simp [hk, Script.acts, Script.run]

theorem run_kindCommands_rules {k : PatternKind} {i : String} :
    (Script.acts (kindCommands T e k)).run s (.rules i) = s (.rules i) :=
  run_kindCommands_of_untouched (by simp) (by simp) (by simp) (by simp)

/-- Collecting the patterns of the other kind changes nothing. -/
theorem run_kindCommands_uniq_of_ne {k k' : PatternKind} (h : k ≠ k') :
    (Script.acts (kindCommands T e k)).run s (.uniq k') = s (.uniq k') :=
  run_kindCommands_of_untouched (by simp) (by simp) (by simpa using h.symm) (by simp)

theorem patternsOf_of_filters {k : PatternKind} {rules patterns : Bytes}
    (h : Filters T k e = true) (hsampled : sampled T rendir e = some rules)
    (hpatterns : T.extract k rules = some patterns) :
    patternsOf T rendir e k
      = some (T.grepLonger e.config.rulesPatlenGreaterthan.toText (T.sortUniq patterns)) := by
  rw [patternsOf, hsampled, Option.bind_some, hpatterns, Option.map_some,
    if_pos (Bool.and_eq_true_iff.mp h).2]

/-- `.contents` and `.pcres` are written only by a run that filters the kind. -/
theorem afterPatterns_uniq (hT : T.Succeed) (hdb : (rendir e.config.patternDb.toText).isSome = true)
    (k : PatternKind) :
    afterPatterns T rendir e s (.uniq k)
      = if Filters T k e = true then patternsOf T rendir e k else s (.uniq k) := by
  obtain ⟨rules, hsampled⟩ := exists_sampled_of_succeed hT hdb
  obtain ⟨patterns, hpatterns⟩ := Option.isSome_iff_exists.mp (hT.extract k rules)
  have hrules := afterSample_rules (s := s) hsampled
  have hsample : afterSample T rendir e s (.uniq k) = s (.uniq k) :=
    afterSample_of_untouched (by simp) (by simp) (by simp)
  have hown : (if Filters T k e = true then
      some (T.grepLonger e.config.rulesPatlenGreaterthan.toText (T.sortUniq patterns))
      else s (.uniq k)) =
        if Filters T k e = true then patternsOf T rendir e k else s (.uniq k) := by
    split
    · rename_i h
      rw [patternsOf_of_filters h hsampled hpatterns]
    · rfl
  rw [afterPatterns, patternCommands_eq, Script.run_acts_append, ← hown]
  cases k with
  | contents =>
    rw [run_kindCommands_uniq_of_ne (by decide), run_kindCommands_uniq hrules hpatterns, hsample]
  | pcres =>
    rw [run_kindCommands_uniq (run_kindCommands_rules.trans hrules) hpatterns,
      run_kindCommands_uniq_of_ne (by decide), hsample]

/-- A run that exits only takes its sample. -/
theorem afterRun_of_exits (h : T.exits e.config = true) :
    afterRun T rendir e s = afterSample T rendir e s := by
  rw [afterRun, prepRules, Script.run_andThen, if_pos h]
  rfl

theorem afterRun_of_not_exits (h : T.exits e.config = false) :
    afterRun T rendir e s = (engineScript T e).run (afterPatterns T rendir e s) := by
  rw [afterRun, prepRules, Script.run_andThen, h, if_neg Bool.false_ne_true, Script.run_andThen]
  rfl

theorem run_engineScript_uniq (k : PatternKind) :
    (engineScript T e).run s (.uniq k) = s (.uniq k) := by
  unfold engineScript
  split
  · rw [Script.run_andThen, Script.run_andThen, run_workingSet_of_ne (by simp),
      Script.run_eq_of_untouched (compileScript T e),
      run_rxpcCommands_of_untouched (by simp) (by simp)]
    simp [compileScript, Script.touched, Script.acts, Command.touched]
  · rw [Script.run_eq_of_untouched]
    split <;> simp [Script.touched, Script.acts, Command.touched]

/-- A run that filters the kind leaves its own patterns, and any other run what it found. -/
theorem afterRun_uniq (hT : T.Succeed) (hdb : (rendir e.config.patternDb.toText).isSome = true)
    (k : PatternKind) :
    afterRun T rendir e s (.uniq k)
      = if Filters T k e = true then patternsOf T rendir e k else s (.uniq k) := by
  cases hexits : T.exits e.config with
  | true =>
    have hnot : ¬ Filters T k e = true := by
      rw [Filters, not_enabled_of_exits hexits, Bool.false_and]
      decide
    rw [afterRun_of_exits hexits, if_neg hnot]
    exact afterSample_of_untouched (by simp) (by simp) (by simp)
  | false => rw [afterRun_of_not_exits hexits, run_engineScript_uniq, afterPatterns_uniq hT hdb]

/-- The binary that a run makes of what it collects. -/
def compiledIn (T : Tools) (rendir : String → Option Bytes) (e : PrepRun)
    (s : Files ExpFile UInt8) : Option Bytes :=
  compiled T e (share T rendir e s .contents ++ share T rendir e s .pcres)

/-- The compiler is given what was collected, which is nothing without an enabled kind. -/
theorem run_rxpcCommands_rxpc (hT : T.Succeed)
    (hdb : (rendir e.config.patternDb.toText).isSome = true) :
    ((Script.acts (rxpcCommands T e)).run (afterPatterns T rendir e s) .rxpc).bind T.rxpc
      = compiledIn T rendir e s := by
  unfold compiledIn compiled
  by_cases hany : SomeEnabled T e
  · obtain ⟨own, hown⟩ := exists_ownPatterns hT hdb
    rw [run_rxpcCommands (afterPatterns_regexes hown hany)]
  · rw [SomeEnabled, not_or, Bool.not_eq_true, Bool.not_eq_true] at hany
    have hnone : afterPatterns T rendir e s .regexes = none :=
      afterPatterns_regexes_of_none hany.1 hany.2
    rw [share, share, hany.1, hany.2, if_neg Bool.false_ne_true, if_neg Bool.false_ne_true,
      List.append_nil, hT.number_nil]
    unfold rxpcCommands
    cases e.config.ruleSubsetRatio with
    | none => simp [Script.acts, Script.run, Command.exec, hnone]
    | some ratio =>
      obtain ⟨subsets, hsubsets⟩ :=
        Option.isSome_iff_exists.mp (hT.rulesToSubsets ratio.toText [])
      simp [Script.acts, Script.run, Command.exec, Files.write, hnone, hsubsets]

/-- The cache is filled once: by a run with the identifier that finds nothing there. -/
theorem afterRun_precompiled (hT : T.Succeed)
    (hdb : (rendir e.config.patternDb.toText).isSome = true) (id : String) :
    afterRun T rendir e s (.precompiled id)
      = (s (.precompiled id)).or (if Compiles T id e then compiledIn T rendir e s else none) := by
  by_cases hcompiles : Compiles T id e
  · obtain ⟨hrgx, hexits, rfl⟩ := hcompiles
    rw [if_pos ⟨hrgx, hexits, rfl⟩, afterRun_of_not_exits hexits, engineScript, if_pos hrgx,
      Script.run_andThen, Script.run_andThen, run_workingSet_of_ne (by simp),
      ← run_rxpcCommands_rxpc hT hdb]
    have hcache : (Script.acts (rxpcCommands T e)).run (afterPatterns T rendir e s)
        (.precompiled (currId e.config)) = s (.precompiled (currId e.config)) :=
      run_rxpcCommands_precompiled (currId e.config)
    cases hs : s (.precompiled (currId e.config)) with
    -- the cached file stays
    | some b =>
      rw [hs] at hcache
      simp [compileScript, Script.run, Script.acts, Command.exec, Files.write, hcache]
    -- the binary is made, and then cached
    | none =>
      rw [hs] at hcache
      obtain ⟨binary, hbinary⟩ := exists_compiled hT e
        (share T rendir e s .contents ++ share T rendir e s .pcres)
      have hinput := (run_rxpcCommands_rxpc (s := s) hT hdb).trans hbinary
      obtain ⟨input, hrxpc, hinput⟩ := Option.bind_eq_some_iff.mp hinput
      simp [compileScript, Script.run, Script.acts, Command.exec, Files.write, hcache, hrxpc,
        hinput]
  · rw [if_neg hcompiles, Option.or_none]
    cases hexits : T.exits e.config with
    | true =>
      rw [afterRun_of_exits hexits]
      exact afterSample_of_untouched (by simp) (by simp) (by simp)
    | false =>
      exact afterRun_precompiled_of_ne fun hrgx hid => hcompiles ⟨hrgx, hexits, hid.symm⟩

/-! ## All runs -/

theorem afterRuns_concat (runs : List PrepRun) (e : PrepRun) :
    afterRuns T rendir (runs ++ [e]) = afterRun T rendir e (afterRuns T rendir runs) := by
  rw [afterRuns, List.foldl_append]
  rfl

/-- `.contents` and `.pcres` are those of the run that wrote them last. -/
theorem afterRuns_uniq (hT : T.Succeed) {runs : List PrepRun} (hdb : HasDatabases rendir runs)
    (k : PatternKind) :
    afterRuns T rendir runs (.uniq k)
      = (writer T k runs).bind fun w => patternsOf T rendir w k := by
  induction runs using List.reverseRecOn with
  | nil => rfl
  | append_singleton runs e ih =>
    have hruns : HasDatabases rendir runs := fun e' he' => hdb e' (List.mem_append_left _ he')
    rw [afterRuns_concat, afterRun_uniq hT (hdb e (by simp)), writer_concat, ih hruns]
    split <;> rfl

/-- A kind contributes the patterns of its source. -/
theorem share_afterRuns (hT : T.Succeed) {before : List PrepRun}
    (hdb : HasDatabases rendir before) (e : PrepRun) (k : PatternKind) :
    share T rendir e (afterRuns T rendir before) k
      = ((source T before e k).bind fun w => patternsOf T rendir w k).getD [] := by
  unfold share source contribution
  by_cases hk : T.enabled e.config k = true
  · rw [if_pos hk, if_pos hk, writer_concat, Filters, hk, Bool.true_and]
    by_cases hlen : T.filtersLength e.config = true
    · rw [if_pos hlen, if_pos hlen]
      rfl
    · rw [if_neg hlen, if_neg hlen, Files.text, afterRuns_uniq hT hdb]
  · rw [if_neg hk, if_neg hk]
    rfl

/-- Without a run with the identifier there is no binary. -/
theorem afterRuns_precompiled_of_none (hT : T.Succeed) {runs : List PrepRun}
    (hdb : HasDatabases rendir runs) {id : String} (h : ∀ e ∈ runs, ¬ Compiles T id e) :
    afterRuns T rendir runs (.precompiled id) = none := by
  induction runs using List.reverseRecOn with
  | nil => rfl
  | append_singleton runs e ih =>
    rw [afterRuns_concat, afterRun_precompiled hT (hdb e (by simp)), if_neg (h e (by simp)),
      Option.or_none]
    exact ih (fun e' he' => hdb e' (List.mem_append_left _ he')) fun e' he' =>
      h e' (List.mem_append_left _ he')

/-- Behind the first run with the identifier the binary is the one that it made. -/
theorem afterRuns_precompiled (hT : T.Succeed) {before after : List PrepRun}
    (hdb : HasDatabases rendir (before ++ e :: after)) {id : String}
    (hfirst : ∀ b ∈ before, ¬ Compiles T id b) (he : Compiles T id e) :
    afterRuns T rendir (before ++ e :: after) (.precompiled id)
      = compiledIn T rendir e (afterRuns T rendir before) := by
  obtain ⟨binary, hbinary⟩ := exists_compiled hT e
    (share T rendir e (afterRuns T rendir before) .contents
      ++ share T rendir e (afterRuns T rendir before) .pcres)
  have hbinary : compiledIn T rendir e (afterRuns T rendir before) = some binary := hbinary
  rw [hbinary]
  induction after using List.reverseRecOn with
  | nil =>
    have hbefore : HasDatabases rendir before := fun b hb => hdb b (List.mem_append_left _ hb)
    rw [afterRuns_concat, afterRun_precompiled hT (hdb e (by simp)),
      afterRuns_precompiled_of_none hT hbefore hfirst, Option.none_or, if_pos he, hbinary]
  | append_singleton after b ih =>
    have hdb' : HasDatabases rendir (before ++ e :: after) := by
      intro b' hb'
      refine hdb b' ?_
      rw [← List.cons_append, ← List.append_assoc]
      exact List.mem_append_left _ hb'
    rw [← List.cons_append, ← List.append_assoc, afterRuns_concat,
      afterRun_precompiled hT (hdb b (by simp)), ih hdb', Option.some_or]

/-! ## Independence of the runs before -/

/-- Two runs that take the same sample and keep the patterns of the same lengths. -/
structure SameSample (T : Tools) (w r : PrepRun) : Prop where
  patternDb : w.config.patternDb.toText = r.config.patternDb.toText
  nRules : w.config.nRules.toText = r.config.nRules.toText
  seed : T.seed w = T.seed r
  patlen : w.config.rulesPatlenGreaterthan.toText = r.config.rulesPatlenGreaterthan.toText

/-- `e`, after the runs `before`, compiles what `r` compiles: patterns of the kinds that `r` has
enabled, each from a run with the sample of `r`, with the same subset ratio. -/
structure SharesPatterns (T : Tools) (before : List PrepRun) (e r : PrepRun) : Prop where
  ratio : e.config.ruleSubsetRatio.map Value.toText = r.config.ruleSubsetRatio.map Value.toText
  kinds : ∀ k, (source T before e k).isSome = T.enabled r.config k
  sample : ∀ k w, source T before e k = some w → SameSample T w r

/-- A run that filters by length is the source of its own patterns. -/
theorem source_of_filters {before : List PrepRun} (h : T.filtersLength e.config = true)
    (k : PatternKind) : source T before e k = if T.enabled e.config k then some e else none := by
  unfold source
  by_cases hk : T.enabled e.config k = true
  · rw [if_pos hk, if_pos hk, writer_concat, Filters, hk, h]
    rfl
  · rw [if_neg hk, if_neg hk]

theorem SameSample.sampled {w : PrepRun} (h : SameSample T w r) :
    sampled T rendir w = sampled T rendir r := by
  rw [Autotest.sampled, Autotest.sampled, h.patternDb, h.nRules, h.seed]

theorem SameSample.patternsOf {w : PrepRun} (h : SameSample T w r)
    (hw : T.filtersLength w.config = true) (hr : T.filtersLength r.config = true)
    (k : PatternKind) :
    patternsOf T rendir w k = patternsOf T rendir r k := by
  rw [Autotest.patternsOf, Autotest.patternsOf, h.sampled, hw, hr, h.patlen]

theorem compiled_congr (h : e.config.ruleSubsetRatio.map Value.toText
    = r.config.ruleSubsetRatio.map Value.toText) (patterns : Bytes) :
    compiled T e patterns = compiled T r patterns := by
  unfold compiled
  cases he : e.config.ruleSubsetRatio <;> cases hr : r.config.ruleSubsetRatio <;>
    rw [he, hr] at h <;> simp_all

/-- The sources filter by length. -/
theorem filters_of_source {before : List PrepRun} {k : PatternKind} {w : PrepRun}
    (h : source T before e k = some w) : Filters T k w = true := by
  unfold source at h
  split at h
  · exact (List.mem_filter.mp (List.mem_of_getLast? h)).2
  · cases h

/-- Such a run leaves the binary of `r`. -/
theorem SharesPatterns.compiledIn (hT : T.Succeed) {before : List PrepRun}
    (hdb : HasDatabases rendir before) (h : SharesPatterns T before e r)
    (hr : T.filtersLength r.config = true) {own : Bytes}
    (hown : ownPatterns T rendir r = some own) :
    compiledIn T rendir e (afterRuns T rendir before) = compiled T r own := by
  have hshare : ∀ {k own}, enabledPatterns T rendir r k = some own →
      share T rendir e (afterRuns T rendir before) k = own := by
    intro k own hk
    rw [share_afterRuns hT hdb]
    have hkind := h.kinds k
    unfold enabledPatterns at hk
    cases hsource : source T before e k with
    | none =>
      rw [hsource] at hkind
      rw [← hkind] at hk
      exact Option.some.inj hk
    | some w =>
      rw [hsource] at hkind
      rw [← hkind] at hk
      have hw := filters_of_source hsource
      rw [Option.bind_some, (h.sample k w hsource).patternsOf (Bool.and_eq_true_iff.mp hw).2 hr]
      exact congrArg (Option.getD · []) hk
  obtain ⟨contents, hcontents, hmap⟩ := Option.bind_eq_some_iff.mp hown
  obtain ⟨pcres, hpcres, rfl⟩ := Option.map_eq_some_iff.mp hmap
  rw [Autotest.compiledIn, hshare hcontents, hshare hpcres, compiled_congr h.ratio]

/-! ## Tools that tell runs apart -/

/-- The pattern of a kind. -/
def mark : PatternKind → UInt8
  | .contents => 1
  | .pcres => 2

/-- Tools that show in every file whether it was made as `r` makes it. -/
def markTools (T : Tools) (r : PrepRun) : Tools where
  jinjaInt := T.jinjaInt
  sample := fun db n seed =>
    some (if db = [1] ∧ n = r.config.nRules.toText ∧ seed = T.seed r then [1] else [0])
  extract := fun k rules => some (if rules = [1] then [mark k] else [0])
  sortUniq := id
  grepLonger := fun patlen patterns =>
    if patlen = r.config.rulesPatlenGreaterthan.toText then patterns else [0]
  number := id
  rulesToSubsets := fun ratio patterns =>
    some ((if r.config.ruleSubsetRatio.map Value.toText = some ratio then 3 else 4) :: patterns)
  rxpc := some
  toHyperscan := some

/-- The database of `r`, and another one under every other name. -/
def markDatabases (r : PrepRun) (name : String) : Option Bytes :=
  some (if name = r.config.patternDb.toText then [1] else [0])

theorem markTools_succeed (T : Tools) (r : PrepRun) : (markTools T r).Succeed :=
  ⟨fun _ _ _ => rfl, fun _ _ => rfl, fun _ _ => rfl, fun _ => rfl, rfl⟩

instance (T : Tools) (w r : PrepRun) : Decidable (SameSample T w r) :=
  decidable_of_iff (w.config.patternDb.toText = r.config.patternDb.toText ∧
      w.config.nRules.toText = r.config.nRules.toText ∧ T.seed w = T.seed r ∧
      w.config.rulesPatlenGreaterthan.toText = r.config.rulesPatlenGreaterthan.toText)
    ⟨fun h => ⟨h.1, h.2.1, h.2.2.1, h.2.2.2⟩, fun h => ⟨h.1, h.2, h.3, h.4⟩⟩

/-- What a run with the filter extracts. -/
theorem patternsOf_markTools (T : Tools) (r : PrepRun) {w : PrepRun}
    (hw : T.filtersLength w.config = true) (k : PatternKind) :
    patternsOf (markTools T r) (markDatabases r) w k
      = some [if SameSample T w r then mark k else 0] := by
  have hfilters : (markTools T r).filtersLength w.config = true := hw
  have hseed : (markTools T r).seed w = T.seed w := rfl
  rw [patternsOf, sampled, markDatabases, Option.bind_some, hfilters, hseed]
  by_cases h : SameSample T w r
  · rw [if_pos h]
    simp [markTools, h.patternDb, h.nRules, h.seed, h.patlen]
  · rw [if_neg h]
    by_cases hlen : w.config.rulesPatlenGreaterthan.toText
        = r.config.rulesPatlenGreaterthan.toText
    · have hsample : ¬ (w.config.patternDb.toText = r.config.patternDb.toText ∧
          w.config.nRules.toText = r.config.nRules.toText ∧ T.seed w = T.seed r) :=
        fun hall => h ⟨hall.1, hall.2.1, hall.2.2, hlen⟩
      by_cases hdb : w.config.patternDb.toText = r.config.patternDb.toText
      · have hrest : ¬ (w.config.nRules.toText = r.config.nRules.toText ∧ T.seed w = T.seed r) :=
          fun hall => hsample ⟨hdb, hall⟩
        simp [markTools, hlen, hdb, hrest]
      · simp [markTools, hlen, hdb]
    · simp [markTools, hlen]

/-- The part of the pattern file that is from a source. -/
def marked (T : Tools) (r : PrepRun) (k : PatternKind) (w : Option PrepRun) : Bytes :=
  w.elim [] fun w => [if SameSample T w r then mark k else 0]

/-- With the tools that tell runs apart, the patterns of a kind show whose they are. -/
theorem share_markTools (T : Tools) (r : PrepRun) (before : List PrepRun) (e : PrepRun)
    (k : PatternKind) :
    share (markTools T r) (markDatabases r) e
        (afterRuns (markTools T r) (markDatabases r) before) k
      = marked T r k (source T before e k) := by
  rw [share_afterRuns (markTools_succeed T r) fun _ _ => rfl]
  have hsource : source (markTools T r) before e k = source T before e k := rfl
  rw [hsource]
  cases h : source T before e k with
  | none => rfl
  | some w =>
    rw [Option.bind_some,
      patternsOf_markTools T r (Bool.and_eq_true_iff.mp (filters_of_source h)).2]
    rfl

/-- The compiler's input, for the text of a subset ratio. -/
def markedInput (r : PrepRun) (ratio : Option String) (patterns : Bytes) : Bytes :=
  ratio.elim patterns fun ratio =>
    (if r.config.ruleSubsetRatio.map Value.toText = some ratio then 3 else 4) :: patterns

theorem compiled_markTools (T : Tools) (r e : PrepRun) (patterns : Bytes) :
    compiled (markTools T r) e patterns
      = some (markedInput r (e.config.ruleSubsetRatio.map Value.toText) patterns) := by
  unfold compiled
  cases e.config.ruleSubsetRatio <;> rfl

/-- Marked input shows the ratio and the patterns. -/
theorem markedInput_inj {ratio : Option String} {patterns own : Bytes}
    (hpatterns : ∀ b ∈ patterns, b ≤ 2) (hown : ∀ b ∈ own, b ≤ 2)
    (h : markedInput r ratio patterns
      = markedInput r (r.config.ruleSubsetRatio.map Value.toText) own) :
    ratio = r.config.ruleSubsetRatio.map Value.toText ∧ patterns = own := by
  -- `3` stands for the ratio of `r`, and `4` for any other one; no pattern has them
  unfold markedInput at h
  cases hratio : r.config.ruleSubsetRatio.map Value.toText with
  | none =>
    cases ratio with
    | none =>
      rw [hratio] at h
      exact ⟨rfl, h⟩
    | some ratio =>
      rw [hratio] at h
      have hmem : (4 : UInt8) ∈ own := by
        have heq : 4 :: patterns = own := by simpa using h
        exact heq ▸ List.mem_cons_self
      exact absurd (hown 4 hmem) (by decide)
  | some text =>
    rw [hratio] at h
    cases ratio with
    | none =>
      have hmem : (3 : UInt8) ∈ patterns := by
        have heq : patterns = 3 :: own := by simpa using h
        exact heq ▸ List.mem_cons_self
      exact absurd (hpatterns 3 hmem) (by decide)
    | some ratio =>
      by_cases hsame : text = ratio
      · subst hsame
        exact ⟨rfl, (List.cons.inj h).2⟩
      · have hne : ¬ some text = some ratio := fun heq => hsame (Option.some.inj heq)
        have hhead : (4 : UInt8) = 3 := by simpa [hne] using (List.cons.inj h).1
        exact absurd hhead (by decide)

theorem le_two_of_mem_marked {k : PatternKind} {w : Option PrepRun} {b : UInt8}
    (h : b ∈ marked T r k w) : b ≤ 2 := by
  cases w with
  | none => cases h
  | some w =>
    have hb : b = if SameSample T w r then mark k else 0 := by simpa [marked] using h
    rw [hb]
    cases k <;> split <;> decide

/-- The patterns of `r` itself: one of each kind that it has enabled. -/
theorem ownPatterns_markTools (T : Tools) (r : PrepRun) :
    ownPatterns (markTools T r) (markDatabases r) r
      = some ((if T.enabled r.config .contents then [1] else [])
          ++ if T.enabled r.config .pcres then [2] else []) := by
  have henabled : ∀ k, enabledPatterns (markTools T r) (markDatabases r) r k
      = some (if T.enabled r.config k then [mark k] else []) := by
    intro k
    have hk : (markTools T r).enabled r.config k = T.enabled r.config k := rfl
    have hseed : (markTools T r).seed r = T.seed r := rfl
    have hself : patternsOf (markTools T r) (markDatabases r) r k = some [mark k] := by
      rw [patternsOf, sampled, markDatabases, Option.bind_some, hseed]
      simp [markTools]
    rw [enabledPatterns, hk, hself]
    split <;> rfl
  rw [ownPatterns, henabled, henabled, Option.bind_some, Option.map_some]
  rfl

/-- Marked patterns show the kinds and that the samples are those of `r`. -/
theorem marked_inj {contents pcres : Option PrepRun} {c p : Bool}
    (h : marked T r .contents contents ++ marked T r .pcres pcres
      = (if c then [1] else []) ++ if p then [2] else []) :
    (contents.isSome = c ∧ pcres.isSome = p) ∧
      (∀ w, contents = some w → SameSample T w r) ∧ ∀ w, pcres = some w → SameSample T w r := by
  have hpart : ∀ (k : PatternKind) (w : Option PrepRun),
      (w = none ∧ marked T r k w = []) ∨
      (∃ v, w = some v ∧ SameSample T v r ∧ marked T r k w = [mark k]) ∨
      ∃ v, w = some v ∧ marked T r k w = [0] := by
    intro k w
    cases w with
    | none => exact Or.inl ⟨rfl, rfl⟩
    | some v =>
      by_cases hv : SameSample T v r
      · exact Or.inr (Or.inl ⟨v, rfl, hv, by simp [marked, hv]⟩)
      · exact Or.inr (Or.inr ⟨v, rfl, by simp [marked, hv]⟩)
  -- a pattern of another sample is a zero, which `r` has not
  rcases hpart .contents contents with ⟨rfl, hc⟩ | ⟨v, rfl, hv, hc⟩ | ⟨v, rfl, hc⟩ <;>
    rcases hpart .pcres pcres with ⟨rfl, hp⟩ | ⟨u, rfl, hu, hp⟩ | ⟨u, rfl, hp⟩ <;>
    rw [hc, hp] at h <;> cases c <;> cases p <;> simp_all [mark]

/-! ## The condition on the configurations -/

/-- The runs `earlier` leave nothing that `r` mixes with its own: `r` filters some kind of patterns
by length, and the first of them with the identifier of `r` that got to the compiler, if there is
one, compiled the same patterns. -/
structure KeepsOwn (T : Tools) (earlier : List PrepRun) (r : PrepRun) : Prop where
  enabled : SomeEnabled T r
  filters : T.filtersLength r.config = true
  first : ∀ before e after, earlier = before ++ e :: after →
    Compiles T (currId r.config) e → (∀ b ∈ before, ¬ Compiles T (currId r.config) b) →
    SharesPatterns T before e r

/-- Whatever the tools and databases are, the run `r` behind `earlier` is independent of them. -/
def AlwaysIndependent (T : Tools) (earlier : List PrepRun) (r : PrepRun) : Prop :=
  ∀ (T' : Tools) (rendir : String → Option Bytes), T'.jinjaInt = T.jinjaInt → T'.Succeed →
    HasDatabases rendir (earlier ++ [r]) →
    HistoryIndependent T' rendir (afterRuns T' rendir earlier) r

/-- A run that keeps its own patterns is independent of the others, whatever the tools are. -/
theorem historyIndependent_of_keepsOwn (hT : T.Succeed) {earlier : List PrepRun}
    (hdb : HasDatabases rendir (earlier ++ [r])) (hrgx : T.int r.config.rgxEnabled = 1)
    (h : KeepsOwn T earlier r) : HistoryIndependent T rendir (afterRuns T rendir earlier) r := by
  obtain ⟨own, hown⟩ := exists_ownPatterns hT (hdb r (by simp))
  obtain ⟨binary, hbinary⟩ := exists_compiled hT r own
  have hearlier : HasDatabases rendir earlier := fun e he => hdb e (List.mem_append_left _ he)
  refine (historyIndependent_iff_findsNothingStale hrgx).mpr
    ⟨h.enabled, own, binary, hown, hbinary, Or.inl h.filters, fun b hb => ?_⟩
  cases hfind : earlier.find? fun e => Compiles T (currId r.config) e with
  | some e =>
    obtain ⟨he, before, after, hsplit, hfirst⟩ := List.find?_eq_some_iff_append.mp hfind
    have he : Compiles T (currId r.config) e := of_decide_eq_true he
    have hfirst : ∀ b ∈ before, ¬ Compiles T (currId r.config) b := fun b hb hc => by
      simpa [hc] using hfirst b hb
    have hbefore : HasDatabases rendir before := by
      intro e' he'
      exact hearlier e' (hsplit ▸ List.mem_append_left _ he')
    rw [hsplit, afterRuns_precompiled hT (hsplit ▸ hearlier) hfirst he,
      (h.first before e after hsplit he hfirst).compiledIn hT hbefore h.filters hown, hbinary] at hb
    exact (Option.some.inj hb).symm
  | none =>
    have hnone : ∀ e ∈ earlier, ¬ Compiles T (currId r.config) e := fun e he hc =>
      List.find?_eq_none.mp hfind e he (decide_eq_true hc)
    rw [afterRuns_precompiled_of_none hT hearlier hnone] at hb
    cases hb

/-- With the tools that tell runs apart, the binary of another run is not the one of `r`. -/
theorem samePatterns_of_compiledIn {before : List PrepRun} {own : Bytes}
    (hown : ownPatterns (markTools T r) (markDatabases r) r = some own)
    (h : compiledIn (markTools T r) (markDatabases r) e
        (afterRuns (markTools T r) (markDatabases r) before) = compiled (markTools T r) r own) :
    SharesPatterns T before e r := by
  rw [ownPatterns_markTools] at hown
  obtain rfl := Option.some.inj hown
  rw [compiledIn, share_markTools, share_markTools, compiled_markTools, compiled_markTools] at h
  have hle : ∀ b ∈ marked T r .contents (source T before e .contents)
      ++ marked T r .pcres (source T before e .pcres), b ≤ 2 := by
    intro b hb
    rcases List.mem_append.mp hb with hb | hb
    · exact le_two_of_mem_marked hb
    · exact le_two_of_mem_marked hb
  have hle' : ∀ b ∈ (if T.enabled r.config .contents then [1] else [])
      ++ (if T.enabled r.config .pcres then [2] else [] : Bytes), b ≤ 2 := by
    intro b hb
    rcases List.mem_append.mp hb with hb | hb
    · split at hb
      · rw [List.mem_singleton.mp hb]
        decide
      · cases hb
    · split at hb
      · rw [List.mem_singleton.mp hb]
        decide
      · cases hb
  -- the marks tell which sources went in
  obtain ⟨hratio, hpatterns⟩ := markedInput_inj hle hle' (Option.some.inj h)
  obtain ⟨⟨hcontents, hpcres⟩, hsample⟩ := marked_inj hpatterns
  refine ⟨hratio, fun k => ?_, fun k => ?_⟩
  · cases k with
    | contents => exact hcontents
    | pcres => exact hpcres
  · cases k with
    | contents => exact hsample.1
    | pcres => exact hsample.2

/-- The condition depends on the tools only through the template filter `int`. -/
theorem KeepsOwn.congr {T' : Tools} (hint : T'.jinjaInt = T.jinjaInt) {earlier : List PrepRun}
    (h : KeepsOwn T earlier r) : KeepsOwn T' earlier r := by
  obtain ⟨jinjaInt, _, _, _, _, _, _, _, _⟩ := T
  obtain ⟨jinjaInt', _, _, _, _, _, _, _, _⟩ := T'
  obtain rfl : jinjaInt' = jinjaInt := hint
  refine ⟨h.enabled, h.filters, fun before e after hsplit he hfirst => ?_⟩
  have hsame := h.first before e after hsplit he hfirst
  refine ⟨hsame.ratio, hsame.kinds, fun k w hw => ?_⟩
  have hsample := hsame.sample k w hw
  exact ⟨hsample.patternDb, hsample.nRules, hsample.seed, hsample.patlen⟩

/-- A run with another subset ratio and one with Hyperscan, both on the other database, and one on
the database of `a.rules`. -/
def otherRuns : List PrepRun :=
  [⟨{ rxpConfig "b.rules" with ruleSubsetRatio := none }, 3⟩,
    ⟨{ rxpConfig "b.rules" with rgxEnabled := .str "0", hsEnabled := .str "1" }, 5⟩,
    ⟨rxpConfig "a.rules", 7⟩]

end Autotest
end PamoRxpBench
