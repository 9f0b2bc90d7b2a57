import PamoRxpBench.Autotest.Precompile
import PamoRxpBench.Autotest.PrepRulesTheorems

/-!
# What parallel precompilation leaves

Only the binaries, the sample and the extracted patterns are named after the configuration; the
files between them are shared (`curr_id_uniq` is empty). A run in which every command finds in
the files it reads what its own script left there, or nothing, gives each configuration the binary
it would have got alone (`precompiled_unmixed`), and an interleaving of two scripts that share
`.regexes` does not.
-/

namespace PamoRxpBench
namespace Autotest

open Shell Runs

variable {T : Tools} {rendir : String → Option Bytes}

/-! ## What a script touches -/

theorem not_mem_touched_kindCommands {r : PrepRun} {k : PatternKind} {i : String} :
    ExpFile.precompiled i ∉ (Script.acts (kindCommands T r k)).touched := by
  rw [Script.touched_acts]
  intro hmem
  obtain ⟨c, hc, hf⟩ := List.mem_flatMap.mp hmem
  have htouched : ∀ c ∈ extractCommands T r k, ExpFile.precompiled i ∉ c.touched := by
    unfold extractCommands
    split <;> simp [Command.touched]
  unfold kindCommands at hc
  split at hc
  · exact htouched c hc hf
  · exact absurd hc List.not_mem_nil

theorem not_mem_touched_rxpcCommands {r : PrepRun} {i : String} :
    ExpFile.precompiled i ∉ (Script.acts (rxpcCommands T r)).touched := by
  rw [Script.touched_acts, rxpcCommands]
  cases r.config.ruleSubsetRatio with
  | none => simp [Command.touched]
  | some ratio => simp [Command.touched]

/-- A run touches no binary but its own. -/
theorem not_mem_touched_prepRules {r : PrepRun} {i : String} (h : i ≠ currId r.config) :
    ExpFile.precompiled i ∉ (prepRules T rendir r).touched := by
  have hengine : ExpFile.precompiled i ∉ (engineScript T r).touched := by
    intro hmem
    unfold engineScript at hmem
    split at hmem
    · rcases Script.mem_touched_andThen hmem with hmem | hmem
      · exact not_mem_touched_rxpcCommands hmem
      · rcases Script.mem_touched_andThen hmem with hmem | hmem
        · simp [compileScript, Script.touched, Script.acts, Command.touched, h] at hmem
        · simp [Script.touched, Script.acts, Command.touched] at hmem
    · split at hmem
      · simp [Script.touched, Script.acts, Command.touched] at hmem
      · exact absurd hmem List.not_mem_nil
  intro hmem
  rcases Script.mem_touched_andThen hmem with hmem | hmem
  · simp [sampleCommands, Script.touched, Script.acts, Command.touched] at hmem
  · split at hmem
    · exact absurd hmem List.not_mem_nil
    · rcases Script.mem_touched_andThen hmem with hmem | hmem
      · rw [patternCommands_eq, Script.touched_acts, List.flatMap_append, ← Script.touched_acts,
          ← Script.touched_acts] at hmem
        rcases List.mem_append.mp hmem with hmem | hmem
        · exact not_mem_touched_kindCommands hmem
        · exact not_mem_touched_kindCommands hmem
      · exact hengine hmem

/-! ## Any number of scripts -/

/-- Every configuration has the binary it would have got alone: the compilation of its own
patterns, if there was none before and its tools make one from patterns filtered by length. -/
structure Unmixed (T : Tools) (rendir : String → Option Bytes) (cfgs : List PrecompileCfg)
    (before after : Files ExpFile UInt8) : Prop where
  alone : ∀ cfg ∈ cfgs, after cfg.precompiled = afterRun T rendir cfg.run before cfg.precompiled
  own : ∀ cfg ∈ cfgs, ∀ binary, CompilesOwn T rendir cfg.run binary →
    before cfg.precompiled = none → after cfg.precompiled = some binary

/-- In every interleaving whose steps are clean, no configurations are mixed. -/
theorem precompiled_unmixed (T : Tools) (hint : T.jinjaInt "1" = 1)
    (rendir : String → Option Bytes) (cfgs : List PrecompileCfg)
    (hid : cfgs.Pairwise fun c c' => currId c.run.config ≠ currId c'.run.config)
    (files : Files ExpFile UInt8) (as : List (Fin cfgs.length))
    (hclean : Meets Parallel.State.step Parallel.State.Clean
      (precompileRxpc T rendir cfgs files) as)
    (s : Parallel.State (Fin cfgs.length) ExpFile UInt8)
    (hrun : run Parallel.State.step (precompileRxpc T rendir cfgs files) as = some s)
    (hdone : ∀ i, s.rest i = .done) : Unmixed T rendir cfgs files s.files := by
  have halone : ∀ cfg ∈ cfgs,
      s.files cfg.precompiled = afterRun T rendir cfg.run files cfg.precompiled := by
    intro cfg hcfg
    obtain ⟨i, hi, rfl⟩ := List.mem_iff_getElem.mp hcfg
    refine Parallel.files_eq_alone hclean hrun (hdone ⟨i, hi⟩) fun j hj => ?_
    apply not_mem_touched_prepRules
    have hne : i ≠ j := fun heq => hj (Fin.ext heq.symm)
    have hpair := List.pairwise_iff_getElem.mp hid
    rcases Nat.lt_or_gt_of_ne hne with hlt | hlt
    · exact hpair i j hi j.isLt hlt
    · exact (hpair j i j.isLt hi hlt).symm
  refine ⟨halone, fun cfg hcfg binary hown hnone => ?_⟩
  rw [halone cfg hcfg, PrecompileCfg.precompiled, hown.afterRun_precompiled hint,
    ← PrecompileCfg.precompiled, hnone]
  rfl

/-- Two configurations for the databases of `twoDatabases`. -/
def twoCfgs : List PrecompileCfg :=
  [⟨.int 100, .str "a.rules", .str "1", .str "0", .str "5", .str "1", 0⟩,
    ⟨.int 200, .str "b.rules", .str "1", .str "0", .str "5", .str "1", 0⟩]

/-- The second script samples, the first one runs, and the second one goes on. -/
def cleanOrder : List (Fin twoCfgs.length) :=
  List.replicate 2 ⟨1, by decide⟩ ++ List.replicate 14 ⟨0, by decide⟩ ++
    List.replicate 12 ⟨1, by decide⟩

theorem precompiled_unmixed_cleanOrder :
    ∃ s, run Parallel.State.step
        (precompileRxpc plainTools twoDatabases twoCfgs Files.empty) cleanOrder = some s ∧
      s.files (twoCfgs[0]).precompiled = some [1] ∧
      Unmixed plainTools twoDatabases twoCfgs Files.empty s.files := by
  obtain ⟨s, hrun, hdone, hfile⟩ : ∃ s, run Parallel.State.step
      (precompileRxpc plainTools twoDatabases twoCfgs Files.empty) cleanOrder = some s ∧
      (∀ i, s.rest i = .done) ∧ s.files (twoCfgs[0]).precompiled = some [1] := by
    refine ⟨_, rfl, fun ⟨i, hi⟩ => ?_, rfl⟩
    match i, hi with
    | 0, _ => rfl
    | 1, _ => rfl
  exact ⟨s, hrun, hfile, precompiled_unmixed plainTools rfl twoDatabases twoCfgs (by decide)
    Files.empty cleanOrder (by decide) s hrun hdone⟩

/-- Between deleting the leftovers and collecting the patterns of the first script, the second
one collects its own. -/
def mixingOrder : List (Fin twoCfgs.length) :=
  List.replicate 3 ⟨0, by decide⟩ ++ List.replicate 7 ⟨1, by decide⟩ ++
    List.replicate 11 ⟨0, by decide⟩ ++ List.replicate 7 ⟨1, by decide⟩

/-- The first binary is made from the patterns of both. -/
theorem not_unmixed_mixingOrder :
    ¬ ∀ as s, run Parallel.State.step
        (precompileRxpc plainTools twoDatabases twoCfgs Files.empty) as = some s →
      (∀ i, s.rest i = .done) → Unmixed plainTools twoDatabases twoCfgs Files.empty s.files := by
  intro hall
  obtain ⟨s, hrun, hdone, hfile⟩ : ∃ s, run Parallel.State.step
      (precompileRxpc plainTools twoDatabases twoCfgs Files.empty) mixingOrder = some s ∧
      (∀ i, s.rest i = .done) ∧ s.files (twoCfgs[0]).precompiled = some [2, 1] := by
    refine ⟨_, rfl, fun ⟨i, hi⟩ => ?_, rfl⟩
    match i, hi with
    | 0, _ => rfl
    | 1, _ => rfl
  have halone := (hall mixingOrder s hrun hdone).alone twoCfgs[0] List.mem_cons_self
  rw [hfile] at halone
  exact absurd halone (by decide)

end Autotest
end PamoRxpBench
