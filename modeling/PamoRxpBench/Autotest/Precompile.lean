import PamoRxpBench.Autotest.PrepRules
import PamoRxpBench.Library.Parallel

/-!
# `autotest`: `precompile_rxpc`

The scripts that are rendered for the configurations are started in the background, one process
each, and run until all of them are done. A step is one command of one of them.
-/

namespace PamoRxpBench
namespace Autotest

open Shell

/-- A parameter set of `temp_params`, and what seeds the sampler if nothing else does. -/
structure PrecompileCfg where
  nRules : Value
  patternDb : Value
  rulesUseContentKw : Value
  rulesUsePcreKw : Value
  rulesPatlenGreaterthan : Value
  fixedSeed : Value
  entropy : ℕ
deriving DecidableEq, Repr

/-- `prep_rules.sh` for a configuration: the engine is RXP, and `rule_subset_ratio` is not
defined. -/
def PrecompileCfg.run (cfg : PrecompileCfg) : PrepRun where
  config := {
    nRules := cfg.nRules
    rulesPatlenGreaterthan := cfg.rulesPatlenGreaterthan
    rulesUseContentKw := cfg.rulesUseContentKw
    rulesUsePcreKw := cfg.rulesUsePcreKw
    ruleSubsetRatio := none
    patternDb := cfg.patternDb
    fixedSeed := cfg.fixedSeed
    rgxEnabled := .str "1"
    hsEnabled := .str "0" }
  entropy := cfg.entropy

/-- `precompiled_$curr_id`. -/
def PrecompileCfg.precompiled (cfg : PrecompileCfg) : ExpFile :=
  .precompiled (currId cfg.run.config)

/-- `precompile_rxpc`: the scripts when they are started. -/
def precompileRxpc (T : Tools) (rendir : String → Option Bytes) (cfgs : List PrecompileCfg)
    (files : Files ExpFile UInt8) : Parallel.State (Fin cfgs.length) ExpFile UInt8 :=
  Parallel.State.init (fun i => prepRules T rendir cfgs[i].run) files

end Autotest
end PamoRxpBench
