import PamoRxpBench.Autotest.DataManager
import PamoRxpBench.Autotest.ParameterHandler
import PamoRxpBench.Autotest.ParameterEventManager
import PamoRxpBench.Library.Runs

/-!
# `autotest`: `exp_runner.main`

The measurement loop as a step function. One step is one attempt to measure the current
configuration; if there is none, the step first pops the next one and processes its
parameters. A step is not possible once the loop has ended.

What an attempt returns (`Attempt`) is arbitrary, and a session can be interrupted after any
attempt. What survives it is the file written by `save_state` (`Left`); `sessions` chains
interrupted sessions. `setup` removes the directory of the experiment on the remotes, so no session
finds a rule set there.
-/

namespace PamoRxpBench
namespace Autotest

open Runs

/-- What an experiment file defines: `g_test_parameters`, `g_nreps`, `g_param_filters`. -/
structure Experiment where
  testParams : List (String × List Value)
  nReps : ℕ
  paramFilters : List (ParamSet → Bool)

/-- What one of the two threads of an attempt leaves in its dictionary: the parsed results
and the entry `error`. -/
structure RunResult where
  fields : DataEntry
  error : Option String

/-- One pass through the `while not valid` loop. -/
structure Attempt where
  rxResult : RunResult
  txResult : RunResult

/-- `result`, once both dictionaries have been merged into it. -/
def Attempt.result (a : Attempt) : DataEntry :=
  (a.txResult.fields ∪ a.rxResult.fields).erase "error"

/-- Neither side reported an error. -/
def Attempt.noError (a : Attempt) : Bool := a.rxResult.error.isNone && a.txResult.error.isNone

/-- `validate_results`. -/
def validateResults (results : DataEntry) : Bool :=
  decide ("rgx_bs8_enq_brst_cnt" ∈ results) || decide ("hs_avg_scan_time_cycles" ∈ results)

/-- `main` between two attempts. `rendered`, `completed` and `measured` are ghosts: the last
configuration the callback rendered `prep_rules.sh` for, the completed parameter sets with
their accepted results, and for every attempt its configuration and the one rendered last. -/
structure Runner where
  exparams : ParameterHandler
  data : DataManager
  paramsEvts : ParameterEventManager
  current : Option (ParamSet × Config)
  resultFile : Option (List String)
  saveFile : Option SavedState
  rendered : Option Config
  completed : List (ParamSet × DataEntry)
  measured : List (Config × Option Config)

/-- What a session leaves for the next one: the state to resume from. -/
structure Left where
  saveFile : Option SavedState

/-- Nothing was run before. -/
def Left.nothing : Left := ⟨none⟩

/-- A session of `main`: the rows of the result file it starts with, and its attempts. -/
structure Session where
  rows : List DataEntry
  attempts : List Attempt

/-- The parameters the callback that renders `prep_rules.sh` is registered for. -/
def prepTrigger : List String := ["n_rules", "rgx_enabled", "rule_subset_ratio"]

/-- `curr_cfg`. -/
def currCfg (initConfig : Config) (params : ParamSet) : Config := params ∪ initConfig

namespace Runner

/-- The handler with its filters added, before the experiment starts. -/
def freshParams (e : Experiment) : ParameterHandler :=
  { ParameterHandler.init e.testParams e.nReps with paramFilters := e.paramFilters }

/-- The saved handler, if there is one and it has the hash of the experiment. -/
def loadedParams (e : Experiment) (py : PyHash) (save : Option SavedState) :
    Option ParameterHandler :=
  match save with
  | none => none
  | some state =>
    let loaded := ParameterHandler.loadState state
    if loaded.hash py = (freshParams e).hash py then some loaded else none

/-- `main` up to its loop, with the rows of the result file. -/
def main (e : Experiment) (py : PyHash) (left : Left) (rows : List DataEntry) : Runner :=
  let loaded := loadedParams e py left.saveFile
  { exparams := loaded.getD (freshParams e).buildConfigs
    data := if loaded.isSome then DataManager.init.loadFromCsv rows else DataManager.init
    paramsEvts := (ParameterEventManager.init (!loaded.isSome)).registerParameterEvent
      prepTrigger .disjunction
    current := none
    resultFile := none
    saveFile := left.saveFile
    rendered := none
    completed := []
    measured := [] }

/-- The head of the loop: pop the next parameter set and process it. -/
def nextParams (initConfig : Config) (r : Runner) : Option (Runner × ParamSet × Config) :=
  match r.exparams.peekParams with
  | (none, _) => none
  | (some _, exparams) =>
    match exparams.popParams with
    | (none, _) => none
    | (some params, exparams) =>
      (r.paramsEvts.processParameters params).map fun (called, paramsEvts) =>
        ({ r with
            exparams := exparams
            paramsEvts := paramsEvts
            rendered := if 0 ∈ called then some (currCfg initConfig params) else r.rendered },
          params, currCfg initConfig params)

/-- An attempt on `cfg` begins. -/
def record (r : Runner) (cfg : Config) : Runner :=
  { r with measured := r.measured ++ [(cfg, r.rendered)] }

/-- The attempt is over and the configuration is not. -/
def retry (r : Runner) (params : ParamSet) (cfg : Config) (data : DataManager) : Runner :=
  { r with data := data, current := some (params, cfg) }

/-- The result was added: export, save and leave the `while not valid` loop. -/
def complete (r : Runner) (params : ParamSet) (result : DataEntry) (data : DataManager) :
    Runner :=
  { r with
    data := data
    resultFile := some data.exportCsv
    saveFile := some r.exparams.saveState
    current := none
    completed := r.completed ++ [(params, result)] }

/-- One pass through the `while not valid` loop. When the results are rejected, the message
that is printed calls `add_entry` a second time, without `force`. -/
def attempt (r : Runner) (params : ParamSet) (cfg : Config) (a : Attempt) : Runner :=
  let r := r.record cfg
  if a.noError then
    if validateResults a.result then
      match r.data.addEntry a.result (some params) true true with
      | (true, data) => r.complete params a.result data
      | (false, data) =>
        r.retry params cfg (data.addEntry a.result (some params) false true).2
    else
      r.retry params cfg (r.data.addEntry a.result (some params) false true).2
  else
    r.retry params cfg r.data

/-- One attempt, on the current configuration or on the next one. -/
def step (initConfig : Config) (r : Runner) (a : Attempt) : Option Runner :=
  match r.current with
  | some (params, cfg) => some (r.attempt params cfg a)
  | none => (r.nextParams initConfig).map fun (r, params, cfg) => r.attempt params cfg a

end Runner

/-- Sessions that are each interrupted after their attempts and followed by one that resumes:
the parameter sets they completed, and what they leave. -/
def sessions (e : Experiment) (py : PyHash) (initConfig : Config) :
    Left → List Session → Option (List ParamSet × Left)
  | left, [] => some ([], left)
  | left, s :: rest =>
    (run (Runner.step initConfig) (Runner.main e py left s.rows) s.attempts).bind fun r =>
      (sessions e py initConfig ⟨r.saveFile⟩ rest).map fun (done, left) =>
        (r.completed.map Prod.fst ++ done, left)

end Autotest
end PamoRxpBench
