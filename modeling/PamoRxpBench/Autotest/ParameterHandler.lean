import PamoRxpBench.Autotest.Results

/-!
# `autotest`: `ParameterHandler`

The configurations of an experiment: the product of the values of its parameters, filtered
and repeated, handed out one by one, and the state that is pickled between two of them.
-/

namespace PamoRxpBench
namespace Autotest

/-- `class ParameterHandler`. An entry of `paramsSets` is `none` only if a state saved before
the first pop was loaded. -/
structure ParameterHandler where
  nRepeats : ℕ
  started : Bool
  parameterNames : List String
  parameterVals : List (List Value)
  paramsSets : List (Option ParamSet)
  currParams : Option ParamSet
  paramFilters : List (ParamSet → Bool)
  filteredOutCnt : ℕ
  totalConfigs : ℕ
  configsLeft : ℤ
  configsPopped : ℕ

/-- `itertools.product`: the last list varies fastest. -/
def product : List (List Value) → List (List Value)
  | [] => [[]]
  | vals :: rest => vals.flatMap fun v => (product rest).map (v :: ·)

/-- `cfg[self.parameter_names[i]] = v` for every value of a combination. -/
def configOf (names : List String) (p : List Value) : ParamSet :=
  (names.zip p).foldl (fun cfg nv => cfg.insert nv.1 nv.2) ∅

/-- What `save_state` pickles. -/
structure SavedState where
  started : Bool
  parameterNames : List String
  parameterVals : List (List Value)
  paramsSets : List (Option ParamSet)
  nRepeats : ℕ
  configsLeft : ℤ
  configsPopped : ℕ
  currParams : Option ParamSet

/-- Python's `hash` on names and on tuples of values. -/
structure PyHash where
  name : String → ℤ
  vals : List Value → ℤ

namespace ParameterHandler

/-- `__init__`. -/
def init (params : List (String × List Value)) (nRepeats : ℕ) : ParameterHandler where
  nRepeats := nRepeats
  started := false
  parameterNames := params.map Prod.fst
  parameterVals := params.map Prod.snd
  paramsSets := []
  currParams := none
  paramFilters := []
  filteredOutCnt := 0
  totalConfigs := 0
  configsLeft := 0
  configsPopped := 0

/-- `add_param`; it raises on a running experiment. -/
def addParam (h : ParameterHandler) (name : String) (vals : List Value) :
    Option ParameterHandler :=
  if h.started then none
  else some { h with
    parameterNames := h.parameterNames ++ [name]
    parameterVals := h.parameterVals ++ [vals] }

/-- `add_param_filter`; it raises on a running experiment. -/
def addParamFilter (h : ParameterHandler) (f : ParamSet → Bool) : Option ParameterHandler :=
  if h.started then none else some { h with paramFilters := h.paramFilters ++ [f] }

/-- The combinations of the grid, as configurations. -/
def combinations (h : ParameterHandler) : List ParamSet :=
  (product h.parameterVals).map (configOf h.parameterNames)

/-- A combination is kept if every filter accepts it. -/
def accepts (h : ParameterHandler) (cfg : ParamSet) : Bool := h.paramFilters.all fun f => f cfg

/-- `_build_configs`. -/
def buildConfigs (h : ParameterHandler) : ParameterHandler :=
  let kept := h.combinations.filter h.accepts
  let paramsSets := h.paramsSets ++ kept.flatMap fun cfg => List.replicate h.nRepeats (some cfg)
  { h with
    paramsSets := paramsSets
    filteredOutCnt := h.filteredOutCnt + h.combinations.countP fun cfg => !h.accepts cfg
    configsLeft := paramsSets.length
    configsPopped := 0
    totalConfigs := paramsSets.length
    started := true }

/-- `start`; it raises on a running experiment. -/
def start (h : ParameterHandler) : Option ParameterHandler :=
  if h.started then none else some h.buildConfigs

/-- The first lines of `pop_params` and `peek_params`. -/
def ensureStarted (h : ParameterHandler) : ParameterHandler :=
  if h.started then h else h.buildConfigs

/-- `peek_params`. -/
def peekParams (h : ParameterHandler) : Option ParamSet × ParameterHandler :=
  let h := h.ensureStarted
  (h.paramsSets.head?.join, h)

/-- `pop_params`. -/
def popParams (h : ParameterHandler) : Option ParamSet × ParameterHandler :=
  let h := h.ensureStarted
  match h.paramsSets with
  | [] => (none, h)
  | ret :: rest =>
    (ret, { h with
      paramsSets := rest
      configsLeft := h.configsLeft - 1
      configsPopped := h.configsPopped + 1
      currParams := ret })

/-- `get_configs_popped`; it raises before the start. -/
def getConfigsPopped (h : ParameterHandler) : Option ℕ :=
  if h.started then some h.configsPopped else none

/-- `get_configs_left`; it raises before the start. -/
def getConfigsLeft (h : ParameterHandler) : Option ℤ :=
  if h.started then some h.configsLeft else none

/-- `get_total_configs`. -/
def getTotalConfigs (h : ParameterHandler) : ℕ := h.totalConfigs

/-- `get_nb_combs`. -/
def getNbCombs (h : ParameterHandler) : ℕ :=
  h.parameterVals.foldl (fun ret p => ret * p.length) h.nRepeats

/-- `__hash__`. -/
def hash (h : ParameterHandler) (py : PyHash) : ℤ :=
  (h.parameterNames.zip h.parameterVals).foldl
    (fun acc nv => (acc + (py.name nv.1 + py.vals nv.2)) % 15485863) 0

/-- `save_state`. -/
def saveState (h : ParameterHandler) : SavedState where
  started := h.started
  parameterNames := h.parameterNames
  parameterVals := h.parameterVals
  paramsSets := h.paramsSets
  nRepeats := h.nRepeats
  configsLeft := h.configsLeft
  configsPopped := h.configsPopped
  currParams := h.currParams

/-- `load_state`. -/
def loadState (state : SavedState) : ParameterHandler :=
  { init [] state.nRepeats with
    started := state.started
    parameterNames := state.parameterNames
    parameterVals := state.parameterVals
    -- the set popped last goes back to the front of the queue
    paramsSets := state.currParams :: state.paramsSets
    configsLeft := state.configsLeft
    configsPopped := state.configsPopped
    currParams := none }

/-- `while peek_params() is not None: pop_params()`, at most `n` times: what is popped. -/
def popAll : ℕ → ParameterHandler → List ParamSet
  | 0, _ => []
  | n + 1, h =>
    match h.peekParams with
    | (none, _) => []
    | (some _, h) =>
      match h.popParams with
      | (none, _) => []
      | (some params, h) => params :: popAll n h

/-- Everything that is popped until `peek_params` returns `None`. -/
def popUntilNone (h : ParameterHandler) : List ParamSet :=
  h.popAll h.ensureStarted.paramsSets.length

end ParameterHandler

end Autotest
end PamoRxpBench
