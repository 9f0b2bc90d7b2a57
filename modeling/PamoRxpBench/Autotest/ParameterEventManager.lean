import PamoRxpBench.Autotest.Results

/-!
# `autotest`: `ParameterEventManager`

Which callbacks a new parameter set sets off, from the parameters that changed.
-/

namespace PamoRxpBench
namespace Autotest

/-- `EVT_CONJUNCTION` and `EVT_DISJUNCTION`. -/
inductive EventMode
  | conjunction
  | disjunction
deriving DecidableEq, Repr

/-- `EventTrigger`: the mode and the set of parameters. -/
structure EventTrigger where
  mode : EventMode
  trigger : List String
deriving DecidableEq, Repr

/-- `class ParameterEventManager`. The `i`-th trigger belongs to the `i`-th callback. -/
structure ParameterEventManager where
  triggerOnBlank : Bool
  triggers : List EventTrigger
  previousParams : Option ParamSet

namespace ParameterEventManager

/-- `__init__`. -/
def init (triggerOnBlank : Bool) : ParameterEventManager := ⟨triggerOnBlank, [], none⟩

/-- `register_parameter_event`. -/
def registerParameterEvent (m : ParameterEventManager) (trigger : List String)
    (mode : EventMode) : ParameterEventManager :=
  { m with triggers := m.triggers ++ [⟨mode, trigger⟩] }

/-- `_get_param_diff`. A parameter that the new set lacks is a `KeyError`. -/
def getParamDiff (m : ParameterEventManager) (newParams : ParamSet) : Option (List String) :=
  match m.previousParams with
  | none => some (if m.triggerOnBlank then newParams.keys else [])
  | some previous =>
    if ∀ k ∈ previous.keys, k ∈ newParams then
      some (previous.keys.filter fun k => previous.lookup k ≠ newParams.lookup k)
    else none

/-- Whether a trigger goes off on the changed parameters. -/
def EventTrigger.goesOff (t : EventTrigger) (currTrigger : List String) : Bool :=
  match t.mode with
  | .disjunction => t.trigger.any fun k => k ∈ currTrigger
  | .conjunction => t.trigger.all fun k => k ∈ currTrigger

/-- `process_parameters`: the indices of the callbacks that are called, in order. -/
def processParameters (m : ParameterEventManager) (params : ParamSet) :
    Option (List ℕ × ParameterEventManager) :=
  (m.getParamDiff params).map fun currTrigger =>
    ((List.range m.triggers.length).filter fun i =>
        (m.triggers[i]?).any fun t => EventTrigger.goesOff t currTrigger,
      { m with previousParams := some params })

end ParameterEventManager

end Autotest
end PamoRxpBench
