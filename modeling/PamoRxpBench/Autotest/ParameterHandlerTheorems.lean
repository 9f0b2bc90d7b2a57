import PamoRxpBench.Autotest.ParameterHandler

/-!
# The queue of configurations

`Queue h sets` says what a running handler still hands out. It turns `peek_params`,
`pop_params` and the loop over them into operations on `sets` (`Queue.peek_cons`,
`Queue.pop_cons`, `Queue.popAll`), and says what `start` and `load_state` put there.
-/

namespace PamoRxpBench
namespace Autotest
namespace ParameterHandler

/-- A running handler that hands out `sets`. -/
structure Queue (h : ParameterHandler) (sets : List ParamSet) : Prop where
  started : h.started = true
  paramsSets : h.paramsSets = sets.map some

variable {h : ParameterHandler} {p : ParamSet} {sets : List ParamSet}

theorem Queue.ensureStarted (hq : Queue h sets) : h.ensureStarted = h := by
  rw [ParameterHandler.ensureStarted, if_pos hq.started]

theorem Queue.peek_nil (hq : Queue h []) : h.peekParams = (none, h) := by
  rw [peekParams, hq.ensureStarted, hq.paramsSets]
  rfl

theorem Queue.peek_cons (hq : Queue h (p :: sets)) : h.peekParams = (some p, h) := by
  rw [peekParams, hq.ensureStarted, hq.paramsSets]
  rfl

/-- The handler after its first set was popped. -/
def afterPop (h : ParameterHandler) (p : ParamSet) (sets : List ParamSet) : ParameterHandler :=
  { h with
    paramsSets := sets.map some
    configsLeft := h.configsLeft - 1
    configsPopped := h.configsPopped + 1
    currParams := some p }

theorem Queue.pop_cons (hq : Queue h (p :: sets)) :
    h.popParams = (some p, h.afterPop p sets) := by
  rw [popParams, hq.ensureStarted, hq.paramsSets]
  rfl

theorem Queue.afterPop (hq : Queue h (p :: sets)) : Queue (h.afterPop p sets) sets :=
  ⟨hq.started, rfl⟩

/-- Popping until `peek_params` returns `None` returns the queue. -/
theorem Queue.popAll (hq : Queue h sets) {n : ℕ} (hn : sets.length ≤ n) : h.popAll n = sets := by
  induction n generalizing h sets with
  | zero =>
    rw [List.eq_nil_of_length_eq_zero (Nat.le_zero.mp hn)]
    rfl
  | succ n ih =>
    cases sets with
    | nil => simp only [ParameterHandler.popAll, hq.peek_nil]
    | cons p sets =>
      simp only [ParameterHandler.popAll, hq.peek_cons, hq.pop_cons]
      rw [ih hq.afterPop (Nat.le_of_succ_le_succ hn)]

theorem Queue.popUntilNone (hq : Queue h sets) : h.popUntilNone = sets := by
  refine hq.popAll ?_
  rw [hq.ensureStarted, hq.paramsSets, List.length_map]

/-! ## Where the queue comes from -/

theorem foldlM_addParamFilter (filters : List (ParamSet → Bool)) {h : ParameterHandler}
    (hstarted : h.started = false) :
    filters.foldlM addParamFilter h =
      some { h with paramFilters := h.paramFilters ++ filters } := by
  induction filters generalizing h with
  | nil => simp
  | cons f filters ih =>
    have hadd : h.addParamFilter f = some { h with paramFilters := h.paramFilters ++ [f] } := by
      rw [addParamFilter, if_neg (by simp [hstarted])]
    rw [List.foldlM_cons, hadd]
    have hrest := ih (h := { h with paramFilters := h.paramFilters ++ [f] }) hstarted
    rw [List.append_assoc] at hrest
    exact hrest

/-- The configurations of a grid: the accepted combinations, each repeated. -/
def configs (h : ParameterHandler) : List ParamSet :=
  (h.combinations.filter h.accepts).flatMap fun cfg => List.replicate h.nRepeats cfg

theorem buildConfigs_queue (hempty : h.paramsSets = []) : Queue h.buildConfigs h.configs where
  started := rfl
  paramsSets := by
    simp only [buildConfigs, hempty, List.nil_append, configs, List.map_flatMap,
      List.map_replicate]

/-- A saved state stands for the configuration being measured and those behind it. -/
theorem loadState_queue {s : SavedState} (hstarted : s.started = true)
    (hcurr : s.currParams = some p) (hsets : s.paramsSets = sets.map some) :
    Queue (loadState s) (p :: sets) where
  started := hstarted
  paramsSets := by
    simp only [loadState, hcurr, hsets, List.map_cons]

/-! ## The parameters of a configuration -/

theorem mem_foldl_insert (nvs : List (String × Value)) (cfg : ParamSet) (k : String) :
    k ∈ nvs.foldl (fun cfg nv => cfg.insert nv.1 nv.2) cfg ↔ k ∈ nvs.map Prod.fst ∨ k ∈ cfg := by
  induction nvs generalizing cfg with
  | nil => simp
  | cons nv nvs ih =>
    rw [List.foldl_cons, ih, AList.mem_insert, List.map_cons, List.mem_cons]
    grind

theorem length_of_mem_product {vals : List (List Value)} {c : List Value}
    (hc : c ∈ product vals) : c.length = vals.length := by
  induction vals generalizing c with
  | nil =>
    obtain rfl := List.mem_singleton.mp hc
    rfl
  | cons v vals ih =>
    obtain ⟨x, -, hx⟩ := List.mem_flatMap.mp hc
    obtain ⟨d, hd, rfl⟩ := List.mem_map.mp hx
    rw [List.length_cons, List.length_cons, ih hd]

/-- A configuration of a grid has the parameters of the grid. -/
theorem mem_configOf {names : List String} {vals : List (List Value)}
    (hlen : names.length = vals.length) {c : List Value} (hc : c ∈ product vals) (k : String) :
    k ∈ configOf names c ↔ k ∈ names := by
  rw [configOf, mem_foldl_insert, List.map_fst_zip]
  · simp
  · rw [hlen, length_of_mem_product hc]

theorem mem_of_mem_configs (hlen : h.parameterNames.length = h.parameterVals.length)
    {cfg : ParamSet} (hcfg : cfg ∈ h.configs) (k : String) :
    k ∈ cfg ↔ k ∈ h.parameterNames := by
  obtain ⟨c, hc, hrep⟩ := List.mem_flatMap.mp hcfg
  obtain rfl := (List.mem_replicate.mp hrep).2
  obtain ⟨d, hd, rfl⟩ := List.mem_map.mp (List.mem_filter.mp hc).1
  exact mem_configOf hlen hd k

end ParameterHandler
end Autotest
end PamoRxpBench
