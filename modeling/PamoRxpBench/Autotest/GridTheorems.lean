import PamoRxpBench.Autotest.ParameterHandlerTheorems
import PamoRxpBench.Library.Grid

/-!
# The grid of configurations

What `start` puts in the queue, as positions: a position chooses a value of every parameter by
its index (`configAt`). The queue holds the configurations of the positions that all filters
accept, in the lexicographic order of the positions, each repeated.
-/

namespace PamoRxpBench
namespace Autotest
namespace ParameterHandler

/-- A position chooses a value of every parameter. -/
def IsPosition (params : List (String × List Value)) (pos : List ℕ) : Prop :=
  List.Forall₂ (fun i p => i < p.2.length) pos params

/-- The value at an index that is in range. -/
def valueAt (vals : List Value) (i : ℕ) : Value := vals.getD i (.int 0)

/-- The values chosen by a position. -/
def valuesAt (params : List (String × List Value)) (pos : List ℕ) : List Value :=
  (params.zip pos).map fun pi => valueAt pi.1.2 pi.2

/-- The configuration chosen by a position. -/
def configAt (params : List (String × List Value)) (pos : List ℕ) : ParamSet :=
  configOf (params.map Prod.fst) (valuesAt params pos)

/-- Equality of dictionaries: the same keys with the same values, in any order. -/
def sameDict (cfg cfg' : ParamSet) : Bool := cfg.entries.isPerm cfg'.entries

/-- `h` has expanded the grid of `params`, and `kept` are the positions in its queue. -/
structure GridOf (params : List (String × List Value)) (filters : List (ParamSet → Bool))
    (nRepeats : ℕ) (h : ParameterHandler) (kept : List (List ℕ)) : Prop where
  ordered : kept.Pairwise (List.Lex (· < ·))
  complete : ∀ pos, pos ∈ kept ↔
    IsPosition params pos ∧ ∀ f ∈ filters, f (configAt params pos) = true
  paramsSets : h.paramsSets =
    kept.flatMap fun pos => List.replicate nRepeats (some (configAt params pos))
  /-- A configuration has the names of the parameters, and at each the chosen value. -/
  config : ∀ pos ∈ kept, (∀ k, k ∈ configAt params pos ↔ k ∈ params.map Prod.fst) ∧
    ∀ pi ∈ params.zip pos, (configAt params pos).lookup pi.1.1 = pi.1.2[pi.2]?
  times : ∀ pos ∈ kept,
    h.paramsSets.countP (fun cfg => cfg.any (sameDict (configAt params pos))) = nRepeats
  count : h.paramsSets.length + nRepeats * h.filteredOutCnt = h.getNbCombs

variable {params : List (String × List Value)} {filters : List (ParamSet → Bool)}
  {nRepeats : ℕ} {pos pos' : List ℕ}

/-! ## Positions and combinations -/

theorem map_valueAt_range (vals : List Value) :
    (List.range vals.length).map (valueAt vals) = vals := by
  apply List.ext_getElem
  · simp
  · intro i hi hi'
    simp [valueAt, hi']

/-- `itertools.product` goes through the positions in their order. -/
theorem product_eq_map_positions (params : List (String × List Value)) :
    product (params.map Prod.snd)
      = (Grid.positions (params.map fun p => p.2.length)).map (valuesAt params) := by
  induction params with
  | nil => rfl
  | cons p params ih =>
    rw [List.map_cons, product, ih, List.map_cons, Grid.positions, List.map_flatMap]
    conv_lhs => rw [← map_valueAt_range p.2]
    rw [List.flatMap_map]
    apply List.flatMap_congr
    intro i _
    rw [List.map_map, List.map_map]
    rfl

theorem mem_positions_iff :
    pos ∈ Grid.positions (params.map fun p => p.2.length) ↔ IsPosition params pos := by
  rw [Grid.mem_positions, List.forall₂_map_right_iff]
  rfl

/-! ## The configuration of a position -/

theorem lookup_foldl_insert_of_notMem {nvs : List (String × Value)} {k : String}
    (hk : k ∉ nvs.map Prod.fst) (cfg : ParamSet) :
    (nvs.foldl (fun cfg nv => cfg.insert nv.1 nv.2) cfg).lookup k = cfg.lookup k := by
  induction nvs generalizing cfg with
  | nil => rfl
  | cons nv nvs ih =>
    rw [List.map_cons, List.mem_cons, not_or] at hk
    rw [List.foldl_cons, ih hk.2, AList.lookup_insert_ne hk.1]

/-- With distinct names no assignment of the loop is overwritten. -/
theorem lookup_foldl_insert {nvs : List (String × Value)} (hnames : (nvs.map Prod.fst).Nodup)
    {nv : String × Value} (hnv : nv ∈ nvs) (cfg : ParamSet) :
    (nvs.foldl (fun cfg nv => cfg.insert nv.1 nv.2) cfg).lookup nv.1 = some nv.2 := by
  induction nvs generalizing cfg with
  | nil => cases hnv
  | cons a nvs ih =>
    rw [List.map_cons, List.nodup_cons] at hnames
    rw [List.foldl_cons]
    match List.mem_cons.mp hnv with
    | .inl heq =>
      rw [heq, lookup_foldl_insert_of_notMem hnames.1, AList.lookup_insert]
    | .inr hmem => exact ih hnames.2 hmem _

theorem length_valuesAt (h : IsPosition params pos) :
    (valuesAt params pos).length = params.length := by
  have hlen : pos.length = params.length := h.length_eq
  rw [valuesAt, List.length_map, List.length_zip, hlen, Nat.min_self]

theorem mem_configAt (h : IsPosition params pos) (k : String) :
    k ∈ configAt params pos ↔ k ∈ params.map Prod.fst := by
  rw [configAt, configOf, mem_foldl_insert, List.map_fst_zip]
  · simp
  · rw [List.length_map, length_valuesAt h]

theorem lt_of_mem_zip (h : IsPosition params pos) {pi : (String × List Value) × ℕ}
    (hpi : pi ∈ params.zip pos) : pi.2 < pi.1.2.length := by
  induction h with
  | nil => cases hpi
  | cons hlt _ ih =>
    match List.mem_cons.mp hpi with
    | .inl heq => rw [heq]; exact hlt
    | .inr hmem => exact ih hmem

theorem zip_valuesAt (params : List (String × List Value)) (pos : List ℕ) :
    (params.map Prod.fst).zip (valuesAt params pos)
      = (params.zip pos).map fun pi => (pi.1.1, valueAt pi.1.2 pi.2) := by
  unfold valuesAt
  induction params generalizing pos with
  | nil => rfl
  | cons p params ih =>
    match pos with
    | [] => rfl
    | i :: pos => exact congrArg (_ :: ·) (ih pos)

/-- A configuration has each parameter with the value of its position. -/
theorem lookup_configAt (hnames : (params.map Prod.fst).Nodup) (h : IsPosition params pos)
    {pi : (String × List Value) × ℕ} (hpi : pi ∈ params.zip pos) :
    (configAt params pos).lookup pi.1.1 = pi.1.2[pi.2]? := by
  have hlt := lt_of_mem_zip h hpi
  have hfst : ((params.zip pos).map fun pi => (pi.1.1, valueAt pi.1.2 pi.2)).map Prod.fst
      = params.map Prod.fst := by
    rw [← zip_valuesAt, List.map_fst_zip]
    rw [List.length_map, length_valuesAt h]
  have hlookup := lookup_foldl_insert (by rw [hfst]; exact hnames)
    (List.mem_map.mpr ⟨pi, hpi, rfl⟩) ∅
  rw [configAt, configOf, zip_valuesAt]
  refine hlookup.trans ?_
  rw [List.getElem?_eq_getElem hlt]
  exact congrArg some (by rw [valueAt, List.getD_eq_getElem?_getD, List.getElem?_eq_getElem hlt,
    Option.getD_some])

/-- Positions with the same configuration are the same. -/
theorem eq_of_sameDict (hnames : (params.map Prod.fst).Nodup) (hvals : ∀ p ∈ params, p.2.Nodup)
    (h : IsPosition params pos) (h' : IsPosition params pos')
    (hsame : sameDict (configAt params pos) (configAt params pos') = true) : pos = pos' := by
  have hperm := List.isPerm_iff.mp hsame
  have hlen : pos.length = params.length := h.length_eq
  have hlen' : pos'.length = params.length := h'.length_eq
  apply List.ext_getElem (hlen.trans hlen'.symm)
  intro i hi hi'
  have hip : i < params.length := by omega
  -- both configurations have the value of parameter `i` under its name
  have hmem : (params[i], pos[i]) ∈ params.zip pos := by
    have hz : i < (params.zip pos).length := by rw [List.length_zip]; omega
    rw [← List.getElem_zip (h := hz)]
    exact List.getElem_mem hz
  have hmem' : (params[i], pos'[i]) ∈ params.zip pos' := by
    have hz : i < (params.zip pos').length := by rw [List.length_zip]; omega
    rw [← List.getElem_zip (h := hz)]
    exact List.getElem_mem hz
  have hval := lookup_configAt hnames h hmem
  have hval' := lookup_configAt hnames h' hmem'
  rw [AList.perm_lookup hperm] at hval
  have heq : params[i].2[pos[i]]? = params[i].2[pos'[i]]? := hval.symm.trans hval'
  exact (List.getElem?_inj (lt_of_mem_zip h hmem) (hvals _ (List.getElem_mem hip))).mp heq

theorem sameDict_self (cfg : ParamSet) : sameDict cfg cfg = true :=
  List.isPerm_iff.mpr (List.Perm.refl _)

/-! ## The queue -/

/-- The positions that all filters accept. -/
def keptPositions (params : List (String × List Value)) (filters : List (ParamSet → Bool)) :
    List (List ℕ) :=
  (Grid.positions (params.map fun p => p.2.length)).filter
    fun pos => filters.all fun f => f (configAt params pos)

/-- The handler after `__init__` and a call of `add_param_filter` for each filter. -/
def withFilters (params : List (String × List Value)) (filters : List (ParamSet → Bool))
    (nRepeats : ℕ) : ParameterHandler :=
  { init params nRepeats with paramFilters := filters }

theorem combinations_withFilters :
    (withFilters params filters nRepeats).combinations
      = (Grid.positions (params.map fun p => p.2.length)).map (configAt params) := by
  unfold combinations
  show (product (params.map Prod.snd)).map (configOf (params.map Prod.fst)) = _
  rw [product_eq_map_positions, List.map_map]
  rfl

theorem filter_combinations :
    (withFilters params filters nRepeats).combinations.filter
        (withFilters params filters nRepeats).accepts
      = (keptPositions params filters).map (configAt params) := by
  rw [combinations_withFilters, List.filter_map]
  rfl

/-- The sequence has the configurations of the grid that the filters keep, each repeated. -/
theorem paramsSets_buildConfigs :
    (withFilters params filters nRepeats).buildConfigs.paramsSets
      = (keptPositions params filters).flatMap
          fun pos => List.replicate nRepeats (some (configAt params pos)) := by
  have hqueue : Queue (withFilters params filters nRepeats).buildConfigs _ :=
    buildConfigs_queue rfl
  rw [hqueue.paramsSets, configs, filter_combinations, List.flatMap_map, List.map_flatMap]
  apply List.flatMap_congr
  intro pos _
  rw [List.map_replicate]
  rfl

/-- The filters split the positions. -/
theorem length_keptPositions_add :
    (keptPositions params filters).length
        + (withFilters params filters nRepeats).buildConfigs.filteredOutCnt
      = (Grid.positions (params.map fun p => p.2.length)).length := by
  have hout : (withFilters params filters nRepeats).buildConfigs.filteredOutCnt
      = (Grid.positions (params.map fun p => p.2.length)).countP
          fun pos => !filters.all fun f => f (configAt params pos) := by
    show 0 + (withFilters params filters nRepeats).combinations.countP _ = _
    rw [Nat.zero_add, combinations_withFilters, List.countP_map]
    rfl
  rw [hout, keptPositions, ← List.countP_eq_length_filter,
    List.length_eq_countP_add_countP (fun pos => filters.all fun f => f (configAt params pos))]
  refine congrArg _ (congrArg (List.countP · _) (funext fun pos => ?_))
  cases filters.all fun f => f (configAt params pos) <;> rfl

theorem getNbCombs_buildConfigs :
    (withFilters params filters nRepeats).buildConfigs.getNbCombs
      = nRepeats * (Grid.positions (params.map fun p => p.2.length)).length := by
  show (params.map Prod.snd).foldl (fun ret p => ret * p.length) nRepeats = _
  rw [← Grid.length_positions, List.foldl_map, List.foldl_map]

theorem mem_keptPositions :
    pos ∈ keptPositions params filters ↔
      IsPosition params pos ∧ ∀ f ∈ filters, f (configAt params pos) = true := by
  rw [keptPositions, List.mem_filter, mem_positions_iff, List.all_eq_true]

/-- Filters are added to a fresh handler and it is started: its queue is the filtered grid. -/
theorem start_gridOf (filters : List (ParamSet → Bool)) (nRepeats : ℕ)
    (hnames : (params.map Prod.fst).Nodup) (hvals : ∀ p ∈ params, p.2.Nodup) :
    ∃ h h' kept, filters.foldlM addParamFilter (init params nRepeats) = some h ∧
      h.start = some h' ∧ GridOf params filters nRepeats h' kept := by
  refine ⟨withFilters params filters nRepeats, (withFilters params filters nRepeats).buildConfigs,
    keptPositions params filters, foldlM_addParamFilter filters rfl, rfl, ?_⟩
  have hsets : (withFilters params filters nRepeats).buildConfigs.paramsSets = _ :=
    paramsSets_buildConfigs
  constructor
  case ordered => exact (Grid.pairwise_lex_positions _).filter _
  case complete => exact fun pos => mem_keptPositions
  case paramsSets => exact hsets
  case config =>
    intro pos hpos
    have hposition := (mem_keptPositions.mp hpos).1
    exact ⟨mem_configAt hposition, fun pi hpi => lookup_configAt hnames hposition hpi⟩
  case times =>
    intro pos hpos
    rw [hsets]
    apply Grid.countP_flatMap_replicate nRepeats _ ((Grid.nodup_positions _).filter _) hpos
    intro pos' hpos'
    -- positions with the same configuration are the same
    rw [Option.any_some]
    constructor
    · intro hsame
      exact (eq_of_sameDict hnames hvals (mem_keptPositions.mp hpos).1
        (mem_keptPositions.mp hpos').1 hsame).symm
    · intro heq
      rw [heq]
      exact sameDict_self _
  case count =>
    rw [hsets, Grid.length_flatMap_replicate, getNbCombs_buildConfigs, ← Nat.mul_add,
      length_keptPositions_add]

/-- Two parameters of two values, without the combination `a = 1`, `b = y`. -/
theorem start_gridOf_twoParams :
    ∃ h h' kept,
      [fun cfg : ParamSet => !(cfg.lookup "a" == some (.int 1) && cfg.lookup "b" == some (.str "y"))
        ].foldlM addParamFilter
        (init [("a", [.int 1, .int 2]), ("b", [.str "x", .str "y"])] 3) = some h ∧
      h.start = some h' ∧
      GridOf [("a", [.int 1, .int 2]), ("b", [.str "x", .str "y"])]
        [fun cfg => !(cfg.lookup "a" == some (.int 1) && cfg.lookup "b" == some (.str "y"))]
        3 h' kept :=
  start_gridOf _ _ (by decide) (by decide)

end ParameterHandler
end Autotest
end PamoRxpBench
