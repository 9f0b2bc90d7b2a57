import PamoRxpBench.Autotest.DataManager
import Mathlib.Tactic.SplitIfs

/-!
# What `add_entry` does to the table

An entry is rejected when, after the columns it lacks were filled in, some column starts with
the invalid token (`hasInvalid_fillInvalid_iff`). Whether it is or not, its columns are
registered. An entry that is added becomes one row: the entry, the fillings, the index and
one column for each parameter (`rowOf_addEntry`).
-/

namespace PamoRxpBench
namespace Autotest

/-! ## Filling in columns -/

theorem mem_updateCols {resultLine : DataEntry} {cols : List String} {k : String} :
    k ∈ updateCols resultLine cols ↔ k ∈ cols ∨ k ∈ resultLine := by
  rw [updateCols, List.mem_union_iff, AList.mem_keys]

/-- The loop tests the entry itself, not the copy that it fills. -/
theorem lookup_foldl_fill (resultLine : DataEntry) (cols : List String) (tok k : String)
    (dicopy : DataEntry) :
    (cols.foldl (fun dicopy c => if c ∈ resultLine then dicopy
        else dicopy.insert c (.single (.str tok))) dicopy).lookup k
      = if k ∈ cols ∧ k ∉ resultLine then some (.single (.str tok)) else dicopy.lookup k := by
  induction cols generalizing dicopy with
  | nil => simp
  | cons c cols ih =>
    rw [List.foldl_cons, ih]
    by_cases hkc : k = c
    · subst hkc
      by_cases hk : k ∈ resultLine
      · simp [hk]
      · simp [hk]
    · by_cases hc : c ∈ resultLine
      · simp [hc, hkc]
      · simp [hc, hkc]

/-- Filling keeps what an entry has and gives the token to the other columns. -/
theorem lookup_fillInvalid (resultLine : DataEntry) (cols : List String) (tok k : String) :
    (fillInvalid resultLine cols tok).lookup k
      = match resultLine.lookup k with
        | some v => some v
        | none => if k ∈ cols then some (.single (.str tok)) else none := by
  rw [fillInvalid, lookup_foldl_fill]
  cases hk : resultLine.lookup k with
  | none =>
    have hmem : k ∉ resultLine := AList.lookup_eq_none.mp hk
    simp [hmem]
  | some v =>
    have hmem : k ∈ resultLine := AList.lookup_isSome.mp (by rw [hk]; rfl)
    simp [hmem]

/-- An entry is invalid if one of its columns starts with the token. -/
theorem hasInvalid_iff (entry : DataEntry) (tok : String) :
    hasInvalid entry tok = true ↔ ∃ k v, entry.lookup k = some v ∧ v.first = .str tok := by
  simp only [hasInvalid, List.any_eq_true, decide_eq_true_eq]
  constructor
  · rintro ⟨⟨k, v⟩, hkv, hv⟩
    exact ⟨k, v, AList.mem_lookup_iff.mpr hkv, hv⟩
  · rintro ⟨k, v, hkv, hv⟩
    exact ⟨⟨k, v⟩, AList.mem_lookup_iff.mp hkv, hv⟩

/-- A filled entry is invalid if a column had to be filled or the entry was invalid. -/
theorem hasInvalid_fillInvalid_iff (entry : DataEntry) (cols : List String) (tok : String) :
    hasInvalid (fillInvalid entry cols tok) tok = true ↔
      (∃ k ∈ cols, k ∉ entry) ∨ ∃ k v, entry.lookup k = some v ∧ v.first = .str tok := by
  rw [hasInvalid_iff]
  constructor
  · rintro ⟨k, v, hkv, hv⟩
    rw [lookup_fillInvalid] at hkv
    cases hk : entry.lookup k with
    | some w =>
      rw [hk] at hkv
      obtain rfl := Option.some.inj hkv
      exact Or.inr ⟨k, w, hk, hv⟩
    | none =>
      rw [hk] at hkv
      by_cases hmem : k ∈ cols
      · exact Or.inl ⟨k, hmem, AList.lookup_eq_none.mp hk⟩
      · simp [hmem] at hkv
  · rintro (⟨k, hk, hne⟩ | ⟨k, v, hkv, hv⟩)
    · refine ⟨k, .single (.str tok), ?_, rfl⟩
      rw [lookup_fillInvalid, AList.lookup_eq_none.mpr hne]
      simp [hk]
    · refine ⟨k, v, ?_, hv⟩
      rw [lookup_fillInvalid, hkv]

/-! ## The row of an entry -/

/-- `k` is the column of a parameter of `params`. -/
def IsParamCol (params : ParamSet) (k : String) : Prop := ∃ p ∈ params, k = "param_" ++ p

/-- `row` is the row of `entry` measured under `params`: it has every parameter and every
column of the entry, and apart from the index only the token besides. -/
structure RowOf (params : ParamSet) (entry row : DataEntry) : Prop where
  parameter : ∀ p v, params.lookup p = some v → row.lookup ("param_" ++ p) = some (.single v)
  column : ∀ k v, k ≠ "index" → ¬ IsParamCol params k → entry.lookup k = some v →
    row.lookup k = some v
  nothing_else : ∀ k v, k ≠ "index" → ¬ IsParamCol params k → entry.lookup k = none →
    row.lookup k = some v → v = .single (.str "NaN")

theorem append_left_injective (s : String) : Function.Injective fun t => s ++ t := by
  intro t u h
  simpa using h

/-- The columns of the parameters are set, and no other is touched. -/
theorem lookup_addParameters (params : ParamSet) (entry : DataEntry) :
    (∀ p v, params.lookup p = some v →
      (DataManager.addParameters "param_" params entry).lookup ("param_" ++ p)
        = some (.single v)) ∧
    ∀ k, ¬ IsParamCol params k →
      (DataManager.addParameters "param_" params entry).lookup k = entry.lookup k := by
  induction params using AList.insertRec generalizing entry with
  | H0 =>
    exact ⟨fun p v h => by simp at h, fun k _ => rfl⟩
  | IH q w params hq ih =>
    have hstep : DataManager.addParameters "param_" (params.insert q w) entry
        = DataManager.addParameters "param_" params
            (entry.insert ("param_" ++ q) (.single w)) := by
      simp only [DataManager.addParameters, AList.entries_insert_of_notMem hq, List.foldl_cons]
    obtain ⟨hset, hkeep⟩ := ih (entry.insert ("param_" ++ q) (.single w))
    rw [hstep]
    refine ⟨fun p v hv => ?_, fun k hk => ?_⟩
    · by_cases hpq : p = q
      · subst hpq
        -- no later parameter has the same column
        have hnot : ¬ IsParamCol params ("param_" ++ p) := by
          rintro ⟨p', hp', heq⟩
          exact hq (append_left_injective _ heq ▸ hp')
        rw [AList.lookup_insert] at hv
        rw [hkeep _ hnot, AList.lookup_insert, Option.some.inj hv]
      · rw [AList.lookup_insert_ne hpq] at hv
        exact hset p v hv
    · have hparams : ¬ IsParamCol params k := fun ⟨p, hp, heq⟩ =>
        hk ⟨p, (AList.mem_insert _).mpr (Or.inr hp), heq⟩
      have hne : k ≠ "param_" ++ q := fun heq =>
        hk ⟨q, (AList.mem_insert _).mpr (Or.inl rfl), heq⟩
      rw [hkeep k hparams, AList.lookup_insert_ne hne]

/-! ## Adding an entry -/

/-- The settings `exp_runner` leaves at their defaults; it computes no metrics. -/
structure Plain (data : DataManager) : Prop where
  invalidToken : data.invalidToken = "NaN"
  useIndex : data.useIndex = true
  parameterPrefix : data.parameterPrefix = "param_"
  metrics : data.metrics = []

theorem Plain.init : Plain DataManager.init := ⟨rfl, rfl, rfl, rfl⟩

variable {data : DataManager} {entry : DataEntry} {params : Option ParamSet}
  {force doUpdateCols : Bool}

theorem Plain.addEntry (h : Plain data) :
    Plain (data.addEntry entry params force doUpdateCols).2 := by
  simp only [DataManager.addEntry]
  split_ifs <;> exact ⟨h.invalidToken, h.useIndex, h.parameterPrefix, h.metrics⟩

/-- The columns of an entry are registered whether it is added or not. -/
theorem addEntry_columns :
    (data.addEntry entry params force doUpdateCols).2.columns
      = if doUpdateCols then updateCols entry data.columns else data.columns := by
  simp only [DataManager.addEntry]
  split_ifs <;> rfl

/-- With `force` every entry is added. -/
theorem addEntry_force : (data.addEntry entry params true doUpdateCols).1 = true := by
  simp [DataManager.addEntry]

/-- An invalid entry that is not forced adds no row. -/
theorem entries_addEntry_of_invalid
    (hinv : hasInvalid (fillInvalid entry (updateCols entry data.columns) data.invalidToken)
      data.invalidToken = true) :
    (data.addEntry entry params false true).2.entries = data.entries := by
  simp [DataManager.addEntry, hinv]

/-- Any other entry adds one row, its own. -/
theorem exists_row_addEntry (h : Plain data) (entry : DataEntry) (params : ParamSet)
    (hadd : force = true ∨ hasInvalid
      (fillInvalid entry (updateCols entry data.columns) data.invalidToken)
      data.invalidToken = false) :
    ∃ row, (data.addEntry entry (some params) force true).2.entries = data.entries ++ [row]
      ∧ RowOf params entry row := by
  rw [h.invalidToken] at hadd
  have hif : (hasInvalid (fillInvalid entry (updateCols entry data.columns) "NaN") "NaN"
      && !force) = false := by
    rcases hadd with rfl | hval
    · exact Bool.and_false _
    · rw [hval, Bool.false_and]
  refine ⟨DataManager.addParameters "param_" params
    ((fillInvalid entry (updateCols entry data.columns) "NaN").insert "index"
      (.single (.int data.rowIdx))), ?_, ?_⟩
  · simp only [DataManager.addEntry, if_true, hif, Bool.false_eq_true, if_false, h.useIndex,
      h.parameterPrefix, h.invalidToken, DataManager.computeMetrics, h.metrics, List.foldl_nil]
  · obtain ⟨hset, hkeep⟩ := lookup_addParameters params
      ((fillInvalid entry (updateCols entry data.columns) "NaN").insert "index"
        (.single (.int data.rowIdx)))
    refine ⟨hset, fun k v hk hp hv => ?_, fun k v hk hp hv hrow => ?_⟩
    · rw [hkeep k hp, AList.lookup_insert_ne hk, lookup_fillInvalid, hv]
    · rw [hkeep k hp, AList.lookup_insert_ne hk, lookup_fillInvalid, hv] at hrow
      by_cases hmem : k ∈ updateCols entry data.columns
      · simp only [hmem, if_true, Option.some.injEq] at hrow
        exact hrow.symm
      · simp [hmem] at hrow

/-- Loading a file registers no columns. -/
theorem loadFromCsv_columns (rows : List DataEntry) :
    (data.loadFromCsv rows).columns = data.columns := by
  induction rows generalizing data with
  | nil => rfl
  | cons row rows ih =>
    rw [DataManager.loadFromCsv, List.foldl_cons]
    exact ih.trans addEntry_columns

theorem Plain.loadFromCsv (h : Plain data) (rows : List DataEntry) :
    Plain (data.loadFromCsv rows) := by
  induction rows generalizing data with
  | nil => exact h
  | cons row rows ih => exact ih h.addEntry

end Autotest
end PamoRxpBench
