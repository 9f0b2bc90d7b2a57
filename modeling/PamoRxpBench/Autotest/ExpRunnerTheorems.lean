import PamoRxpBench.Autotest.ExpRunner
import PamoRxpBench.Autotest.DataManagerTheorems
import PamoRxpBench.Autotest.ParameterHandlerTheorems

/-!
# One row for each configuration

What a step of the measurement loop can do is said once (`step_cases`, `attempt_of_accepted`,
`attempt_of_rejected`, `attempt_of_error`). From it follows which columns are registered after
any attempts (`Table`) and when the table holds one row for each completed configuration
(`rowPerConfig_iff`): the message printed for rejected results adds them to the table as well,
unless they lack a registered column or hold the invalid token.
-/

namespace PamoRxpBench
namespace Autotest

open Runs

/-- The attempt completes its configuration. -/
def Attempt.accepted (a : Attempt) : Bool := a.noError && validateResults a.result

/-- Both sides ran, and the results were not valid. -/
def Attempt.rejected (a : Attempt) : Bool := a.noError && !validateResults a.result

/-! ## One attempt -/

section Attempt

variable (r : Runner) (params : ParamSet) (cfg : Config) {a : Attempt}

theorem attempt_of_accepted (h : a.accepted = true) :
    r.attempt params cfg a
      = (r.record cfg).complete params a.result
          (r.data.addEntry a.result (some params) true true).2 := by
  obtain ⟨hok, hval⟩ := Bool.and_eq_true_iff.mp h
  have hadd : (r.record cfg).data.addEntry a.result (some params) true true
      = (true, (r.data.addEntry a.result (some params) true true).2) :=
    Prod.ext addEntry_force rfl
  simp only [Runner.attempt, hok, hval, if_true, hadd]

theorem attempt_of_rejected (h : a.rejected = true) :
    r.attempt params cfg a
      = (r.record cfg).retry params cfg
          (r.data.addEntry a.result (some params) false true).2 := by
  obtain ⟨hok, hval⟩ := Bool.and_eq_true_iff.mp h
  rw [Bool.not_eq_true'] at hval
  simp only [Runner.attempt, hok, hval, if_true, Bool.false_eq_true, if_false]
  rfl

theorem attempt_of_error (h : a.noError = false) :
    r.attempt params cfg a = (r.record cfg).retry params cfg r.data := by
  simp only [Runner.attempt, h, Bool.false_eq_true, if_false]
  rfl

/-- The three outcomes of an attempt. -/
theorem Attempt.outcome (a : Attempt) :
    a.accepted = true ∨ a.rejected = true ∨ a.noError = false := by
  unfold Attempt.accepted Attempt.rejected
  cases a.noError <;> cases validateResults a.result <;> simp

theorem Attempt.rejected_not_accepted (h : a.rejected = true) : a.accepted = false := by
  unfold Attempt.rejected at h
  unfold Attempt.accepted
  cases hok : a.noError <;> cases hval : validateResults a.result <;> simp_all

theorem Attempt.noError_of_accepted (h : a.accepted = true) : a.noError = true :=
  (Bool.and_eq_true_iff.mp h).1

theorem Attempt.noError_of_rejected (h : a.rejected = true) : a.noError = true :=
  (Bool.and_eq_true_iff.mp h).1

/-- Without a completion the attempt is over and the configuration is not. -/
theorem attempt_of_not_accepted (h : a.accepted = false) :
    ∃ data, r.attempt params cfg a = (r.record cfg).retry params cfg data := by
  rcases a.outcome with hacc | hrej | herr
  · rw [h] at hacc
    cases hacc
  · exact ⟨_, attempt_of_rejected r params cfg hrej⟩
  · exact ⟨_, attempt_of_error r params cfg herr⟩

end Attempt

/-! ## One step -/

/-- The configuration a step measures: the current one, or the next one if there is none. -/
inductive Picked (initConfig : Config) (r : Runner) : Runner → ParamSet → Config → Prop
  | current {params : ParamSet} {cfg : Config} (hcur : r.current = some (params, cfg)) :
      Picked initConfig r r params cfg
  | next {r₁ : Runner} {params : ParamSet} {cfg : Config} (hcur : r.current = none)
      (hnext : r.nextParams initConfig = some (r₁, params, cfg)) :
      Picked initConfig r r₁ params cfg

/-- A step is one attempt on the configuration it picks. -/
theorem step_cases {initConfig : Config} {r r' : Runner} {a : Attempt}
    (h : r.step initConfig a = some r') :
    ∃ r₁ params cfg, Picked initConfig r r₁ params cfg ∧ r' = r₁.attempt params cfg a := by
  unfold Runner.step at h
  split at h
  · rename_i params cfg hcur
    exact ⟨r, params, cfg, .current hcur, (Option.some.inj h).symm⟩
  · rename_i hcur
    obtain ⟨⟨r₁, params, cfg⟩, hnext, rfl⟩ := Option.map_eq_some_iff.mp h
    exact ⟨r₁, params, cfg, .next hcur hnext, rfl⟩

/-- Picking a configuration leaves the results and the files alone. -/
theorem Picked.frame {initConfig : Config} {r r₁ : Runner} {params : ParamSet} {cfg : Config}
    (h : Picked initConfig r r₁ params cfg) :
    r₁.data = r.data ∧ r₁.completed = r.completed ∧ r₁.resultFile = r.resultFile
      ∧ r₁.saveFile = r.saveFile ∧ r₁.measured = r.measured := by
  cases h with
  | current hcur => exact ⟨rfl, rfl, rfl, rfl, rfl⟩
  | next hcur hnext =>
    unfold Runner.nextParams at hnext
    split at hnext
    · cases hnext
    · split at hnext
      · cases hnext
      · obtain ⟨x, -, hx⟩ := Option.map_eq_some_iff.mp hnext
        cases hx
        exact ⟨rfl, rfl, rfl, rfl, rfl⟩

/-! ## The columns registered so far -/

/-- The table after the attempts `as`: its columns are those of the results that were not
lost to an error, accepted or not. -/
structure Table (as : List Attempt) (r : Runner) : Prop where
  plain : Plain r.data
  columns : ∀ k, k ∈ r.data.columns ↔ ∃ b ∈ as, b.noError = true ∧ k ∈ b.result

theorem Table.main (e : Experiment) (py : PyHash) (left : Left) (rows : List DataEntry) :
    Table [] (Runner.main e py left rows) := by
  unfold Runner.main
  dsimp only
  split
  · refine ⟨Plain.init.loadFromCsv rows, fun k => ?_⟩
    rw [loadFromCsv_columns]
    simp [DataManager.init]
  · exact ⟨Plain.init, fun k => by simp [DataManager.init]⟩

/-- Adding the results of an attempt, forced or not, registers their columns. -/
theorem Table.addEntry {as : List Attempt} {r : Runner} (h : Table as r) {a : Attempt}
    (hok : a.noError = true) (params : ParamSet) (force : Bool) :
    Plain (r.data.addEntry a.result (some params) force true).2 ∧
      ∀ k, k ∈ (r.data.addEntry a.result (some params) force true).2.columns ↔
        ∃ b ∈ as ++ [a], b.noError = true ∧ k ∈ b.result := by
  refine ⟨h.plain.addEntry, fun k => ?_⟩
  rw [addEntry_columns, if_pos rfl, mem_updateCols, h.columns]
  constructor
  · rintro (⟨b, hb, hbk⟩ | hk)
    · exact ⟨b, List.mem_append_left _ hb, hbk⟩
    · exact ⟨a, by simp, hok, hk⟩
  · rintro ⟨b, hb, hbok, hk⟩
    rcases List.mem_append.mp hb with hb | hb
    · exact Or.inl ⟨b, hb, hbok, hk⟩
    · exact Or.inr (List.mem_singleton.mp hb ▸ hk)

/-- An accepted attempt adds its row, any other one adds none. -/
theorem Table.step {initConfig : Config} {as : List Attempt} {r r' : Runner} {a : Attempt}
    (h : Table as r) (hstep : r.step initConfig a = some r') : Table (as ++ [a]) r' := by
  obtain ⟨r₁, params, cfg, hpick, rfl⟩ := step_cases hstep
  have hdata := hpick.frame.1
  have h₁ : Table as r₁ := ⟨by rw [hdata]; exact h.plain, by rw [hdata]; exact h.columns⟩
  rcases a.outcome with hacc | hrej | herr
  · rw [attempt_of_accepted r₁ params cfg hacc]
    obtain ⟨hplain, hcols⟩ := h₁.addEntry (Attempt.noError_of_accepted hacc) params true
    exact ⟨hplain, hcols⟩
  · rw [attempt_of_rejected r₁ params cfg hrej]
    obtain ⟨hplain, hcols⟩ := h₁.addEntry (Attempt.noError_of_rejected hrej) params false
    exact ⟨hplain, hcols⟩
  · rw [attempt_of_error r₁ params cfg herr]
    refine ⟨h₁.plain, fun k => ?_⟩
    rw [show ((r₁.record cfg).retry params cfg r₁.data).data = r₁.data from rfl, h₁.columns]
    constructor
    · rintro ⟨b, hb, hbk⟩
      exact ⟨b, List.mem_append_left _ hb, hbk⟩
    · rintro ⟨b, hb, hbok, hk⟩
      rcases List.mem_append.mp hb with hb | hb
      · exact ⟨b, hb, hbok, hk⟩
      · rw [List.mem_singleton.mp hb, herr] at hbok
        cases hbok

/-! ## One row for each completed configuration -/

/-- `start.data` has grown by one row for each completed configuration, in order, and the
last export holds just these rows. -/
def OneRowEach (start r : Runner) : Prop :=
  ∃ rows, r.data.entries = start.data.entries ++ rows ∧
    List.Forall₂ (fun c row => RowOf c.1 c.2 row) r.completed rows ∧
    r.resultFile = if r.completed = [] then none
      else some (resultsToCsv (start.data.entries ++ rows))

/-- After any number of the attempts there is one row for each completed configuration, and
an attempt that fails or is rejected adds none. -/
structure RowPerConfig (initConfig : Config) (start : Runner) (as : List Attempt) : Prop where
  one_row : ∀ pre, pre <+: as → ∀ r, run (Runner.step initConfig) start pre = some r →
    OneRowEach start r
  unchanged : ∀ pre a, pre ++ [a] <+: as → a.accepted = false →
    ∀ r r', run (Runner.step initConfig) start pre = some r → r.step initConfig a = some r' →
      r'.data.entries = r.data.entries

/-- The results of `a` lack a column of an earlier result, or hold the invalid token. -/
def Incomplete (earlier : List Attempt) (a : Attempt) : Prop :=
  (∃ b ∈ earlier, b.noError = true ∧ ∃ k ∈ b.result, k ∉ a.result) ∨
    ∃ k v, a.result.lookup k = some v ∧ v.first = .str "NaN"

/-- Rejected results are invalid to `add_entry` exactly when they are incomplete. -/
theorem Table.hasInvalid_iff {as : List Attempt} {r : Runner} (h : Table as r) (a : Attempt) :
    hasInvalid (fillInvalid a.result (updateCols a.result r.data.columns) r.data.invalidToken)
      r.data.invalidToken = true ↔ Incomplete as a := by
  rw [h.plain.invalidToken, hasInvalid_fillInvalid_iff, Incomplete]
  refine or_congr_left ?_
  constructor
  · rintro ⟨k, hk, hne⟩
    rcases mem_updateCols.mp hk with hk | hk
    · obtain ⟨b, hb, hok, hbk⟩ := (h.columns k).mp hk
      exact ⟨b, hb, hok, k, hbk, hne⟩
    · exact absurd hk hne
  · rintro ⟨b, hb, hok, k, hbk, hne⟩
    exact ⟨k, mem_updateCols.mpr (Or.inl ((h.columns k).mpr ⟨b, hb, hok, hbk⟩)), hne⟩

/-- A step that does not complete its configuration keeps the table, unless it is rejected
with complete results. -/
theorem entries_step {initConfig : Config} {as : List Attempt} {r r' : Runner} {a : Attempt}
    (h : Table as r) (hstep : r.step initConfig a = some r') (hacc : a.accepted = false) :
    r'.data.entries = r.data.entries ↔ (a.rejected = true → Incomplete as a) := by
  obtain ⟨r₁, params, cfg, hpick, rfl⟩ := step_cases hstep
  have hdata := hpick.frame.1
  rcases a.outcome with hacc' | hrej | herr
  · rw [hacc] at hacc'
    cases hacc'
  · rw [attempt_of_rejected r₁ params cfg hrej, ← h.hasInvalid_iff a]
    show (r₁.data.addEntry a.result (some params) false true).2.entries = _ ↔ _
    rw [hdata]
    constructor
    · intro hsame _
      by_contra hval
      obtain ⟨row, hrow, -⟩ := exists_row_addEntry h.plain a.result params
        (Or.inr (Bool.not_eq_true _ ▸ hval) : false = true ∨ _)
      rw [hsame] at hrow
      exact absurd (congrArg List.length hrow) (by simp)
    · intro hinv
      exact entries_addEntry_of_invalid (hinv hrej)
  · rw [attempt_of_error r₁ params cfg herr]
    have hrej : a.rejected = false := by rw [Attempt.rejected, herr, Bool.false_and]
    simp [Runner.retry, hdata, hrej]

/-- What a step that does not complete its configuration keeps. -/
theorem step_of_not_accepted {initConfig : Config} {r r' : Runner} {a : Attempt}
    (hstep : r.step initConfig a = some r') (hacc : a.accepted = false) :
    r'.completed = r.completed ∧ r'.resultFile = r.resultFile ∧ r'.saveFile = r.saveFile := by
  obtain ⟨r₁, params, cfg, hpick, rfl⟩ := step_cases hstep
  obtain ⟨-, hcompleted, hresult, hsave, -⟩ := hpick.frame
  obtain ⟨data, hdata⟩ := attempt_of_not_accepted r₁ params cfg hacc
  rw [hdata]
  exact ⟨hcompleted, hresult, hsave⟩

/-- An accepted attempt adds its row and exports the table. -/
theorem OneRowEach.step_of_accepted {initConfig : Config} {as : List Attempt} {start r r' : Runner}
    {a : Attempt} (h : OneRowEach start r) (htable : Table as r)
    (hstep : r.step initConfig a = some r') (hacc : a.accepted = true) : OneRowEach start r' := by
  obtain ⟨r₁, params, cfg, hpick, rfl⟩ := step_cases hstep
  obtain ⟨hdata, hcompleted, -⟩ := hpick.frame
  obtain ⟨rows, hentries, hrows, -⟩ := h
  obtain ⟨row, hadd, hrow⟩ := exists_row_addEntry htable.plain a.result params
    (Or.inl rfl : true = true ∨ _)
  rw [attempt_of_accepted r₁ params cfg hacc]
  have hnew : (r₁.data.addEntry a.result (some params) true true).2.entries
      = start.data.entries ++ (rows ++ [row]) := by
    rw [hdata, hadd, hentries, List.append_assoc]
  refine ⟨rows ++ [row], hnew, ?_, ?_⟩
  · show List.Forall₂ _ (r₁.completed ++ [(params, a.result)]) _
    rw [hcompleted]
    exact List.rel_append hrows (.cons hrow .nil)
  · show some (resultsToCsv _) = if r₁.completed ++ [(params, a.result)] = [] then _ else _
    rw [if_neg (by simp), hnew]

theorem OneRowEach.step_of_not_accepted {initConfig : Config} {start r r' : Runner} {a : Attempt}
    (h : OneRowEach start r) (hstep : r.step initConfig a = some r') (hacc : a.accepted = false)
    (hsame : r'.data.entries = r.data.entries) : OneRowEach start r' := by
  obtain ⟨hcompleted, hresult, -⟩ := Autotest.step_of_not_accepted hstep hacc
  obtain ⟨rows, hentries, hrows, hexport⟩ := h
  exact ⟨rows, by rw [hsame, hentries], by rw [hcompleted]; exact hrows,
    by rw [hresult, hcompleted, hexport]⟩

/-- **When there is one row for each configuration**: every rejected result lacks a column of
an earlier result or holds the invalid token. -/
theorem rowPerConfig_iff (e : Experiment) (py : PyHash) (initConfig : Config) (left : Left)
    (rows : List DataEntry) (as : List Attempt) (last : Runner)
    (hrun : run (Runner.step initConfig) (Runner.main e py left rows) as = some last) :
    RowPerConfig initConfig (Runner.main e py left rows) as ↔
      ∀ pre a, pre ++ [a] <+: as → a.rejected = true → Incomplete pre a := by
  have htable : ∀ {pre r}, run (Runner.step initConfig) (Runner.main e py left rows) pre = some r →
      Table pre r := fun h =>
    run_history (P := Table) (fun _ _ _ _ ht hs => ht.step hs) (Table.main e py left rows) h
  -- every prefix of a run is a run
  have hprefix : ∀ {pre}, pre <+: as →
      ∃ r, run (Runner.step initConfig) (Runner.main e py left rows) pre = some r := by
    rintro pre ⟨rest, rfl⟩
    obtain ⟨r, hr, -⟩ := run_append_eq_some hrun
    exact ⟨r, hr⟩
  constructor
  · intro h pre a hpre hrej
    obtain ⟨r', hr'⟩ := hprefix hpre
    obtain ⟨r, hr, hstep⟩ := run_concat_eq_some hr'
    have hacc := Attempt.rejected_not_accepted hrej
    exact (entries_step (htable hr) hstep hacc).mp (h.unchanged pre a hpre hacc r r' hr hstep) hrej
  · intro h
    have hunchanged : ∀ pre a, pre ++ [a] <+: as → a.accepted = false →
        ∀ r r', run (Runner.step initConfig) (Runner.main e py left rows) pre = some r →
          r.step initConfig a = some r' → r'.data.entries = r.data.entries :=
      fun pre a hpre hacc r r' hr hstep =>
        (entries_step (htable hr) hstep hacc).mpr (h pre a hpre)
    refine ⟨fun pre hpre r hr => ?_, hunchanged⟩
    induction pre using List.reverseRecOn generalizing r with
    | nil =>
      obtain rfl := Option.some.inj hr
      exact ⟨[], (List.append_nil _).symm, .nil, (if_pos rfl).symm⟩
    | append_singleton pre a ih =>
      obtain ⟨u, hu, hstep⟩ := run_concat_eq_some hr
      have hu' := ih ((List.prefix_append pre [a]).trans hpre) u hu
      cases hacc : a.accepted with
      | true => exact hu'.step_of_accepted (htable hu) hstep hacc
      | false =>
        exact hu'.step_of_not_accepted hstep hacc (hunchanged pre a hpre hacc u r hu hstep)

/-- A grid with one configuration. -/
def oneConfig : Experiment := ⟨[("n_rules", [.int 100])], 1, []⟩

/-- An attempt without errors whose results are `fields`. -/
def Attempt.ofFields (fields : DataEntry) : Attempt := ⟨⟨∅, none⟩, ⟨fields, none⟩⟩

/-- The traffic generator reported, `regex-test` did not. -/
def portCounters (packets : String) : Attempt :=
  .ofFields ((∅ : DataEntry).insert "port0_rx_good_packets" (.single (.str packets)))

/-- `regex-test` reported. -/
def regexCounters : Attempt :=
  .ofFields ((∅ : DataEntry).insert "rgx_bs8_enq_brst_cnt" (.single (.str "1")))

/-- The very first attempt is rejected, and its results are in the table. -/
theorem rowPerConfig_portCounters :
    ¬ RowPerConfig ∅ (Runner.main oneConfig ⟨fun _ => 0, fun _ => 0⟩ .nothing [])
      [portCounters "7"] := by
  intro h
  have hsame := h.unchanged [] _ (List.prefix_refl _) (by decide) _ _ rfl rfl
  exact absurd (congrArg List.length hsame) (by decide)

/-- With the invalid token among its results, the rejected attempt leaves no row. -/
theorem rowPerConfig_invalidCounters :
    RowPerConfig ∅ (Runner.main oneConfig ⟨fun _ => 0, fun _ => 0⟩ .nothing [])
      [portCounters "NaN", regexCounters] := by
  refine (rowPerConfig_iff oneConfig ⟨fun _ => 0, fun _ => 0⟩ ∅ .nothing []
    [portCounters "NaN", regexCounters] _ rfl).mpr fun pre a hpre hrej => Or.inr ?_
  have hmem : a ∈ [portCounters "NaN", regexCounters] :=
    hpre.subset (List.mem_append_right _ List.mem_cons_self)
  rcases List.mem_pair.mp hmem with rfl | rfl
  · exact ⟨"port0_rx_good_packets", .single (.str "NaN"), by decide, rfl⟩
  · exact absurd hrej (by decide)

end Autotest
end PamoRxpBench
