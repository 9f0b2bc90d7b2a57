import PamoRxpBench.Autotest.ExpRunnerTheorems
import PamoRxpBench.Autotest.ResultFileTheorems
import PamoRxpBench.Autotest.StatsReportTheorems

/-!
# From the packets to the file of results

What `regex-test` prints goes through `host_parse_single_result`, `add_entry` and `export_csv`. No
field of a report is taken for anything else on this way (`not_special_of_mem`), and no row that was
added is lost again (`noneLost_of_run`). So in the file that a session leaves, every accepted
attempt has a row whose cells are the numbers of its report (`session_showsReports`).
-/

namespace PamoRxpBench
namespace Autotest

open RegexTest (AppArgs Printed ReportLine reportResults Engine ReturnedCall)

variable {py : PyText}

/-! ## The entry of an output -/

/-- The values of a field, as `rx_run` finds them in the dictionary. -/
def toValues : List Text → Option Values
  | [] => none
  | v :: vs => some ⟨.str (String.ofList v), vs.map fun v => .str (String.ofList v)⟩

/-- The dictionary of `host_parse_single_result` as an entry. -/
def toDataEntry (parsed : ParsedEntry) : DataEntry :=
  parsed.entries.foldl (fun entry e =>
    match toValues e.2 with
    | none => entry
    | some values => entry.insert (String.ofList e.1) values) ∅

/-- A field that was parsed is one of the entry. -/
theorem lookup_toDataEntry {parsed : ParsedEntry} {f : Text} {values : List Text} {v : Values}
    (h : parsed.lookup f = some values) (hv : toValues values = some v) :
    (toDataEntry parsed).lookup (String.ofList f) = some v := by
  have hfold : ∀ (es : List (Sigma fun _ : Text => List Text)) (entry : DataEntry),
      es.NodupKeys →
      (es.dlookup f = some values ∨
        es.dlookup f = none ∧ entry.lookup (String.ofList f) = some v) →
      (es.foldl (fun entry e =>
        match toValues e.2 with
        | none => entry
        | some values => entry.insert (String.ofList e.1) values) entry).lookup
          (String.ofList f) = some v := by
    intro es
    induction es with
    | nil =>
      intro entry _ hes
      rcases hes with hfound | ⟨-, hentry⟩
      · cases hfound
      · exact hentry
    | cons e es ih =>
      intro entry hnodup hes
      obtain ⟨g, ws⟩ := e
      have hnodup' := List.nodupKeys_cons.mp hnodup
      rw [List.foldl_cons]
      by_cases hkey : f = g
      · -- the key comes once
        subst hkey
        have hnone : es.dlookup f = none := List.dlookup_eq_none.mpr hnodup'.1
        rw [List.dlookup_cons_eq] at hes
        rcases hes with hfound | ⟨hfound, -⟩
        · cases hfound
          refine ih _ hnodup'.2 (Or.inr ⟨hnone, ?_⟩)
          rw [hv]
          exact AList.lookup_insert _
        · cases hfound
      · rw [List.dlookup_cons_ne _ _ hkey] at hes
        refine ih _ hnodup'.2 (hes.imp_right fun hentry => ⟨hentry.1, ?_⟩)
        have hne : String.ofList f ≠ String.ofList g :=
          fun heq => hkey (String.ofList_injective heq)
        cases toValues ws with
        | none => exact hentry.2
        | some w => exact (AList.lookup_insert_ne hne).trans hentry.2
  exact hfold parsed.entries ∅ parsed.nodupKeys (Or.inl h)

/-! ## The fields of a report -/

/-- The first letter of a field: `rgx_`, `hs_` or `app_`. -/
def isReportHead (f : Text) : Bool := f.head? = some 'r' || f.head? = some 'h' || f.head? = some 'a'

theorem isReportHead_of_mem {args : AppArgs} {report : Printed} {r : Text × UInt64}
    (hr : r ∈ reportResults args report) : isReportHead r.1 = true := by
  have hnames : ∀ {results : List (Text × UInt64)},
      (results.map Prod.fst).all isReportHead = true →
      ∀ q ∈ results, ∀ r, ReportLine.result? (.result q.1 q.2) = some r →
        isReportHead r.1 = true := by
    intro results hall q hq r heq
    rw [← Option.some.inj heq]
    exact List.all_eq_true.mp hall q.1 (List.mem_map_of_mem hq)
  obtain ⟨l, hl, hresult⟩ := List.mem_filterMap.mp hr
  refine forall_mem_reportLines
    (P := fun l => ∀ r, l.result? = some r → isReportHead r.1 = true)
    (fun _ _ _ heq => ?_) (fun c value r heq => ?_) (hnames rfl) (hnames rfl) l hl r hresult
  · cases heq
  · rw [← Option.some.inj heq]
    rfl

/-- A field of a report is no column of a parameter, and neither the index nor the error. -/
theorem not_special_of_mem {args : AppArgs} {report : Printed} {r : Text × UInt64}
    (hr : r ∈ reportResults args report) (params : ParamSet) :
    String.ofList r.1 ≠ "index" ∧ String.ofList r.1 ≠ "error" ∧
      ¬ IsParamCol params (String.ofList r.1) := by
  have hhead := isReportHead_of_mem hr
  refine ⟨fun heq => ?_, fun heq => ?_, fun hparam => ?_⟩
  · have hlist := congrArg String.toList heq
    rw [String.toList_ofList] at hlist
    rw [hlist] at hhead
    cases hhead
  · have hlist := congrArg String.toList heq
    rw [String.toList_ofList] at hlist
    rw [hlist] at hhead
    cases hhead
  · obtain ⟨p, -, heq⟩ := hparam
    have hlist := congrArg String.toList heq
    rw [String.toList_ofList, String.toList_append] at hlist
    rw [hlist] at hhead
    cases hhead

/-! ## The rows of a session -/

/-- A step adds rows behind those that are there. -/
theorem entries_prefix_step {initConfig : Config} {r r' : Runner} {a : Attempt}
    (hplain : Plain r.data) (hstep : r.step initConfig a = some r') :
    r.data.entries <+: r'.data.entries := by
  obtain ⟨r₁, params, cfg, hpick, rfl⟩ := step_cases hstep
  rw [← hpick.frame.1] at hplain ⊢
  rcases a.outcome with hacc | hrej | herr
  · rw [attempt_of_accepted r₁ params cfg hacc]
    obtain ⟨row, hentries, -⟩ := exists_row_addEntry hplain a.result params (Or.inl rfl)
    exact ⟨[row], hentries.symm⟩
  · rw [attempt_of_rejected r₁ params cfg hrej]
    show _ <+: (r₁.data.addEntry a.result (some params) false true).2.entries
    cases hinvalid : hasInvalid (fillInvalid a.result (updateCols a.result r₁.data.columns)
        r₁.data.invalidToken) r₁.data.invalidToken with
    | true => rw [entries_addEntry_of_invalid hinvalid]
    | false =>
      obtain ⟨row, hentries, -⟩ := exists_row_addEntry hplain a.result params (Or.inr hinvalid)
      exact ⟨[row], hentries.symm⟩
  · rw [attempt_of_error r₁ params cfg herr]
    exact List.prefix_refl _

/-- The row has the results of the attempt. -/
def RowOfAttempt (a : Attempt) (row : DataEntry) : Prop := ∃ params, RowOf params a.result row

/-- After the attempts `as` of a session that found `found`, every accepted attempt has its row, in
order behind those that were found; once there is one, they are all in the file. -/
def NoneLost (found : List DataEntry) (as : List Attempt) (r : Runner) : Prop :=
  ∃ rows, List.Forall₂ RowOfAttempt (as.filter Attempt.accepted) rows ∧
    (found ++ rows).Sublist r.data.entries ∧
    (rows ≠ [] → ∃ exported, r.resultFile = some (resultsToCsv exported) ∧
      (found ++ rows).Sublist exported)

/-- An attempt keeps the rows that are there, and adds its own if it is accepted. -/
theorem NoneLost.step {initConfig : Config} {found : List DataEntry} {as : List Attempt}
    {r r' : Runner} {a : Attempt} (h : NoneLost found as r) (hplain : Plain r.data)
    (hstep : r.step initConfig a = some r') : NoneLost found (as ++ [a]) r' := by
  obtain ⟨rows, hrows, hentries, hfile⟩ := h
  have hkept := hentries.trans (entries_prefix_step hplain hstep).sublist
  unfold NoneLost
  rw [List.filter_append]
  cases hacc : a.accepted with
  | false =>
    obtain ⟨-, hresult, -⟩ := step_of_not_accepted hstep hacc
    have hnone : [a].filter Attempt.accepted = [] := List.filter_cons_of_neg (by rw [hacc]; decide)
    rw [hnone, List.append_nil, hresult]
    exact ⟨rows, hrows, hkept, hfile⟩
  | true =>
    -- the table is exported with the new row
    obtain ⟨r₁, params, cfg, hpick, rfl⟩ := step_cases hstep
    obtain ⟨row, hadded, hrow⟩ := exists_row_addEntry (hpick.frame.1 ▸ hplain) a.result params
      (Or.inl rfl)
    have hnew : (found ++ (rows ++ [row])).Sublist
        (r₁.data.addEntry a.result (some params) true true).2.entries := by
      rw [hadded, hpick.frame.1, ← List.append_assoc]
      exact hentries.append (List.Sublist.refl [row])
    have hone : [a].filter Attempt.accepted = [a] := List.filter_cons_of_pos hacc
    rw [attempt_of_accepted r₁ params cfg hacc, hone]
    exact ⟨rows ++ [row], List.rel_append hrows (.cons ⟨params, hrow⟩ .nil), hnew,
      fun _ => ⟨_, rfl, hnew⟩⟩

/-- No session loses a row. -/
theorem noneLost_of_run {e : Experiment} {hash : PyHash} {initConfig : Config} {left : Left}
    {found : List DataEntry} {as : List Attempt} {last : Runner}
    (hrun : Runs.run (Runner.step initConfig) (Runner.main e hash left found) as = some last) :
    NoneLost (Runner.main e hash left found).data.entries as last := by
  have hboth := Runs.run_history (P := fun as r => Table as r ∧
      NoneLost (Runner.main e hash left found).data.entries as r)
    (fun _ _ _ _ h hstep => ⟨h.1.step hstep, h.2.step h.1.plain hstep⟩)
    ⟨Table.main e hash left found, [], .nil, by rw [List.append_nil], fun hne => absurd rfl hne⟩
      hrun
  exact hboth.2

/-! ## What a row shows -/

variable {M : Type} [DecidableEq M] {args : AppArgs} {ticksPerUs : UInt64} {engine : Engine}

/-- The first value that is printed for a field is the first of its entry. -/
theorem lookup_regexOutput (h : py.Ascii)
    (calls : List (Option (ReturnedCall args M ticksPerUs engine)))
    {before after : List (OutputLine py)} (hlines : ∀ l ∈ before ++ after, l.Plain) {output : Text}
    (houtput : regexOutput calls before after = some output) {f : Text} {value : UInt64}
    (hfind : (reportResults args (totalReport calls)).find? (fun q => q.1 = f) = some (f, value))
    (hown : f ∉ (before ++ after).filterMap OutputLine.field?) :
    ∃ others, (toDataEntry (hostParseSingleResult py output)).lookup (String.ofList f) =
      some ⟨.str (String.ofList (Text.decimal value.toNat)), others⟩ := by
  have hmem : (f, value) ∈ reportResults args (totalReport calls) := List.mem_of_find?_eq_some hfind
  have hprints : args.Prints := by
    by_contra hnone
    rw [regexOutput_eq, if_neg hnone] at houtput
    cases houtput
  rw [regexOutput_eq, if_pos hprints] at houtput
  have hlookup := lookup_report h args (totalReport calls) hlines
    (List.mem_map_of_mem hmem : f ∈ (reportResults args (totalReport calls)).map Prod.fst) hown
  rw [Option.some.inj houtput] at hlookup
  obtain ⟨others, hvalues⟩ : ∃ others,
      ((reportResults args (totalReport calls)).filter fun q => q.1 = f) =
        (f, value) :: others := by
    rw [← List.head?_filter] at hfind
    exact List.head?_eq_some_iff.mp hfind
  rw [hvalues, List.map_cons] at hlookup
  exact ⟨_, lookup_toDataEntry hlookup rfl⟩

/-- In the exported table the row of the attempt has, for each field of the report of its
`regex-test` that no other line of the output has, the number that was counted over all workers. -/
def ShowsReport (py : PyText) (exported : List DataEntry) (a : Attempt) (row : DataEntry) : Prop :=
  ∀ (args : AppArgs) (M : Type) [DecidableEq M] (ticksPerUs : UInt64) (engine : Engine)
    (calls : List (Option (ReturnedCall args M ticksPerUs engine)))
    (before after : List (OutputLine py)) (output : Text), (∀ l ∈ before ++ after, l.Plain) →
    regexOutput calls before after = some output →
    a.txResult.fields = toDataEntry (hostParseSingleResult py output) →
    ∀ f value, (reportResults args (totalReport calls)).find? (fun q => q.1 = f) = some (f, value) →
      f ∉ (before ++ after).filterMap OutputLine.field? →
      String.ofList f ∈ resultsCols exported ∧
        cellText row (String.ofList f) = String.ofList (Text.decimal value.toNat)

/-- The row of an attempt shows the report of its `regex-test`. -/
theorem RowOfAttempt.showsReport (h : py.Ascii) {a : Attempt} {row : DataEntry}
    (hrow : RowOfAttempt a row) {exported : List DataEntry} (hmem : row ∈ exported) :
    ShowsReport py exported a row := by
  obtain ⟨params, hrow⟩ := hrow
  intro args M _ ticksPerUs engine calls before after output hlines houtput hfields f value hfind
    hown
  obtain ⟨others, hentry⟩ := lookup_regexOutput h calls hlines houtput hfind hown
  rw [← hfields] at hentry
  obtain ⟨hindex, herror, hparam⟩ := not_special_of_mem (List.mem_of_find?_eq_some hfind) params
  have hresult : a.result.lookup (String.ofList f) =
      some ⟨.str (String.ofList (Text.decimal value.toNat)), others⟩ := by
    unfold Attempt.result
    rw [AList.lookup_erase_ne herror]
    exact (AList.lookup_union_left (AList.lookup_isSome.mp (by rw [hentry]; rfl))).trans hentry
  have hcolumn := hrow.column _ _ hindex hparam hresult
  constructor
  · rw [mem_resultsCols]
    exact ⟨row, hmem, AList.lookup_isSome.mp (by rw [hcolumn]; rfl)⟩
  · rw [cellText_of_lookup hcolumn]
    rfl

/-- **From the packets to the file of results.** Take any session of the measurement loop, with any
attempts, failed and rejected ones among them. Once an attempt was accepted, the file of results has
behind the rows that the session found a row for each accepted attempt, in their order, and each row
shows what was counted over all workers of its `regex-test`, for any engine and any traffic, if this
printed a report. -/
theorem session_showsReports (h : py.Ascii) (e : Experiment) (hash : PyHash) (initConfig : Config)
    (left : Left) (found : List DataEntry) {as : List Attempt} {last : Runner}
    (hrun : Runs.run (Runner.step initConfig) (Runner.main e hash left found) as = some last)
    (hacc : ∃ a ∈ as, a.accepted = true) :
    ∃ exported rows, last.resultFile = some (resultsToCsv exported) ∧
      ((Runner.main e hash left found).data.entries ++ rows).Sublist exported ∧
      List.Forall₂ (ShowsReport py exported) (as.filter Attempt.accepted) rows := by
  obtain ⟨rows, hrows, -, hfile⟩ := noneLost_of_run hrun
  have hne : rows ≠ [] := by
    intro hnil
    rw [hnil, List.forall₂_nil_right_iff, List.filter_eq_nil_iff] at hrows
    obtain ⟨a, ha, hacc⟩ := hacc
    exact hrows a ha hacc
  obtain ⟨exported, hexported, hsublist⟩ := hfile hne
  refine ⟨exported, rows, hexported, hsublist, ?_⟩
  have hmem : ∀ row ∈ rows, row ∈ exported := fun row hrow =>
    hsublist.subset (List.mem_append_right _ hrow)
  clear hexported hsublist hne hfile
  generalize as.filter Attempt.accepted = accepted at hrows ⊢
  induction hrows with
  | nil => exact .nil
  | cons hrow _ ih =>
    exact .cons (hrow.showsReport h (hmem _ List.mem_cons_self))
      (ih fun row hrow => hmem row (List.mem_cons_of_mem _ hrow))

/-- The output of a `regex-test` with two workers that scan with Hyperscan. -/
def twoScansOutput : Text :=
  ['\n'].intercalate ([(OutputLine.noise noiseFive : OutputLine asciiText)].map OutputLine.text ++
    (RegexTest.reportLines RegexTest.hsArgs
      (totalReport [some RegexTest.twoScans, none])).map ReportLine.text ++ [])

theorem regexOutput_twoScans :
    regexOutput [some RegexTest.twoScans, none] [.noise noiseFive]
      ([] : List (OutputLine asciiText)) = some twoScansOutput := by
  rw [regexOutput_eq, if_pos (by decide)]
  rfl

/-- The attempt that reads it. -/
def twoScansAttempt : Attempt :=
  .ofFields (toDataEntry (hostParseSingleResult asciiText twoScansOutput))

theorem txResult_twoScansAttempt : twoScansAttempt.txResult.fields =
    toDataEntry (hostParseSingleResult asciiText twoScansOutput) := by
  unfold twoScansAttempt Attempt.ofFields
  with_reducible rfl

theorem plain_noiseFive {l : OutputLine asciiText} (hl : l ∈ [.noise noiseFive] ++ []) :
    l.Plain := by
  rw [List.append_nil, List.mem_singleton] at hl
  rw [hl]
  exact ⟨fun f hf => (by cases hf), fun f hf => (by cases hf)⟩

theorem not_mem_field?_noiseFive (f : Text) :
    f ∉ ([.noise noiseFive] ++ [] : List (OutputLine asciiText)).filterMap OutputLine.field? :=
  List.not_mem_nil

theorem validateResults_twoScansAttempt : validateResults twoScansAttempt.result = true := by
  have hfind : (reportResults RegexTest.hsArgs (totalReport [some RegexTest.twoScans, none])).find?
      (fun q => q.1 = "hs_avg_scan_time_cycles".toList) =
        some ("hs_avg_scan_time_cycles".toList, 10) := by
    decide +kernel
  obtain ⟨others, hentry⟩ := lookup_regexOutput asciiText_ascii _ (fun _ hl => plain_noiseFive hl)
    regexOutput_twoScans hfind (not_mem_field?_noiseFive _)
  rw [← txResult_twoScansAttempt, String.ofList_toList] at hentry
  have hfields : "hs_avg_scan_time_cycles" ∈ twoScansAttempt.txResult.fields :=
    AList.lookup_isSome.mp (Option.isSome_of_eq_some hentry)
  have hmem : "hs_avg_scan_time_cycles" ∈ twoScansAttempt.result := by
    unfold Attempt.result
    rw [AList.mem_erase]
    exact ⟨by decide, AList.mem_union.mpr (Or.inl hfields)⟩
  rw [validateResults, decide_eq_true hmem, Bool.or_true]

/-- A session whose first attempt is rejected, and whose second is this one. -/
theorem session_showsReports_twoScans : ∃ last exported rows,
    Runs.run (Runner.step ∅) (Runner.main oneConfig ⟨fun _ => 0, fun _ => 0⟩ .nothing [])
      [portCounters "7", twoScansAttempt] = some last ∧
    last.resultFile = some (resultsToCsv exported) ∧ rows.Sublist exported ∧
    List.Forall₂ (ShowsReport asciiText exported)
      ([portCounters "7", twoScansAttempt].filter Attempt.accepted) rows := by
  obtain ⟨last, hrun⟩ : ∃ last, Runs.run (Runner.step ∅)
      (Runner.main oneConfig ⟨fun _ => 0, fun _ => 0⟩ .nothing [])
      [portCounters "7", twoScansAttempt] = some last := ⟨_, rfl⟩
  obtain ⟨exported, rows, hfile, hsublist, hshows⟩ := session_showsReports asciiText_ascii oneConfig
    ⟨fun _ => 0, fun _ => 0⟩ ∅ .nothing [] hrun ⟨twoScansAttempt, by simp, by
      unfold Attempt.accepted
      rw [validateResults_twoScansAttempt]
      rfl⟩
  exact ⟨last, exported, rows, hrun, hfile, hsublist, hshows⟩

end Autotest
end PamoRxpBench
