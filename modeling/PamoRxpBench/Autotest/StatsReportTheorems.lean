import PamoRxpBench.Autotest.ParseResultTheorems
import PamoRxpBench.RegexTest.StatsReport
import PamoRxpBench.RegexTest.TotalsTheorems

/-!
# The report that `regex-test` prints is the report that `autotest` reads

The lines of the log hold no result (`ValidLine`), so whatever other lines stand before and
behind the report, `host_parse_single_result` finds for each of its fields exactly the values that
were printed (`lookup_report`). With the sums over the workers this goes from the packets of all
workers to the dictionary (`hostParseSingleResult_report`).
-/

namespace PamoRxpBench
namespace Autotest

open RegexTest (ReportLine reportLines reportResults hsResults lcoreResults Printed AppArgs)

variable {py : PyText}

/-! ## The characters of a report -/

/-- The characters of the fields that are printed. -/
def isReportField (c : Char) : Bool := c.isLower || c.isDigit || c = '_'

/-- The characters of the log; a result has a `U`. -/
def isLogChar (c : Char) : Bool := c ≠ '\n' && c ≠ 'U'

/-- What the documentation of `re` and of `str.lower` says of these characters. -/
structure PyText.Ascii (py : PyText) : Prop extends py.Documented where
  word_ascii : ∀ c, isReportField c = true → py.isWord c = true
  lower_ascii : ∀ s : Text, s.all isReportField = true → py.lower s = s

/-- A line that is read as what it is. -/
def ValidLine : ReportLine → Prop
  | .log text => text.all isLogChar = true
  | .result field _ => field ≠ [] ∧ field.all isReportField = true

/-- A text without a `U` holds no result. -/
theorem not_resultKey_of_all {text : Text} (h : text.all isLogChar = true) :
    '\n' ∉ text ∧ ¬ resultKey <:+: text := by
  rw [List.all_eq_true] at h
  constructor
  · intro hmem
    exact absurd (h _ hmem) (by decide)
  · intro hkey
    have hmem : 'U' ∈ text := hkey.subset (by decide)
    exact absurd (h _ hmem) (by decide)

theorem all_decimal {p : Char → Bool} (hp : ∀ c, c.isDigit = true → p c = true) (n : ℕ) :
    (Text.decimal n).all p = true :=
  List.all_eq_true.mpr fun c hc => hp c (Text.isDigit_of_mem_decimal hc)

theorem isReportField_of_isDigit {c : Char} (h : c.isDigit = true) : isReportField c = true := by
  rw [isReportField, h, Bool.or_true, Bool.true_or]

theorem quiet_of_isDigit {c : Char} (h : c.isDigit = true) : isLogChar c = true := by
  have hline : c ≠ '\n' := Text.ne_of_isDigit h (by decide)
  have hkey : c ≠ 'U' := Text.ne_of_isDigit h (by decide)
  rw [isLogChar, decide_eq_true hline, decide_eq_true hkey]
  rfl

theorem all_lu (n : UInt64) : (RegexTest.lu n).all isLogChar = true :=
  all_decimal (fun _ => quiet_of_isDigit) _

theorem all_d32 (n : UInt32) : (RegexTest.d32 n).all isLogChar = true := by
  unfold RegexTest.d32
  split
  · exact all_decimal (fun _ => quiet_of_isDigit) _
  · rw [List.all_cons, all_decimal (fun _ => quiet_of_isDigit)]
    decide

theorem all_append_eq_true {p : Char → Bool} {a b : Text} (ha : a.all p = true)
    (hb : b.all p = true) : (a ++ b).all p = true := by
  rw [List.all_append, ha, hb]
  rfl

/-- A piece of a format and the number behind it. -/
theorem all_append_lu {a piece : Text} (ha : a.all isLogChar = true)
    (hpiece : piece.all isLogChar = true) (n : UInt64) :
    (a ++ piece ++ RegexTest.lu n).all isLogChar = true :=
  all_append_eq_true (all_append_eq_true ha hpiece) (all_lu n)

theorem all_burstSizeLog (s : RegexTest.RegexStatsBurst) :
    (RegexTest.burstSizeLog s).all isLogChar = true := by
  unfold RegexTest.burstSizeLog
  refine all_append_lu ?_ (by decide +kernel) _
  refine all_append_lu ?_ (by decide +kernel) _
  refine all_append_lu ?_ (by decide +kernel) _
  refine all_append_lu ?_ (by decide +kernel) _
  refine all_append_lu ?_ (by decide +kernel) _
  refine all_append_lu ?_ (by decide +kernel) _
  refine all_append_lu ?_ (by decide +kernel) _
  refine all_append_lu ?_ (by decide +kernel) _
  refine all_append_lu ?_ (by decide +kernel) _
  exact all_append_eq_true (by decide +kernel) (all_d32 _)

theorem all_hsLog (s : RegexTest.HsStats) : (RegexTest.hsLog s).all isLogChar = true := by
  unfold RegexTest.hsLog
  refine all_append_lu ?_ (by decide +kernel) _
  refine all_append_lu ?_ (by decide +kernel) _
  refine all_append_lu ?_ (by decide +kernel) _
  refine all_append_lu ?_ (by decide +kernel) _
  refine all_append_lu ?_ (by decide +kernel) _
  exact all_append_eq_true (by decide +kernel) (all_lu _)

/-- A line of a report is a text of the log, or a result of one of its three parts. -/
theorem forall_mem_reportLines {P : ReportLine → Prop} {args : AppArgs} {report : Printed}
    (hlog : ∀ text : Text, text.all isLogChar = true → P (.log text))
    (hrgx : ∀ (c : RegexTest.RgxColumn) (value : UInt64), P (.result c.field value))
    (hhs : ∀ r ∈ hsResults report.hsStats, P (.result r.1 r.2))
    (hlcore : ∀ r ∈ lcoreResults report.lcoreStats, P (.result r.1 r.2)) :
    ∀ l ∈ reportLines args report, P l := by
  intro l hl
  rcases List.mem_append.mp hl with hl | hl
  · rcases List.mem_append.mp hl with hl | hl
    · unfold RegexTest.rgxLines at hl
      split at hl
      · rcases List.mem_append.mp hl with hl | hl
        · rcases List.mem_cons.mp hl with rfl | hl
          · exact hlog _ (by decide +kernel)
          · obtain ⟨b, _, rfl⟩ := List.mem_map.mp hl
            exact hlog _ (all_burstSizeLog b)
        · split at hl
          · obtain ⟨b, _, hl⟩ := List.mem_flatMap.mp hl
            rcases List.mem_cons.mp hl with rfl | hl
            · exact hlog _ (all_append_eq_true (by decide +kernel)
                (all_decimal (fun _ => quiet_of_isDigit) _))
            · obtain ⟨r, _, rfl⟩ := List.mem_map.mp hl
              exact hrgx r.1 r.2
          · cases hl
      · cases hl
    · unfold RegexTest.hsLines at hl
      split at hl
      · rcases List.mem_cons.mp hl with rfl | hl
        · exact hlog _ (by decide +kernel)
        · rcases List.mem_cons.mp hl with rfl | hl
          · exact hlog _ (all_hsLog _)
          · split at hl
            · obtain ⟨r, hr, rfl⟩ := List.mem_map.mp hl
              exact hhs r hr
            · cases hl
      · cases hl
  · rcases List.mem_cons.mp hl with rfl | hl
    · exact hlog _ (by decide +kernel)
    · rcases List.mem_cons.mp hl with rfl | hl
      · exact hlog _ (all_append_lu (all_append_eq_true (by decide +kernel) (all_lu _))
          (by decide +kernel) _)
      · split at hl
        · obtain ⟨r, hr, rfl⟩ := List.mem_map.mp hl
          exact hlcore r hr
        · cases hl

theorem valid_rgxField (c : RegexTest.RgxColumn) (value : UInt64) :
    ValidLine (.result c.field value) := by
  refine ⟨List.append_ne_nil_of_left_ne_nil (List.append_ne_nil_of_left_ne_nil (by decide) _) _, ?_⟩
  have hsuffix : c.metric.suffix.all isReportField = true := by
    cases c.metric <;> decide +kernel
  exact all_append_eq_true (all_append_eq_true (by decide +kernel)
    (all_decimal (fun _ => isReportField_of_isDigit) _)) hsuffix

/-- Results with fixed names. -/
theorem valid_of_names {results : List (Text × UInt64)}
    (h : (results.map Prod.fst).all (fun f => f ≠ [] && f.all isReportField) = true) :
    ∀ r ∈ results, ValidLine (.result r.1 r.2) := by
  intro r hr
  have hname := List.all_eq_true.mp h r.1 (List.mem_map_of_mem hr)
  rw [Bool.and_eq_true, decide_eq_true_eq] at hname
  exact hname

/-- Every line of a report is read as what it is. -/
theorem valid_reportLines (args : AppArgs) (report : Printed) :
    ∀ l ∈ reportLines args report, ValidLine l :=
  forall_mem_reportLines (fun _ h => h) valid_rgxField (valid_of_names rfl) (valid_of_names rfl)

/-! ## The report as an output -/

theorem PyText.Ascii.isField_of_all (h : py.Ascii) {f : Text} (hf : f.all isReportField = true) :
    ∀ c ∈ f, py.isField c = true := by
  intro c hc
  rw [PyText.isField, h.word_ascii c (List.all_eq_true.mp hf c hc), Bool.or_true, Bool.true_or,
    Bool.true_or]

/-- The line as the parser's model has it. -/
def toOutput (h : py.Ascii) : (l : ReportLine) → ValidLine l → OutputLine py
  | .log text, hl => .noise ⟨text, (not_resultKey_of_all hl).1, (not_resultKey_of_all hl).2⟩
  | .result field value, hl =>
    .wellFormed ⟨field, hl.1, h.isField_of_all hl.2⟩
      ⟨Text.decimal value.toNat, Nat.toDigits_ne_nil,
        fun _ hc => Or.inl (Text.isDigit_of_mem_decimal hc)⟩ none

theorem toOutput_text (h : py.Ascii) {l : ReportLine} (hl : ValidLine l) :
    (toOutput h l hl).text = l.text := by
  cases l with
  | log text => rfl
  | result field value =>
    show resultKey ++ field ++ ' ' :: (Text.decimal value.toNat ++ []) = _
    rw [List.append_nil]
    rfl

theorem toOutput_result? (h : py.Ascii) {l : ReportLine} (hl : ValidLine l) :
    (toOutput h l hl).result? = l.result?.map fun r => (r.1, Text.decimal r.2.toNat) := by
  cases l <;> rfl

theorem toOutput_field? (h : py.Ascii) {l : ReportLine} (hl : ValidLine l) {f : Text}
    (hf : (toOutput h l hl).field? = some f) : f.all isReportField = true := by
  cases l with
  | log text => cases hf
  | result field value =>
    rw [← Option.some.inj hf]
    exact hl.2

/-- A line that is not malformed and has no capital letters in its field. -/
def OutputLine.Plain (py : PyText) (l : OutputLine py) : Prop :=
  (∀ f, l ≠ .malformed f) ∧ ∀ f, l.field? = some f → py.lower f = f

theorem toOutput_plain (h : py.Ascii) {l : ReportLine} (hl : ValidLine l) :
    (toOutput h l hl).Plain := by
  refine ⟨fun f hf => ?_, fun f hf => h.lower_ascii f (toOutput_field? h hl hf)⟩
  cases l <;> cases hf

/-- The report. -/
def reportOutput (h : py.Ascii) (args : AppArgs) (report : Printed) : List (OutputLine py) :=
  (reportLines args report).pmap (toOutput h) (valid_reportLines args report)

theorem reportOutput_text (h : py.Ascii) (args : AppArgs) (report : Printed) :
    (reportOutput h args report).map OutputLine.text =
      (reportLines args report).map ReportLine.text := by
  rw [reportOutput, List.map_pmap,
    ← List.pmap_eq_map (fun l _ => valid_reportLines args report l ‹_›)]
  exact List.pmap_congr_left _ fun l _ hl _ => toOutput_text h hl

theorem filterMap_pmap_result? (h : py.Ascii) (ls : List ReportLine) (hls : ∀ l ∈ ls, ValidLine l) :
    (ls.pmap (toOutput h) hls).filterMap OutputLine.result? =
      (ls.filterMap ReportLine.result?).map fun r => (r.1, Text.decimal r.2.toNat) := by
  induction ls with
  | nil => rfl
  | cons l ls ih =>
    rw [List.pmap_cons, List.filterMap_cons, List.filterMap_cons, toOutput_result?,
      ih fun l hl => hls l (List.mem_cons_of_mem _ hl)]
    cases l <;> rfl

/-- The output is its lines with line feeds between them. -/
theorem outputText_eq (lines : List (OutputLine py)) :
    outputText lines = ['\n'].intercalate (lines.map OutputLine.text) := by
  induction lines with
  | nil => rfl
  | cons l lines ih =>
    cases lines with
    | nil => simp [outputText, followingText, List.intercalate]
    | cons l' lines =>
      rw [List.map_cons, List.map_cons, List.intercalate_cons_cons, ← List.map_cons, ← ih]
      show l.text ++ ('\n' :: l'.text ++ followingText lines) = _
      simp [outputText]

/-! ## What is read -/

theorem noValueAfter_of_plain {lines : List (OutputLine py)} (h : ∀ l ∈ lines, l.Plain) :
    NoValueAfter lines := fun f _ hrest =>
  absurd rfl ((h _ (hrest.subset List.mem_cons_self)).1 f)

/-- Of lines without capital letters a field with a value has exactly its values. -/
theorem lookup_of_plain (h : py.Documented) {lines : List (OutputLine py)}
    (hplain : ∀ l ∈ lines, l.Plain) {r : Text × Text}
    (hr : r ∈ lines.filterMap OutputLine.result?) :
    (hostParseSingleResult py (outputText lines)).lookup r.1 =
      some (((lines.filterMap OutputLine.result?).filter fun q => q.1 = r.1).map Prod.snd) := by
  have hlower : ∀ f ∈ lines.filterMap OutputLine.field?, py.lower f = f := by
    intro f hf
    obtain ⟨l, hl, hlf⟩ := List.mem_filterMap.mp hf
    exact (hplain l hl).2 f hlf
  have hspelling : OneSpelling py.lower (lines.filterMap OutputLine.result?)
      (lines.filterMap OutputLine.field?) := by
    intro f hf g hg heq hne
    rw [hlower f hf, hlower g hg] at heq
    exact absurd heq hne
  have hsame : (lines.filterMap OutputLine.result?).filter (fun q => py.lower q.1 = r.1) =
      (lines.filterMap OutputLine.result?).filter fun q => q.1 = r.1 :=
    List.filter_congr fun q hq => by rw [hlower q.1 (mem_fields_of_mem_results hq)]
  have hne : ((lines.filterMap OutputLine.result?).filter fun q => q.1 = r.1).map Prod.snd ≠ [] :=
    List.ne_nil_of_mem (List.mem_map_of_mem (List.mem_filter.mpr ⟨hr, decide_eq_true rfl⟩))
  have hlookup := lookup_of_value (fun _ => mem_fields_of_mem_results) (h.listSet_mem _)
    (mem_fields_without_value h lines) hspelling hr
  rw [hlower r.1 (mem_fields_of_mem_results hr)] at hlookup
  rw [hostParseSingleResult_eq h (noValueAfter_of_plain hplain), hlookup, expectedValues, hsame]
  exact if_pos hne

/-- A field of the report that no other line has is read as the list of the values printed for it,
in their order. -/
theorem lookup_report (h : py.Ascii) (args : AppArgs) (report : Printed)
    {before after : List (OutputLine py)}
    (hplain : ∀ l ∈ before ++ after, l.Plain) {f : Text}
    (hf : f ∈ (reportResults args report).map Prod.fst)
    (hown : f ∉ (before ++ after).filterMap OutputLine.field?) :
    (hostParseSingleResult py (['\n'].intercalate (before.map OutputLine.text ++
      (reportLines args report).map ReportLine.text ++ after.map OutputLine.text))).lookup f =
      some (((reportResults args report).filter fun r => r.1 = f).map fun r =>
        Text.decimal r.2.toNat) := by
  have hreport : ∀ l ∈ before ++ reportOutput h args report ++ after, l.Plain := by
    intro l hl
    rcases List.mem_append.mp hl with hl | hl
    · rcases List.mem_append.mp hl with hl | hl
      · exact hplain l (List.mem_append_left _ hl)
      · obtain ⟨l', hl', rfl⟩ := List.mem_pmap.mp hl
        exact toOutput_plain h _
    · exact hplain l (List.mem_append_right _ hl)
  have hresults : (reportOutput h args report).filterMap OutputLine.result? =
      (reportResults args report).map fun r => (r.1, Text.decimal r.2.toNat) :=
    filterMap_pmap_result? h _ _
  -- the other lines have no value for the field
  have hquiet : ∀ ls : List (OutputLine py), f ∉ ls.filterMap OutputLine.field? →
      (ls.filterMap OutputLine.result?).filter (fun q => q.1 = f) = [] := by
    intro ls hls
    rw [List.filter_eq_nil_iff]
    intro q hq heq
    obtain ⟨l, hl, hlq⟩ := List.mem_filterMap.mp hq
    rw [← of_decide_eq_true heq] at hls
    exact hls (List.mem_filterMap.mpr ⟨l, hl, field?_of_result? hlq⟩)
  rw [List.filterMap_append, List.mem_append, not_or] at hown
  obtain ⟨r, hr, rfl⟩ := List.mem_map.mp hf
  have hmem : (r.1, Text.decimal r.2.toNat) ∈
      (before ++ reportOutput h args report ++ after).filterMap OutputLine.result? := by
    rw [List.filterMap_append, List.filterMap_append, hresults]
    exact List.mem_append_left _ (List.mem_append_right _ (List.mem_map_of_mem hr))
  have htext : ['\n'].intercalate (before.map OutputLine.text ++
      (reportLines args report).map ReportLine.text ++ after.map OutputLine.text) =
      outputText (before ++ reportOutput h args report ++ after) := by
    rw [outputText_eq, List.map_append, List.map_append, reportOutput_text]
  have hlookup := lookup_of_plain h.toDocumented hreport hmem
  rw [htext, hlookup, List.filterMap_append, List.filterMap_append, List.filter_append,
    List.filter_append, hquiet before hown.1, hquiet after hown.2, List.nil_append,
    List.append_nil, hresults, List.filter_map, List.map_map]
  rfl

/-! ## From the packets to the dictionary -/

open RegexTest (HsStats LcoreStats Engine ReturnedCall statsReport statsReport_eq totalPrinted
  totalHistogram svStats allTurns scansOf)

variable {M : Type} [DecidableEq M] {args : AppArgs} {ticksPerUs : UInt64} {engine : Engine}

/-- The statistics that a report should have: those of the bursts of all workers, of all packets
that were scanned and of all iterations. -/
def totalReport (calls : List (Option (ReturnedCall args M ticksPerUs engine))) : Printed where
  buckets := if args.rgxEnabled then (totalHistogram args (svStats calls)).toList else []
  hsStats := HsStats.ofScans ticksPerUs (scansOf engine (allTurns calls))
  lcoreStats := LcoreStats.ofTurns engine (allTurns calls)

theorem statsReport_svStats (calls : List (Option (ReturnedCall args M ticksPerUs engine))) :
    statsReport args (svStats calls) = if args.Prints then some (totalReport calls) else none := by
  obtain ⟨hscans, hcycles⟩ := RegexTest.totalPrinted_svStats calls
  rw [statsReport_eq, totalReport, ← hscans, ← hcycles]
  rfl

/-- The output of `regex-test`: the report of the workers between other lines. -/
def regexOutput (calls : List (Option (ReturnedCall args M ticksPerUs engine)))
    (before after : List (OutputLine py)) : Option Text :=
  (statsReport args (svStats calls)).map fun report =>
    ['\n'].intercalate (before.map OutputLine.text ++
      (reportLines args report).map ReportLine.text ++ after.map OutputLine.text)

theorem regexOutput_eq (calls : List (Option (ReturnedCall args M ticksPerUs engine)))
    (before after : List (OutputLine py)) :
    regexOutput calls before after =
      if args.Prints then
        some (['\n'].intercalate (before.map OutputLine.text ++
          (reportLines args (totalReport calls)).map ReportLine.text ++ after.map OutputLine.text))
      else none := by
  rw [regexOutput, statsReport_svStats]
  split <;> rfl

/-- **From the packets to the dictionary.** For any number of workers, any engine and any traffic,
and whatever plain lines stand before and behind the report in the output of `regex-test`: where
there is a report, a field of it that no other line has is read by `autotest` as the list of its
values, in their order: those of the scans of all packets and of the cycles of all iterations of all
workers, and those of the histogram. -/
theorem hostParseSingleResult_report (h : py.Ascii) (hprints : args.Prints)
    (calls : List (Option (ReturnedCall args M ticksPerUs engine)))
    {before after : List (OutputLine py)} (hplain : ∀ l ∈ before ++ after, l.Plain) {f : Text}
    (hf : f ∈ (reportResults args (totalReport calls)).map Prod.fst)
    (hown : f ∉ (before ++ after).filterMap OutputLine.field?) :
    ∃ output, regexOutput calls before after = some output ∧
      (hostParseSingleResult py output).lookup f =
        some (((reportResults args (totalReport calls)).filter fun r => r.1 = f).map fun r =>
          Text.decimal r.2.toNat) := by
  rw [regexOutput_eq, if_pos hprints]
  exact ⟨_, rfl, lookup_report h args (totalReport calls) hplain hf hown⟩

theorem isAlphanum_of_isLower {c : Char} (h : c.isLower = true) : c.isAlphanum = true := by
  show (c.isUpper || c.isLower || c.isDigit) = true
  rw [h, Bool.or_true, Bool.true_or]

theorem toLower_of_isReportField {c : Char} (h : isReportField c = true) : c.toLower = c := by
  have hupper : ¬ (c.val ≥ 'A'.val ∧ c.val ≤ 'Z'.val) := by
    intro hboth
    have hbounds : 65 ≤ c.toNat ∧ c.toNat ≤ 90 := by
      simpa [UInt32.le_iff_toNat_le] using hboth
    simp only [isReportField, Bool.or_eq_true, decide_eq_true_eq] at h
    rcases h with (hlower | hdigit) | hscore
    · have hlow : 97 ≤ c.toNat := (Bool.and_eq_true_iff.mp hlower).1 |> of_decide_eq_true
      omega
    · have hdig : 48 ≤ c.toNat ∧ c.toNat ≤ 57 := by
        simpa [Char.isDigit, UInt32.le_iff_toNat_le] using hdigit
      omega
    · rw [hscore] at hbounds
      exact absurd hbounds (by decide)
  exact dif_neg hupper

theorem asciiText_ascii : asciiText.Ascii where
  toDocumented := asciiText_documented
  word_ascii := by
    intro c hc
    simp only [isReportField, Bool.or_eq_true, decide_eq_true_eq] at hc
    show (c.isAlphanum || decide (c = '_')) = true
    rcases hc with (hlower | hdigit) | hscore
    · rw [isAlphanum_of_isLower hlower, Bool.true_or]
    · rw [Char.isAlphanum, hdigit, Bool.or_true, Bool.true_or]
    · rw [decide_eq_true hscore, Bool.or_true]
  lower_ascii := by
    intro s hs
    rw [List.all_eq_true] at hs
    show s.map Char.toLower = s
    conv_rhs => rw [← List.map_id s]
    exact List.map_congr_left fun c hc => toLower_of_isReportField (hs c hc)

/-- The output of two workers with Hyperscan, behind a line of the log. -/
theorem hostParseSingleResult_report_twoScans :
    ∃ output, regexOutput [some RegexTest.twoScans, none] [.noise noiseFive]
        ([] : List (OutputLine asciiText)) = some output ∧
      (hostParseSingleResult asciiText output).lookup "hs_total_scans".toList =
        some (((reportResults RegexTest.hsArgs (totalReport [some RegexTest.twoScans, none])).filter
          fun r => r.1 = "hs_total_scans".toList).map fun r => Text.decimal r.2.toNat) := by
  refine hostParseSingleResult_report asciiText_ascii (by decide) [some RegexTest.twoScans, none]
    ?_ ?_ ?_
  · intro l hl
    rw [List.append_nil, List.mem_singleton] at hl
    rw [hl]
    exact ⟨fun f hf => (by cases hf), fun f hf => (by cases hf)⟩
  · decide +kernel
  · exact List.not_mem_nil

end Autotest
end PamoRxpBench
