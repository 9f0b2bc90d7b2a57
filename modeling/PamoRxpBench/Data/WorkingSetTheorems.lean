import PamoRxpBench.Data.WorkingSet
import PamoRxpBench.Data.RxpcKeptTheorems
import Mathlib.Data.List.Sublists

/-!
# The working set is a fixpoint

The rules that `filter_rxpc` writes are rules of the file that it read (`filterCall_spec`), and
fewer if a pattern was reported. So the loop of `full_rxpc_filter` ends after as many calls as
there are rules and one more, whatever the compiler reports in each of them
(`fullRxpcFilter_fixpoint`).
-/

namespace PamoRxpBench
namespace Data

/-! ## Reading what was written -/

/-- A line of a rule, as it is read. -/
structure IsRuleLine (l : Text) : Prop where
  stripped : Text.strip l = l
  nonempty : l ≠ []
  no_newline : '\n' ∉ l
  no_comment : ¬ ['#'].isPrefixOf l = true

theorem isRuleLine_of_mem {file : List Text} {l : Text} (h : l ∈ ruleLines file) :
    IsRuleLine l := by
  obtain ⟨m, hm, hl⟩ := List.mem_map.mp h
  obtain ⟨hm, hcomment⟩ := List.mem_filter.mp hm
  obtain ⟨x, hx, hfilter⟩ := List.mem_map.mp hm
  have hblank := (List.mem_filter.mp hx).2
  rw [← hl]
  refine ⟨Text.strip_strip m, ?_, hl ▸ lineFeed_not_mem_of_mem_ruleLines h,
    by simpa using hcomment⟩
  · -- `x` has a character that is not blank, and it is not a line feed
    intro hnil
    rw [Text.strip_eq_nil_iff] at hnil
    have hall : Text.strip x = [] := by
      rw [Text.strip_eq_nil_iff]
      intro c hc
      by_cases hcr : c = '\n'
      · rw [hcr]
        decide
      · exact hnil c (hfilter ▸ List.mem_filter.mpr ⟨hc, by simpa using hcr⟩)
    simp [hall] at hblank

/-- The lines that are written are read back. -/
theorem ruleLines_written {ls : List Text} (h : ∀ l ∈ ls, IsRuleLine l) :
    ruleLines (ls.map fun l => l ++ ['\n']) = ls := by
  induction ls with
  | nil => rfl
  | cons l ls ih =>
    have hl := h l List.mem_cons_self
    have hstrip : Text.strip (l ++ ['\n']) = l := by
      rw [Text.strip_concat_of_isSpace (by decide), hl.stripped]
    have hchars : (l ++ ['\n']).filter (· ≠ '\n') = l := by
      rw [List.filter_append, List.filter_eq_self.mpr, List.filter_cons_of_neg (by decide)]
      · exact List.append_nil l
      · intro c hc
        exact decide_eq_true fun heq => hl.no_newline (heq ▸ hc)
    have hne : l ≠ ['\n'] := fun heq => hl.no_newline (heq ▸ List.mem_cons_self)
    have hrest := ih fun l' hl' => h l' (List.mem_cons_of_mem _ hl')
    have hlen : l.length ≠ 0 := fun hzero => hl.nonempty (List.length_eq_zero_iff.mp hzero)
    have hcomment := hl.no_comment
    unfold ruleLines filterWhitespace at hrest ⊢
    rw [List.map_cons, List.filter_cons_of_pos (by simp [hstrip, hne, hl.nonempty]),
      List.map_cons, hchars, List.filter_cons_of_pos (by simpa [hl.stripped] using hcomment),
      List.map_cons, hl.stripped, hrest]

/-! ## The compiler -/

/-- The ids that the last call found in the log. -/
def FullFilter.reported (s : FullFilter) : List ℕ := s.output.log.filterMap searchRuleId

/-- The variables of a call on some of the rules of `dbIn`, when it runs the compiler. -/
def Submittable (parseRule : Text → Option Rule) (maxRules : ℕ) (dbIn : List Text)
    (st : Submission) : Prop :=
  ∃ file, (ruleLines file).Sublist (ruleLines dbIn) ∧
    submitRules parseRule true true maxRules .init (ruleLines file) = .ok st

/-- What the code counts on, whatever the verdicts are: the log has ids of the submitted
patterns only, the summary has a count, and if that is positive the log has an id. The log may have
ids too when the count is 0. -/
structure RxpcDocumented (parseRule : Text → Option Rule) (rxpc : ℕ → Text → RxpcOutput)
    (maxRules : ℕ) (dbIn : List Text) : Prop where
  reported : ∀ n st, Submittable parseRule maxRules dbIn st →
    ∀ id ∈ st.reported fun rgxs => (rxpc n rgxs).log, id ∈ st.inRgxs.map Submitted.id
  summary : ∀ n st, Submittable parseRule maxRules dbIn st →
    ∃ count, rxcpGetNUncompiled (rxpc n (tempRgx st.inRgxs)).summary = some count ∧
      (0 < count → ∃ id, id ∈ st.reported fun rgxs => (rxpc n rgxs).log)

/-- A count of 0 means that the log has no id. -/
def CountsLog (rxpc : ℕ → Text → RxpcOutput) : Prop :=
  ∀ n rgxs, rxcpGetNUncompiled (rxpc n rgxs).summary = some 0 →
    (rxpc n rgxs).log.filterMap searchRuleId = []

variable {parseRule : Text → Option Rule} {rxpc : ℕ → Text → RxpcOutput} {maxRules : ℕ}
  {dbIn : List Text}

/-! ## One call -/

/-- The database of some rules, as it is written. -/
def Database.written (entries : List (RuleEntry parseRule))
    (hlines : ∀ e ∈ entries, IsRuleLine e.line) (hnodup : (entries.map RuleEntry.sid).Nodup) :
    Database parseRule (entries.map fun e => e.line ++ ['\n']) where
  entries := entries
  lines_eq := by
    have hwritten := ruleLines_written (List.forall_mem_map.mpr hlines)
    rwa [List.map_map] at hwritten
  nodup := hnodup

/-- A call on the rules `db` that leaves the rules `out`. -/
structure Filtered (rxpc : ℕ → Text → RxpcOutput) {file : List Text}
    (db : Database parseRule file) (n : ℕ) (s : FullFilter) (out : Database parseRule s.dbOut) :
    Prop where
  nIt : s.nIt = n
  output : s.output = rxpc n (tempRgx s.st.inRgxs)
  entries : out.entries.Sublist db.entries
  /-- Every pattern of a rule that is left was compiled, and it was not reported. -/
  compiled : ∀ e ∈ out.entries, ∀ x ∈ e.rule.enabledPatterns true true,
    ∃ p ∈ s.st.inRgxs, p.pattern = x ∧ p.id ∉ s.reported
  /-- A failing call removes a rule. -/
  count : ∃ count, rxcpGetNUncompiled s.output.summary = some count ∧
    (0 < count → out.entries.length < db.entries.length)

theorem Database.ruleLines_sublist {file file' : List Text} (db : Database parseRule file)
    (db' : Database parseRule file') (h : db.entries.Sublist db'.entries) :
    (ruleLines file).Sublist (ruleLines file') := by
  rw [db.lines_eq, db'.lines_eq]
  exact h.map _

/-- The patterns that `filter_rxpc` compiles are those submitted by its first loop. -/
theorem filterRxpc_submitted {log : Text → List Text} {file : List Text} {st : Submission}
    {kept : List Text} (h : filterRxpc parseRule log true true maxRules file = .ok (st, kept)) :
    ∃ st₀, submitRules parseRule true true maxRules .init (ruleLines file) = .ok st₀ ∧
      st.inRgxs = st₀.inRgxs := by
  obtain ⟨st₀, hrun, hrest⟩ := bind_eq_ok h
  obtain ⟨excludedSids, _, hrest⟩ := bind_eq_ok hrest
  obtain ⟨kept', _, hrest⟩ := bind_eq_ok hrest
  have hst := congrArg (fun out => out.1.inRgxs) (Except.ok.inj hrest)
  exact ⟨st₀, hrun, hst.symm⟩

/-- The rule `ej.1` of index `ej.2` was read, and the compiler takes it as a whole. -/
def Submission.takes (st : Submission) (reported : List ℕ) (ej : RuleEntry parseRule × ℕ) : Bool :=
  decide (ej.2 < st.line) && ej.1.rule.acceptable true true && st.compiled reported ej.2

/-- The rules that are written. -/
def Submission.keptEntries (st : Submission) {file : List Text} (db : Database parseRule file)
    (reported : List ℕ) : List (RuleEntry parseRule) :=
  (db.entries.zipIdx.filter (st.takes reported)).map Prod.fst

theorem Submission.keptEntries_sublist (st : Submission) {file : List Text}
    (db : Database parseRule file) (reported : List ℕ) :
    (st.keptEntries db reported).Sublist db.entries := by
  have hfilter := (List.filter_sublist (p := st.takes reported) (l := db.entries.zipIdx)).map
    Prod.fst
  rwa [List.zipIdx_map_fst] at hfilter

/-- What one call leaves, whatever the compiler reports. -/
theorem filterCall_spec (hrxpc : RxpcDocumented parseRule rxpc maxRules dbIn) {file : List Text}
    (db : Database parseRule file) (hfile : (ruleLines file).Sublist (ruleLines dbIn)) (n : ℕ) :
    ∃ s, ∃ out : Database parseRule s.dbOut,
      filterCall parseRule rxpc maxRules n file = .ok s ∧ Filtered rxpc db n s out := by
  have hsubmit : ∀ st, submitRules parseRule true true maxRules .init (ruleLines file) = .ok st →
      Submittable parseRule maxRules dbIn st := fun st hst => ⟨file, hfile, hst⟩
  obtain ⟨st, kept, hrun, hkeeps⟩ := filterRxpc_keeps (fun rgxs => (rxpc n rgxs).log) true true
    maxRules db fun st hst => hrxpc.reported n st (hsubmit st hst)
  obtain ⟨st₀, hrun₀, hst₀⟩ := filterRxpc_submitted hrun
  have hreported := hrxpc.reported n st₀ (hsubmit st₀ hrun₀)
  obtain ⟨count, hcount, hpositive⟩ := hrxpc.summary n st₀ (hsubmit st₀ hrun₀)
  rw [Submission.reported, ← hst₀] at hreported hpositive
  rw [← hst₀] at hcount
  have hsublist := st.keptEntries_sublist db (st.reported fun rgxs => (rxpc n rgxs).log)
  have hlines : ∀ e ∈ st.keptEntries db (st.reported fun rgxs => (rxpc n rgxs).log),
      IsRuleLine e.line := by
    intro e he
    refine isRuleLine_of_mem (?_ : e.line ∈ ruleLines file)
    rw [db.lines_eq]
    exact List.mem_map_of_mem (hsublist.subset he)
  have hkept : kept = (st.keptEntries db (st.reported fun rgxs => (rxpc n rgxs).log)).map
      fun e => e.line ++ ['\n'] := by
    rw [hkeeps.kept, Submission.keptEntries, List.map_map]
    rfl
  subst hkept
  refine ⟨⟨n, st, rxpc n (tempRgx st.inRgxs), _⟩,
    Database.written _ hlines ((hsublist.map RuleEntry.sid).nodup db.nodup), ?_, ?_⟩
  · unfold filterCall
    rw [hrun]
  · constructor
    case nIt => rfl
    case output => rfl
    case entries => exact hsublist
    case compiled =>
      intro e he x hx
      obtain ⟨⟨e', j⟩, hej, rfl⟩ := List.mem_map.mp he
      obtain ⟨hmem, hP⟩ := List.mem_filter.mp hej
      obtain ⟨hread, hcompiled⟩ := Bool.and_eq_true_iff.mp hP
      obtain ⟨hlt, hacceptable⟩ := Bool.and_eq_true_iff.mp hread
      have hpatterns := hkeeps.patterns j e' (List.mem_zipIdx_iff_getElem?.mp hmem)
        (of_decide_eq_true hlt) hacceptable
      obtain ⟨p, hp, rfl⟩ := List.mem_map.mp (hpatterns ▸ hx)
      obtain ⟨hp, hline⟩ := List.mem_filter.mp hp
      refine ⟨p, hp, rfl, fun hid => ?_⟩
      -- the line of a reported pattern is not kept
      have hnot := compiled_eq_false_iff.mpr ⟨p, hp, of_decide_eq_true hline, hid⟩
      exact Bool.false_ne_true (hnot.symm.trans hcompiled)
    case count =>
      refine ⟨count, hcount, fun hpos => ?_⟩
      obtain ⟨id, hid⟩ := hpositive hpos
      obtain ⟨p, hp, rfl⟩ := List.mem_map.mp (hreported id hid)
      have hlt := (hkeeps.submitted p hp).2
      have hmem : (db.entries[p.line], p.line) ∈ db.entries.zipIdx :=
        List.mem_zipIdx_iff_getElem?.mpr (List.getElem?_eq_getElem hlt)
      have hnot : ¬ st.takes (st.reported fun rgxs => (rxpc n rgxs).log)
          (db.entries[p.line], p.line) = true := by
        intro hP
        have hcompiled := (Bool.and_eq_true_iff.mp hP).2
        exact Bool.false_ne_true
          ((compiled_eq_false_iff.mpr ⟨p, hp, rfl, hid⟩).symm.trans hcompiled)
      show (List.map Prod.fst _).length < _
      rw [List.length_map, ← List.length_zipIdx (l := db.entries)]
      exact List.length_filter_lt_length_iff_exists.mpr ⟨_, hmem, hnot⟩

/-! ## All calls -/

/-- The loop is left with the count 0, and the rules in `db_out` are those of the last call. -/
structure Fixpoint (parseRule : Text → Option Rule) (rxpc : ℕ → Text → RxpcOutput)
    (s : FullFilter) : Prop where
  output : s.output = rxpc s.nIt (tempRgx s.st.inRgxs)
  noneUncompiled : rxcpGetNUncompiled s.output.summary = some 0
  /-- Every pattern of a rule in `db_out` was part of the last compilation, and the log does not
  have its id. -/
  compiled : ∀ l ∈ ruleLines s.dbOut, ∃ r, parseRule l = some r ∧
    ∀ x ∈ r.enabledPatterns true true, ∃ p ∈ s.st.inRgxs, p.pattern = x ∧ p.id ∉ s.reported
  /-- Nothing of the last compilation was reported, if a count of 0 says so. -/
  noneReported : CountsLog rxpc → s.reported = []

/-- A call with the count 0 leaves a fixpoint. -/
theorem Filtered.fixpoint {file : List Text} {db : Database parseRule file} {n : ℕ}
    {s : FullFilter} {out : Database parseRule s.dbOut} (h : Filtered rxpc db n s out)
    (hcount : rxcpGetNUncompiled s.output.summary = some 0) : Fixpoint parseRule rxpc s where
  output := h.nIt ▸ h.output
  noneUncompiled := hcount
  compiled := by
    intro l hl
    rw [out.lines_eq] at hl
    obtain ⟨e, he, rfl⟩ := List.mem_map.mp hl
    exact ⟨e.rule, e.parsed, h.compiled e he⟩
  noneReported := by
    intro hlog
    rw [FullFilter.reported, h.output]
    exact hlog n _ (h.output ▸ hcount)

/-- The loop after a call on `db`: each failing call leaves fewer rules than it was given. -/
theorem filterLoop_spec (hrxpc : RxpcDocumented parseRule rxpc maxRules dbIn) (fuel : ℕ)
    {file : List Text} {db : Database parseRule file} {n : ℕ} {s : FullFilter}
    {out : Database parseRule s.dbOut} (hfile : (ruleLines file).Sublist (ruleLines dbIn))
    (h : Filtered rxpc db n s out) (hfuel : db.entries.length < fuel) :
    ∃ res, filterLoop parseRule rxpc maxRules fuel s = .ok res ∧
      res.nIt ≤ n + db.entries.length ∧ Fixpoint parseRule rxpc res := by
  induction fuel generalizing file n s with
  | zero => exact absurd hfuel (Nat.not_lt_zero _)
  | succ fuel ih =>
    obtain ⟨count, hcount, hless⟩ := h.count
    unfold filterLoop
    rw [hcount]
    by_cases hpos : count > 0
    · have hlt := hless hpos
      have hout : (ruleLines s.dbOut).Sublist (ruleLines dbIn) :=
        (out.ruleLines_sublist db h.entries).trans hfile
      obtain ⟨s', out', hcall, h'⟩ := filterCall_spec hrxpc out hout (s.nIt + 1)
      obtain ⟨res, hres, hle, hfix⟩ := ih hout h' (by omega)
      refine ⟨res, ?_, by rw [h.nIt] at hle; omega, hfix⟩
      show (if count > 0 then _ else _) = _
      rw [if_pos hpos, hcall]
      exact hres
    · obtain rfl : count = 0 := by omega
      exact ⟨s, rfl, by rw [h.nIt]; omega, h.fixpoint hcount⟩

/-- Whatever the compiler reports in each call, `full_rxpc_filter` calls `filter_rxpc` at most once
more than there are rules, and it ends in a fixpoint. -/
theorem fullRxpcFilter_fixpoint (hrxpc : RxpcDocumented parseRule rxpc maxRules dbIn)
    (db : Database parseRule dbIn) (fuel : ℕ) (hfuel : db.entries.length < fuel) :
    ∃ res, fullRxpcFilter parseRule rxpc maxRules true fuel dbIn = .ok res ∧
      res.nIt ≤ db.entries.length + 1 ∧ Fixpoint parseRule rxpc res := by
  obtain ⟨s, out, hcall, h⟩ := filterCall_spec hrxpc db (List.Sublist.refl _) 1
  obtain ⟨res, hres, hle, hfix⟩ := filterLoop_spec hrxpc fuel (List.Sublist.refl _) h hfuel
  refine ⟨res, ?_, by omega, hfix⟩
  unfold fullRxpcFilter
  rw [hcall]
  exact hres

/-! ## Compilers -/

/-- The variables of all calls on some of the rules of a file. -/
def submissions (parseRule : Text → Option Rule) (maxRules : ℕ) (dbIn : List Text) :
    List Submission :=
  (ruleLines dbIn).sublists.filterMap fun lines =>
    (submitRules parseRule true true maxRules .init lines).toOption

theorem mem_submissions {st : Submission} (h : Submittable parseRule maxRules dbIn st) :
    st ∈ submissions parseRule maxRules dbIn := by
  obtain ⟨file, hfile, hst⟩ := h
  refine List.mem_filterMap.mpr ⟨ruleLines file, List.mem_sublists.mpr hfile, ?_⟩
  rw [hst]
  rfl

/-- A compiler that does the same in every call, and as documented on some of the rules. -/
theorem RxpcDocumented.of_submissions {compiler : Text → RxpcOutput}
    (hreported : ∀ st ∈ submissions parseRule maxRules dbIn,
      ∀ id ∈ st.reported fun rgxs => (compiler rgxs).log, id ∈ st.inRgxs.map Submitted.id)
    (hsummary : ∀ st ∈ submissions parseRule maxRules dbIn, ∃ count,
      rxcpGetNUncompiled (compiler (tempRgx st.inRgxs)).summary = some count ∧
        (0 < count → ∃ id, id ∈ st.reported fun rgxs => (compiler rgxs).log)) :
    RxpcDocumented parseRule (fun _ => compiler) maxRules dbIn where
  reported := fun _ st hst => hreported st (mem_submissions hst)
  summary := fun _ st hst => hsummary st (mem_submissions hst)

/-- A compiler that does not take the pattern `b`, which it finds behind the number 2. -/
def rejectsB (rgxs : Text) : RxpcOutput :=
  if "1, a\n2, b\n".toList.isPrefixOf rgxs then
    ⟨["rule_id: 2".toList], ["Total number of uncompiled rules,1".toList]⟩
  else ⟨[], ["Total number of uncompiled rules,0".toList]⟩

theorem documented_rejectsB : RxpcDocumented (fun l => some (lineRule l)) (fun _ => rejectsB)
    0xFFFFFFFF ["a\n".toList, "b\n".toList, "c\n".toList] := by
  refine .of_submissions (by decide +kernel) fun st hst => ?_
  have hcount : ∀ st ∈ submissions (fun l => some (lineRule l)) 0xFFFFFFFF
      ["a\n".toList, "b\n".toList, "c\n".toList],
      rxcpGetNUncompiled (rejectsB (tempRgx st.inRgxs)).summary =
        some (st.reported fun rgxs => (rejectsB rgxs).log).length := by decide +kernel
  refine ⟨_, hcount st hst, fun hpos => ?_⟩
  exact List.exists_mem_of_length_pos hpos

/-- The second rule is filtered out, and the other two are the fixpoint. -/
theorem fullRxpcFilter_fixpoint_rejectsB :
    ∃ res, fullRxpcFilter (fun l => some (lineRule l)) (fun _ => rejectsB) 0xFFFFFFFF true 4
        ["a\n".toList, "b\n".toList, "c\n".toList] = .ok res ∧
      res.nIt ≤ lineRules.entries.length + 1 ∧
      Fixpoint (fun l => some (lineRule l)) (fun _ => rejectsB) res :=
  fullRxpcFilter_fixpoint documented_rejectsB lineRules 4 (by decide)

/-- A compiler that leaves the id of the first pattern in its log, and does not count it. -/
def silent (rgxs : Text) : RxpcOutput :=
  ⟨if rgxs = [] then [] else ["rule_id: 1".toList], ["Total number of uncompiled rules,0".toList]⟩

/-- The loop ends after the first call, in which a pattern was reported. -/
theorem not_noneReported_silent :
    RxpcDocumented (fun l => some (lineRule l)) (fun _ => silent) 0xFFFFFFFF
        ["a\n".toList, "b\n".toList, "c\n".toList] ∧
      ∃ res, fullRxpcFilter (fun l => some (lineRule l)) (fun _ => silent) 0xFFFFFFFF true 4
          ["a\n".toList, "b\n".toList, "c\n".toList] = .ok res ∧
        ∃ p ∈ res.st.inRgxs, p.id ∈ res.reported := by
  constructor
  · have hcount : rxcpGetNUncompiled ["Total number of uncompiled rules,0".toList] = some 0 := by
      decide
    refine .of_submissions (by decide +kernel) fun st _ => ⟨0, hcount, ?_⟩
    exact fun h => absurd h (Nat.lt_irrefl 0)
  · have hresult : ((fullRxpcFilter (fun l => some (lineRule l)) (fun _ => silent) 0xFFFFFFFF true 4
        ["a\n".toList, "b\n".toList, "c\n".toList]).toOption.map fun res =>
          res.st.inRgxs.any fun p => res.reported.contains p.id) = some true := by decide +kernel
    obtain ⟨res, hres, hany⟩ := Option.map_eq_some_iff.mp hresult
    obtain ⟨p, hp, hid⟩ := List.any_eq_true.mp hany
    match hrun : fullRxpcFilter (fun l => some (lineRule l)) (fun _ => silent) 0xFFFFFFFF true 4
        ["a\n".toList, "b\n".toList, "c\n".toList] with
    | .error e =>
      rw [hrun] at hres
      cases hres
    | .ok res' =>
      rw [hrun] at hres
      obtain rfl := Option.some.inj hres
      exact ⟨_, rfl, p, hp, List.contains_iff_mem.mp hid⟩

end Data
end PamoRxpBench
