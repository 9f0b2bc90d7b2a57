import PamoRxpBench.Data.RuleSampler

/-!
# `data`: which rules the Hyperscan filter removes

`filter_hyperscan` should remove the rules of which an expression fails. `to_hyperscan` counts
the expressions from 0 for `id2sid` and from 1 for the ids in front of them in `temp.hst`, so
a verdict is credited to the rule of the following expression.

* `numberRules_database`: what the first loop numbers;
* `exportLines_ok_iff`: when `temp.hst` is written;
* `foldlM_excludeLine_report`: what is read back from the output of `hscheck`;
* `filterHyperscan_exact_iff`: when the result is right all the same.
-/

namespace PamoRxpBench
namespace Data

variable {parseRule : Text → Option Rule}

/-! ## Databases -/

/-- A line of a database, with the rule it is parsed to and the sid of that rule. -/
structure RuleEntry (parseRule : Text → Option Rule) where
  line : Text
  rule : Rule
  sid : Text
  parsed : parseRule line = some rule
  sid_eq : rule.sid = .ok sid
deriving DecidableEq

/-- An entry is determined by its line. -/
theorem RuleEntry.eq_of_line {e e' : RuleEntry parseRule} (h : e.line = e'.line) : e = e' := by
  obtain ⟨line, rule, sid, parsed, sid_eq⟩ := e
  obtain ⟨line', rule', sid', parsed', sid_eq'⟩ := e'
  have hline : line = line' := h
  subst hline
  have hrule : rule = rule' := Option.some.inj (parsed.symm.trans parsed')
  subst hrule
  have hsid : sid = sid' := Except.ok.inj (sid_eq.symm.trans sid_eq')
  subst hsid
  rfl

/-- The expressions of a rule, in the order in which they are exported. -/
def Rule.expressions (r : Rule) : List Text := r.pcres ++ r.literals

/-- A file whose lines are rules with pairwise distinct sids. -/
structure Database (parseRule : Text → Option Rule) (file : List Text) where
  entries : List (RuleEntry parseRule)
  lines_eq : ruleLines file = entries.map RuleEntry.line
  nodup : (entries.map RuleEntry.sid).Nodup

/-- The expressions of some entries, each with the entry it is from. -/
def ownedExpressions (entries : List (RuleEntry parseRule)) :
    List (RuleEntry parseRule × Text) :=
  entries.flatMap fun e => e.rule.expressions.map fun x => (e, x)

variable {file : List Text}

/-- The expressions of a database. -/
def Database.expressions (db : Database parseRule file) : List (RuleEntry parseRule × Text) :=
  ownedExpressions db.entries

/-- The rule of expression `k`, counted from 0. -/
def Database.owner (db : Database parseRule file) (k : ℕ) : Option (RuleEntry parseRule) :=
  db.expressions[k]?.map Prod.fst

/-! ## The numbering -/

/-- `n` has numbered these expressions: it counts from 0. -/
structure Numbering.Numbers (n : Numbering) (xs : List (RuleEntry parseRule × Text)) : Prop where
  i_eq : n.i = xs.length
  lookup : ∀ k : ℕ, IdMap.get? n.id2sid k = xs[k]?.map fun x => x.1.sid

/-- The next id goes to the next expression. -/
theorem Numbering.Numbers.assign {n : Numbering} {xs : List (RuleEntry parseRule × Text)}
    (h : n.Numbers xs) (e : RuleEntry parseRule) (x : Text) :
    (n.assign e.sid).Numbers (xs ++ [(e, x)]) := by
  refine ⟨?_, fun k => ?_⟩
  · show n.i + 1 = _
    rw [h.i_eq, List.length_append]
    rfl
  · show AList.lookup (k : ℤ) (n.id2sid.insert (n.i : ℤ) e.sid) = _
    by_cases hk : k = n.i
    · rw [hk, AList.lookup_insert, h.i_eq]
      simp
    · rw [AList.lookup_insert_ne (by omega)]
      refine (h.lookup k).trans ?_
      rcases Nat.lt_or_gt_of_ne hk with hlt | hgt
      · rw [List.getElem?_append_left (h.i_eq ▸ hlt)]
      · rw [List.getElem?_eq_none, List.getElem?_eq_none]
        · rw [List.length_append]
          have := h.i_eq
          simp only [List.length_singleton]
          omega
        · have := h.i_eq
          omega

theorem Numbering.Numbers.foldl_assign {n : Numbering} {xs : List (RuleEntry parseRule × Text)}
    (h : n.Numbers xs) (e : RuleEntry parseRule) (texts : List Text) :
    (texts.foldl (fun n _ => n.assign e.sid) n).Numbers (xs ++ texts.map fun x => (e, x)) := by
  induction texts generalizing n xs with
  | nil => simpa using h
  | cons x texts ih =>
    have := ih (h.assign e x)
    rwa [List.append_assoc] at this

theorem Numbering.Numbers.addRule {n : Numbering} {xs : List (RuleEntry parseRule × Text)}
    (h : n.Numbers xs) (e : RuleEntry parseRule) :
    (n.addRule e.sid e.rule).Numbers (xs ++ e.rule.expressions.map fun x => (e, x)) := by
  have hboth := (h.foldl_assign e e.rule.pcres).foldl_assign e e.rule.literals
  rw [List.append_assoc, ← List.map_append] at hboth
  exact ⟨hboth.i_eq, hboth.lookup⟩

theorem assign_foldl_patterns (sid : Text) (texts : List Text) (n : Numbering) :
    (texts.foldl (fun n _ => n.assign sid) n).patterns = n.patterns := by
  induction texts generalizing n with
  | nil => rfl
  | cons x texts ih => exact ih (n.assign sid)

theorem Numbering.addRule_patterns (sid : Text) (r : Rule) (n : Numbering) :
    (n.addRule sid r).patterns = n.patterns ++ r.expressions := by
  show (r.literals.foldl _ (r.pcres.foldl _ n)).patterns ++ _ = _
  rw [assign_foldl_patterns, assign_foldl_patterns]
  rfl

/-- The loop over the rules, started where the expressions `xs` are numbered. -/
theorem numberRules_entries (entries : List (RuleEntry parseRule)) {n : Numbering}
    {xs : List (RuleEntry parseRule × Text)} (h : n.Numbers xs)
    (hpat : n.patterns = xs.map Prod.snd) :
    ∃ n', numberRules parseRule n (entries.map RuleEntry.line) = .ok n' ∧
      n'.Numbers (xs ++ ownedExpressions entries) ∧
      n'.patterns = (xs ++ ownedExpressions entries).map Prod.snd := by
  induction entries generalizing n xs with
  | nil =>
    exact ⟨n, rfl, by simpa [ownedExpressions] using h, by simpa [ownedExpressions] using hpat⟩
  | cons e entries ih =>
    have hpat' : (n.addRule e.sid e.rule).patterns =
        (xs ++ e.rule.expressions.map fun x => (e, x)).map Prod.snd := by
      rw [Numbering.addRule_patterns, hpat, List.map_append, List.map_map]
      simp [Function.comp_def]
    obtain ⟨n', hrun, hnum, hpatterns⟩ := ih (h.addRule e) hpat'
    refine ⟨n', ?_, ?_, ?_⟩
    · rw [List.map_cons, numberRules, parsedRule, e.parsed]
      show (e.rule.sid >>= _) = _
      rw [e.sid_eq]
      exact hrun
    · rwa [List.append_assoc] at hnum
    · rwa [List.append_assoc] at hpatterns

/-- What the loop over the rules of a database returns. -/
theorem numberRules_database (db : Database parseRule file) :
    ∃ n, numberRules parseRule ⟨[], 0, ∅⟩ (ruleLines file) = .ok n ∧
      n.patterns = db.expressions.map Prod.snd ∧
      ∀ k : ℕ, IdMap.get? n.id2sid k = (db.owner k).map RuleEntry.sid := by
  have hinit : (⟨[], 0, ∅⟩ : Numbering).Numbers ([] : List (RuleEntry parseRule × Text)) :=
    ⟨rfl, fun k => AList.lookup_empty (k : ℤ)⟩
  obtain ⟨n, hrun, hnum, hpat⟩ := numberRules_entries db.entries hinit rfl
  rw [← db.lines_eq] at hrun
  refine ⟨n, hrun, hpat, fun k => ?_⟩
  rw [hnum.lookup k, Database.owner, Option.map_map]
  rfl

/-! ## The exported lines -/

theorem searchBody_occurs {line body : Text} (h : searchBody line = some body) :
    body <:+: line := by
  unfold searchBody at h
  split at h
  · rename_i rest
    simp only [Option.ite_none_right_eq_some, Option.some.injEq] at h
    have hbody : body <+: rest := by
      rw [← h.2]
      exact (List.dropLast_prefix _).trans
        ((List.rdropWhile_prefix _ _).trans (List.takeWhile_prefix _))
    exact hbody.isInfix.trans (List.suffix_cons '/' rest).isInfix
  · exact absurd h (by simp)

/-- An expression is exported unless its body is empty: there is no empty separator. -/
theorem exportLine_ok_iff (i : ℕ) (line : Text) :
    (∃ out, exportLine true i line = .ok out) ↔ searchBody line ≠ some [] := by
  unfold exportLine
  cases hbody : searchBody line with
  | none => simp
  | some body =>
    have hmatched : matchedPattern line = body := by rw [matchedPattern, hbody, Option.getD_some]
    rw [if_pos (by simp), hmatched]
    by_cases hempty : body = []
    · subst hempty
      simp [Text.split]
    · obtain ⟨a, b, rest, hsplit⟩ := Text.one_lt_length_split hempty (searchBody_occurs hbody)
      rw [hsplit]
      simp [hempty]

/-- The export raises at an expression with an empty body, and only there. -/
theorem exportLines_ok_iff (i : ℕ) (lines : List Text) :
    (∃ outs, exportLines true i lines = .ok outs) ↔ ∀ line ∈ lines, searchBody line ≠ some [] := by
  induction lines generalizing i with
  | nil => simp [exportLines]
  | cons line lines ih =>
    rw [List.forall_mem_cons, ← exportLine_ok_iff i line, ← ih (i + 1), exportLines]
    constructor
    · rintro ⟨outs, h⟩
      cases hline : exportLine true i line with
      | error e => rw [hline] at h; exact nomatch h
      | ok out =>
        cases hrest : exportLines true (i + 1) lines with
        | error e => rw [hline, hrest] at h; exact nomatch h
        | ok outs => exact ⟨⟨out, rfl⟩, outs, rfl⟩
    · rintro ⟨⟨out, hline⟩, outs, hrest⟩
      rw [hline, hrest]
      exact ⟨_, rfl⟩

/-- A line with a body is exported with its number, counted from 1, in front. -/
theorem exportLine_number {i : ℕ} {line out : Text} (hbody : (searchBody line).isSome)
    (h : exportLine true i line = .ok out) : Text.decimal (i + 1) ++ [':'] <+: out := by
  unfold exportLine at h
  rw [if_pos ⟨hbody, rfl⟩] at h
  split at h
  · exact nomatch h
  · rename_i a b _ _
    rw [← Except.ok.inj h]
    exact ⟨a ++ fixedPattern line ++ b, by simp⟩
  · exact nomatch h

/-! ## The output of `hscheck` -/

/-- A text without a line break. -/
abbrev Line := { t : Text // '\n' ∉ t }

/-- What a line about a failure starts with. -/
abbrev FailKind :=
  { t : Text // ':' ∉ t ∧ '\n' ∉ t ∧ t ∉ [okWord, summaryWord] }

/-- A line of output: the verdict on an expression with its number, or the summary. -/
inductive Verdict
  | ok (id : ℕ) (expr : Line)
  | fail (kind : FailKind) (id : ℕ) (expr msg : Line)
  | summary (text : Line)

/-- The text of a line of output. -/
def Verdict.line : Verdict → Text
  | .ok id expr => okWord ++ ':' :: ' ' :: Text.decimal id ++ ':' :: expr.1
  | .fail kind id expr msg =>
    kind.1 ++ ':' :: ' ' :: Text.decimal id ++ ':' :: expr.1 ++ ':' :: ' ' :: msg.1
  | .summary text => summaryWord ++ ':' :: ' ' :: text.1

/-- The number of the expression a line reports as failing. -/
def Verdict.failed? : Verdict → Option ℕ
  | .fail _ id _ _ => some id
  | _ => none

/-- The numbers of the expressions reported as failing. -/
def failedIds (verdicts : List Verdict) : List ℕ := verdicts.filterMap Verdict.failed?

/-- The output with these lines. -/
def report (verdicts : List Verdict) : Text := verdicts.flatMap fun v => v.line ++ ['\n']

/-- The effect of one reported number. -/
def excludeId (id2sid : IdMap) (excludedSids : List Text) (id : ℕ) : Except Error (List Text) :=
  match IdMap.get? id2sid id with
  | none => .error .keyError
  | some sid => .ok (excludedSids.insert sid)

theorem decimal_not_mem {n : ℕ} {c : Char} (hc : c.isDigit = false) : c ∉ Text.decimal n :=
  fun h => Text.ne_of_isDigit (Text.isDigit_of_mem_decimal h) hc rfl

theorem line_not_mem (v : Verdict) : '\n' ∉ v.line := by
  have hid : ∀ id, '\n' ∉ Text.decimal id := fun id => decimal_not_mem (by decide)
  cases v <;> simp only [Verdict.line, List.mem_append, List.mem_cons, not_or]
  case ok id expr =>
    exact ⟨⟨by decide, by decide, by decide, hid id⟩, by decide, expr.2⟩
  case fail kind id expr msg =>
    exact ⟨⟨⟨kind.2.2.1, by decide, by decide, hid id⟩, by decide, expr.2⟩,
      by decide, by decide, msg.2⟩
  case summary text =>
    exact ⟨by decide, by decide, by decide, text.2⟩

/-- A line that starts with `OK` or `SUMMARY` excludes nothing. -/
theorem excludeLine_of_passed (id2sid : IdMap) (acc : List Text) {kind rest : Text}
    (hkind : kind ∈ [okWord, summaryWord]) :
    excludeLine id2sid acc (kind ++ ':' :: rest) = .ok acc := by
  have hcolon : ':' ∉ kind := by
    rcases List.mem_pair.mp hkind with rfl | rfl <;> decide
  unfold excludeLine
  rw [List.splitOn_append_cons_self_of_not_mem hcolon]
  split
  · rename_i kind' id c d rest' heq
    rw [← (List.cons.inj heq).1, if_pos hkind]
  · rfl

/-- A line is read as the verdict it is the text of. -/
theorem excludeLine_line (id2sid : IdMap) (acc : List Text) (v : Verdict) :
    excludeLine id2sid acc v.line =
      match v.failed? with
      | none => .ok acc
      | some id => excludeId id2sid acc id := by
  cases v with
  | ok id expr =>
    show excludeLine id2sid acc (okWord ++ ':' :: ' ' :: Text.decimal id ++ _) = .ok acc
    rw [List.append_assoc]
    exact excludeLine_of_passed id2sid acc (by simp)
  | summary text => exact excludeLine_of_passed id2sid acc (by simp)
  | fail kind id expr msg =>
    have hsplit : (Verdict.fail kind id expr msg).line.splitOn ':' =
        kind.1 :: (' ' :: Text.decimal id) ::
          (expr.1.splitOn ':' ++ (' ' :: msg.1).splitOn ':') := by
      have hid : ':' ∉ ' ' :: Text.decimal id :=
        List.not_mem_cons_of_ne_of_not_mem (by decide) (decimal_not_mem (by decide))
      calc (Verdict.fail kind id expr msg).line.splitOn ':'
          = (kind.1 ++ ':' :: ((' ' :: Text.decimal id) ++ ':' ::
              (expr.1 ++ ':' :: ' ' :: msg.1))).splitOn ':' := by
            simp only [Verdict.line, List.append_assoc, List.cons_append]
        _ = _ := by
            rw [List.splitOn_append_cons_self_of_not_mem kind.2.1,
              List.splitOn_append_cons_self_of_not_mem hid, List.splitOn_append_cons_self]
    -- the two texts after the number give the line more than three parts
    obtain ⟨c, cs, hexpr⟩ := List.exists_cons_of_ne_nil (List.splitOn_ne_nil ':' expr.1)
    obtain ⟨d, ds, hmsg⟩ := List.exists_cons_of_ne_nil (List.splitOn_ne_nil ':' (' ' :: msg.1))
    obtain ⟨e, es, htail⟩ : ∃ e es, cs ++ d :: ds = e :: es :=
      List.exists_cons_of_ne_nil (by simp)
    rw [hexpr, hmsg, List.cons_append, htail] at hsplit
    unfold excludeLine
    rw [hsplit]
    simp only [if_neg kind.2.2.2, Text.strip_blank_decimal, Text.readInt_decimal]
    rfl

/-- The loop over the output excludes the sids of the reported numbers. -/
theorem foldlM_excludeLine_report (id2sid : IdMap) (verdicts : List Verdict) :
    ((report verdicts).splitOn '\n').foldlM (excludeLine id2sid) [] =
      (failedIds verdicts).foldlM (excludeId id2sid) [] := by
  have hgen : ∀ acc, ((report verdicts).splitOn '\n').foldlM (excludeLine id2sid) acc =
      (failedIds verdicts).foldlM (excludeId id2sid) acc := by
    induction verdicts with
    | nil => exact fun acc => rfl
    | cons v verdicts ih =>
      intro acc
      have hreport : (report (v :: verdicts)).splitOn '\n' =
          v.line :: (report verdicts).splitOn '\n' := by
        rw [← List.splitOn_append_cons_self_of_not_mem (line_not_mem v)]
        simp [report]
      rw [hreport, List.foldlM_cons, excludeLine_line]
      cases hv : v.failed? with
      | none =>
        rw [failedIds, List.filterMap_cons_none hv]
        exact ih acc
      | some id =>
        rw [failedIds, List.filterMap_cons_some hv, List.foldlM_cons]
        exact bind_congr ih
  exact hgen []

/-- Ids that are known exclude their sids and no others. -/
theorem exists_foldlM_excludeId {id2sid : IdMap} {ids : List ℕ}
    (h : ∀ id ∈ ids, IdMap.get? id2sid id ≠ none) (acc : List Text) :
    ∃ excluded, ids.foldlM (excludeId id2sid) acc = .ok excluded ∧
      ∀ sid, sid ∈ excluded ↔ sid ∈ acc ∨ ∃ id ∈ ids, IdMap.get? id2sid id = some sid := by
  induction ids generalizing acc with
  | nil => exact ⟨acc, rfl, by simp⟩
  | cons id ids ih =>
    obtain ⟨sid, hsid⟩ := Option.ne_none_iff_exists'.mp (h id (by simp))
    obtain ⟨excluded, hrun, hmem⟩ := ih (fun i hi => h i (by simp [hi])) (acc.insert sid)
    refine ⟨excluded, ?_, fun s => ?_⟩
    · rw [List.foldlM_cons, excludeId, hsid]
      exact hrun
    · rw [hmem, List.mem_insert_iff]
      simp only [List.mem_cons, exists_eq_or_imp, hsid, Option.some.injEq]
      rw [@eq_comm _ sid s]
      grind

/-- A number without a sid stops the loop. -/
theorem foldlM_excludeId_ok {id2sid : IdMap} {ids : List ℕ} {acc excluded : List Text}
    (h : ids.foldlM (excludeId id2sid) acc = .ok excluded) :
    ∀ id ∈ ids, IdMap.get? id2sid id ≠ none := by
  induction ids generalizing acc with
  | nil => simp
  | cons id ids ih =>
    rw [List.foldlM_cons, excludeId] at h
    cases hid : IdMap.get? id2sid id with
    | none => rw [hid] at h; exact nomatch h
    | some sid =>
      rw [hid] at h
      exact List.forall_mem_cons.mpr ⟨by simp [hid], ih h⟩

/-! ## What is written -/

/-- The rules that are kept are those whose sid is not excluded. -/
theorem keepRules_entries (entries : List (RuleEntry parseRule)) (excludedSids : List Text) :
    keepRules parseRule excludedSids (entries.map RuleEntry.line) =
      .ok ((entries.filter fun e => e.sid ∉ excludedSids).map fun e => e.line ++ ['\n']) := by
  induction entries with
  | nil => rfl
  | cons e entries ih =>
    have hstep : keepRules parseRule excludedSids ((e :: entries).map RuleEntry.line) =
        keepRules parseRule excludedSids (entries.map RuleEntry.line) >>= fun kept =>
          .ok (if e.sid ∉ excludedSids then (e.line ++ ['\n']) :: kept else kept) := by
      rw [List.map_cons, keepRules, parsedRule, e.parsed]
      show (e.rule.sid >>= _) = _
      rw [e.sid_eq]
      rfl
    rw [hstep, ih]
    by_cases he : e.sid ∈ excludedSids <;> simp [he, bind, Except.bind]

/-- Two selections of the rules give the same file only if they are the same. -/
theorem filter_lines_inj {entries : List (RuleEntry parseRule)} {p q : RuleEntry parseRule → Bool}
    (h : ((entries.filter p).map fun e => e.line ++ ['\n']) =
      (entries.filter q).map fun e => e.line ++ ['\n']) : ∀ e ∈ entries, p e = q e := by
  have hone : ∀ {p q : RuleEntry parseRule → Bool},
      ((entries.filter p).map fun e => e.line ++ ['\n']) =
        (entries.filter q).map (fun e => e.line ++ ['\n']) →
      ∀ e ∈ entries, p e = true → q e = true := by
    intro p q h e he hp
    have hmem : e.line ++ ['\n'] ∈ (entries.filter q).map fun e => e.line ++ ['\n'] := by
      rw [← h]
      exact List.mem_map_of_mem (List.mem_filter.mpr ⟨he, hp⟩)
    obtain ⟨e', he', hline⟩ := List.mem_map.mp hmem
    rw [← RuleEntry.eq_of_line (List.append_cancel_right hline)]
    exact (List.mem_filter.mp he').2
  intro e he
  exact Bool.eq_iff_iff.mpr ⟨hone h e he, hone h.symm e he⟩

/-! ## Which rules are removed -/

theorem mem_entries_of_owner {db : Database parseRule file} {k : ℕ} {e : RuleEntry parseRule}
    (h : db.owner k = some e) : e ∈ db.entries := by
  obtain ⟨x, hx, rfl⟩ := Option.map_eq_some_iff.mp h
  obtain ⟨e, he, hmap⟩ := List.mem_flatMap.mp (List.mem_of_getElem? hx)
  obtain ⟨text, _, rfl⟩ := List.mem_map.mp hmap
  exact he

theorem owner_eq_none_iff (db : Database parseRule file) (k : ℕ) :
    db.owner k = none ↔ db.expressions.length ≤ k := by
  rw [Database.owner, Option.map_eq_none_iff, List.getElem?_eq_none_iff]

/-- An expression of the rule is reported: expression `k` has number `k + 1` in `temp.hst`. -/
def Database.Reported (db : Database parseRule file) (verdicts : List Verdict)
    (e : RuleEntry parseRule) : Prop :=
  ∃ id ∈ failedIds verdicts, db.owner (id - 1) = some e

instance (db : Database parseRule file) (verdicts : List Verdict) (e : RuleEntry parseRule) :
    Decidable (db.Reported verdicts e) :=
  inferInstanceAs (Decidable (∃ id ∈ failedIds verdicts, db.owner (id - 1) = some e))

/-- `hscheck` runs, prints these verdicts, and the numbers of the failures are numbers in front
of expressions of `temp.hst` (`exportLine_number`). -/
structure Checked (hscheck : Text → Completed) (db : Database parseRule file)
    (verdicts : List Verdict) : Prop where
  ran : ∀ lines id2sid, toHyperscan parseRule false true file = .ok (lines, id2sid) →
    hscheck (tempHst lines) = ⟨0, report verdicts⟩
  numbered : ∀ id ∈ failedIds verdicts, ∃ k x,
    id = k + 1 ∧ db.expressions[k]? = some x ∧ (searchBody x.2).isSome

/-- What the filter is for: the rules of which no expression is reported are written, in their
order, and nothing fails. -/
def RemovesFailing (hscheck : Text → Completed) (db : Database parseRule file)
    (verdicts : List Verdict) : Prop :=
  filterHyperscan parseRule hscheck file =
    .ok ((db.entries.filter fun e => ¬ db.Reported verdicts e).map fun e => e.line ++ ['\n'])

/-- The numbering does no harm: every body can be searched for, the last expression is not
reported, and the rules of the expressions after the reported ones are the rules of the
reported ones. -/
structure ShiftHarmless (db : Database parseRule file) (verdicts : List Verdict) : Prop where
  nonempty : ∀ x ∈ db.expressions, searchBody x.2 ≠ some []
  notLast : ∀ id ∈ failedIds verdicts, id ≠ db.expressions.length
  reported_of_next : ∀ id ∈ failedIds verdicts, ∃ id' ∈ failedIds verdicts,
    db.owner (id' - 1) = db.owner id
  next_of_reported : ∀ id ∈ failedIds verdicts, ∃ id' ∈ failedIds verdicts,
    db.owner id' = db.owner (id - 1)

/-- The rules the code excludes are those of the expressions after the reported ones. -/
theorem sid_mem_excluded_iff {db : Database parseRule file} {id2sid : IdMap} {ids : List ℕ}
    {excluded : List Text} (hget : ∀ k : ℕ, IdMap.get? id2sid k = (db.owner k).map RuleEntry.sid)
    (hmem : ∀ sid, sid ∈ excluded ↔ sid ∈ [] ∨ ∃ id ∈ ids, IdMap.get? id2sid id = some sid)
    {e : RuleEntry parseRule} (he : e ∈ db.entries) :
    e.sid ∈ excluded ↔ ∃ id ∈ ids, db.owner id = some e := by
  rw [hmem]
  constructor
  · rintro (h | ⟨id, hid, hsid⟩)
    · exact absurd h List.not_mem_nil
    · rw [hget] at hsid
      obtain ⟨e', howner, heq⟩ := Option.map_eq_some_iff.mp hsid
      have : e' = e := List.inj_on_of_nodup_map db.nodup (mem_entries_of_owner howner) he heq
      exact ⟨id, hid, this ▸ howner⟩
  · rintro ⟨id, hid, howner⟩
    exact .inr ⟨id, hid, by rw [hget, howner, Option.map_some]⟩

/-- What `to_hyperscan` does after the first loop. -/
theorem toHyperscan_of_numberRules {n : Numbering}
    (h : numberRules parseRule ⟨[], 0, ∅⟩ (ruleLines file) = .ok n) :
    toHyperscan parseRule false true file =
      exportLines true 0 n.patterns >>= fun lines => .ok (lines, some n.id2sid) := by
  rw [toHyperscan, if_neg Bool.false_ne_true, h]
  rfl

/-- `filter_hyperscan` after a successful export. -/
theorem filterHyperscan_of_nonempty {hscheck : Text → Completed} {db : Database parseRule file}
    {verdicts : List Verdict} (hchecked : Checked hscheck db verdicts)
    (hne : ∀ x ∈ db.expressions, searchBody x.2 ≠ some []) :
    ∃ id2sid : IdMap, (∀ k : ℕ, IdMap.get? id2sid k = (db.owner k).map RuleEntry.sid) ∧
      filterHyperscan parseRule hscheck file =
        (failedIds verdicts).foldlM (excludeId id2sid) [] >>= fun excluded =>
          .ok ((db.entries.filter fun e => e.sid ∉ excluded).map fun e => e.line ++ ['\n']) := by
  obtain ⟨n, hnumber, hpatterns, hget⟩ := numberRules_database db
  have hlines : ∃ lines, exportLines true 0 n.patterns = .ok lines := by
    rw [exportLines_ok_iff, hpatterns]
    exact List.forall_mem_map.mpr hne
  obtain ⟨lines, hexport⟩ := hlines
  have hrun : toHyperscan parseRule false true file = .ok (lines, some n.id2sid) := by
    rw [toHyperscan_of_numberRules hnumber, hexport]
    rfl
  refine ⟨n.id2sid, hget, ?_⟩
  rw [filterHyperscan, hrun]
  show (if (hscheck (tempHst lines)).returncode ≠ 0 then _ else _) = _
  rw [hchecked.ran lines _ hrun, if_neg (by simp), db.lines_eq]
  show (_ >>= _) = _
  rw [foldlM_excludeLine_report]
  exact bind_congr fun excluded => keepRules_entries db.entries excluded

/-- Without a successful export nothing is written. -/
theorem nonempty_of_filterHyperscan_ok {hscheck : Text → Completed}
    (db : Database parseRule file) {out : List Text}
    (h : filterHyperscan parseRule hscheck file = .ok out) :
    ∀ x ∈ db.expressions, searchBody x.2 ≠ some [] := by
  obtain ⟨n, hnumber, hpatterns, -⟩ := numberRules_database db
  have hlines : ∃ lines, exportLines true 0 n.patterns = .ok lines := by
    cases hexport : exportLines true 0 n.patterns with
    | ok lines => exact ⟨lines, rfl⟩
    | error e =>
      have hrun : toHyperscan parseRule false true file = .error e := by
        rw [toHyperscan_of_numberRules hnumber, hexport]
        rfl
      rw [filterHyperscan, hrun] at h
      exact nomatch h
  rw [exportLines_ok_iff, hpatterns] at hlines
  exact fun x hx => hlines x.2 (List.mem_map_of_mem hx)

/-- The rules after the reported expressions are the reported rules, as the two inclusions that
`ShiftHarmless` names. -/
theorem next_iff_reported {db : Database parseRule file} {verdicts : List Verdict}
    (hnext : ∀ id ∈ failedIds verdicts, ∃ e, db.owner id = some e)
    (hprev : ∀ id ∈ failedIds verdicts, ∃ e, db.owner (id - 1) = some e) :
    (∀ e ∈ db.entries, (∃ id ∈ failedIds verdicts, db.owner id = some e) ↔
        db.Reported verdicts e) ↔
      (∀ id ∈ failedIds verdicts, ∃ id' ∈ failedIds verdicts,
        db.owner (id' - 1) = db.owner id) ∧
      ∀ id ∈ failedIds verdicts, ∃ id' ∈ failedIds verdicts,
        db.owner id' = db.owner (id - 1) := by
  constructor
  · intro h
    constructor
    · intro id hid
      obtain ⟨e, he⟩ := hnext id hid
      obtain ⟨id', hid', howner⟩ := (h e (mem_entries_of_owner he)).mp ⟨id, hid, he⟩
      exact ⟨id', hid', howner.trans he.symm⟩
    · intro id hid
      obtain ⟨e, he⟩ := hprev id hid
      obtain ⟨id', hid', howner⟩ := (h e (mem_entries_of_owner he)).mpr ⟨id, hid, he⟩
      exact ⟨id', hid', howner.trans he.symm⟩
  · rintro ⟨hleft, hright⟩ e -
    constructor
    · rintro ⟨id, hid, howner⟩
      obtain ⟨id', hid', h⟩ := hleft id hid
      exact ⟨id', hid', h.trans howner⟩
    · rintro ⟨id, hid, howner⟩
      obtain ⟨id', hid', h⟩ := hright id hid
      exact ⟨id', hid', h.trans howner⟩

/-- A successful export and complete lookups: what is left is which rules are excluded. -/
theorem removesFailing_iff_of_lookups {hscheck : Text → Completed}
    {db : Database parseRule file} {verdicts : List Verdict}
    (hchecked : Checked hscheck db verdicts)
    (hne : ∀ x ∈ db.expressions, searchBody x.2 ≠ some []) :
    RemovesFailing hscheck db verdicts ↔
      (∀ id ∈ failedIds verdicts, db.owner id ≠ none) ∧
      ∀ e ∈ db.entries, (∃ id ∈ failedIds verdicts, db.owner id = some e) ↔
        db.Reported verdicts e := by
  obtain ⟨id2sid, hget, heq⟩ := filterHyperscan_of_nonempty hchecked hne
  have hlookup : (∀ id ∈ failedIds verdicts, db.owner id ≠ none) ↔
      ∀ id ∈ failedIds verdicts, IdMap.get? id2sid id ≠ none := by
    simp only [hget, Ne, Option.map_eq_none_iff]
  rw [RemovesFailing, heq, hlookup]
  constructor
  · intro h
    cases hfold : (failedIds verdicts).foldlM (excludeId id2sid) [] with
    | error e => rw [hfold] at h; exact nomatch h
    | ok excluded =>
      have hok := foldlM_excludeId_ok hfold
      obtain ⟨excluded', hfold', hmem⟩ := exists_foldlM_excludeId hok []
      rw [hfold] at h hfold'
      rw [← Except.ok.inj hfold'] at hmem
      refine ⟨hok, fun e he => ?_⟩
      -- the two files are the same, so the same rules are left out
      have := filter_lines_inj (Except.ok.inj h) e he
      rw [← sid_mem_excluded_iff hget hmem he]
      exact not_iff_not.mp (decide_eq_decide.mp this)
  · rintro ⟨hok, hsame⟩
    obtain ⟨excluded, hfold, hmem⟩ := exists_foldlM_excludeId hok []
    rw [hfold]
    show Except.ok _ = Except.ok _
    congr 2
    apply List.filter_congr
    intro e he
    exact decide_eq_decide.mpr
      (not_congr ((sid_mem_excluded_iff hget hmem he).trans (hsame e he)))

/-- `filter_hyperscan` removes exactly the rules with a failing expression just when the
numbering does no harm. -/
theorem removesFailing_iff (hscheck : Text → Completed) (db : Database parseRule file)
    (verdicts : List Verdict) (hchecked : Checked hscheck db verdicts) :
    RemovesFailing hscheck db verdicts ↔ ShiftHarmless db verdicts := by
  have hprev : ∀ id ∈ failedIds verdicts, ∃ e, db.owner (id - 1) = some e := by
    intro id hid
    obtain ⟨k, x, rfl, hx, -⟩ := hchecked.numbered id hid
    exact ⟨x.1, by rw [Nat.add_sub_cancel, Database.owner, hx, Option.map_some]⟩
  -- a number is at most the number of expressions, so only the last one has no successor
  have hle : ∀ id ∈ failedIds verdicts, id ≤ db.expressions.length := by
    intro id hid
    obtain ⟨k, x, rfl, hx, -⟩ := hchecked.numbered id hid
    exact (List.getElem?_eq_some_iff.mp hx).1
  have hlast : (∀ id ∈ failedIds verdicts, db.owner id ≠ none) ↔
      ∀ id ∈ failedIds verdicts, id ≠ db.expressions.length := by
    apply forall₂_congr
    intro id hid
    have := hle id hid
    rw [Ne, owner_eq_none_iff]
    omega
  constructor
  · intro h
    have hne := nonempty_of_filterHyperscan_ok db h
    obtain ⟨hok, hsame⟩ := (removesFailing_iff_of_lookups hchecked hne).mp h
    have hnext : ∀ id ∈ failedIds verdicts, ∃ e, db.owner id = some e := fun id hid =>
      Option.ne_none_iff_exists'.mp (hok id hid)
    obtain ⟨hleft, hright⟩ := (next_iff_reported hnext hprev).mp hsame
    exact ⟨hne, hlast.mp hok, hleft, hright⟩
  · intro h
    have hok := hlast.mpr h.notLast
    have hnext : ∀ id ∈ failedIds verdicts, ∃ e, db.owner id = some e := fun id hid =>
      Option.ne_none_iff_exists'.mp (hok id hid)
    exact (removesFailing_iff_of_lookups hchecked h.nonempty).mpr
      ⟨hok, (next_iff_reported hnext hprev).mpr ⟨h.reported_of_next, h.next_of_reported⟩⟩

/-! ## A back-reference -/

/-- A rule with an expression Hyperscan does not support. -/
def backreferenceLine : Text := "alert tcp any any -> any any (pcre:\"/(a)\\1/\"; sid:1;)".toList

/-- A rule with a literal. -/
def literalLine : Text := "alert tcp any any -> any any (content:\"cd\"; sid:2;)".toList

/-- The two rules as parsed. -/
def parseTwoRules (l : Text) : Option Rule :=
  if l = backreferenceLine then
    some ⟨[⟨"pcre".toList, "\"/(a)\\1/\"".toList⟩, ⟨"sid".toList, "1".toList⟩]⟩
  else if l = literalLine then
    some ⟨[⟨"content".toList, "\"cd\"".toList⟩, ⟨"sid".toList, "2".toList⟩]⟩
  else none

/-- The database of the two rules. -/
def twoRules : Database parseTwoRules [backreferenceLine ++ ['\n'], literalLine ++ ['\n']] where
  entries :=
    [⟨backreferenceLine, ⟨[⟨"pcre".toList, "\"/(a)\\1/\"".toList⟩, ⟨"sid".toList, "1".toList⟩]⟩,
      "1".toList, by decide +kernel, by decide +kernel⟩,
     ⟨literalLine, ⟨[⟨"content".toList, "\"cd\"".toList⟩, ⟨"sid".toList, "2".toList⟩]⟩,
      "2".toList, by decide +kernel, by decide +kernel⟩]
  lines_eq := by decide +kernel
  nodup := by decide +kernel

/-- The compiler does not take the expression. -/
def failCompile : FailKind := ⟨"FAIL (compile)".toList, by decide +kernel⟩

/-- `hscheck` rejects the first expression. -/
def backreferenceVerdicts : List Verdict :=
  [.fail failCompile 1 ⟨"/(a)\\1/".toList, by decide +kernel⟩
    ⟨"Back-references are not supported at index 4.".toList, by decide +kernel⟩,
   .ok 2 ⟨"/cd/".toList, by decide +kernel⟩, .summary ⟨"1 of 2 failed.".toList, by decide +kernel⟩]

/-- `hscheck` on the two expressions. -/
def hscheckTwoRules (_ : Text) : Completed := ⟨0, report backreferenceVerdicts⟩

theorem checked_backreference : Checked hscheckTwoRules twoRules backreferenceVerdicts := by
  refine ⟨fun lines id2sid h => rfl, fun id hid => ?_⟩
  have hid : id = 1 := by
    simpa [failedIds, backreferenceVerdicts, Verdict.failed?] using hid
  exact ⟨0, _, hid, rfl, by decide +kernel⟩

/-- The literal is removed and the back-reference stays. -/
theorem removesFailing_backreference :
    Checked hscheckTwoRules twoRules backreferenceVerdicts ∧
    filterHyperscan parseTwoRules hscheckTwoRules
        [backreferenceLine ++ ['\n'], literalLine ++ ['\n']] =
      .ok [backreferenceLine ++ ['\n']] ∧
    ¬ RemovesFailing hscheckTwoRules twoRules backreferenceVerdicts := by
  have hout : filterHyperscan parseTwoRules hscheckTwoRules
      [backreferenceLine ++ ['\n'], literalLine ++ ['\n']] =
        .ok [backreferenceLine ++ ['\n']] := by decide +kernel
  refine ⟨checked_backreference, hout, fun h => ?_⟩
  rw [RemovesFailing, hout] at h
  have hlines := Except.ok.inj h
  revert hlines
  decide +kernel

theorem removesFailing_iff_backreference :
    RemovesFailing hscheckTwoRules twoRules backreferenceVerdicts ↔
      ShiftHarmless twoRules backreferenceVerdicts :=
  removesFailing_iff hscheckTwoRules twoRules backreferenceVerdicts checked_backreference

end Data
end PamoRxpBench
