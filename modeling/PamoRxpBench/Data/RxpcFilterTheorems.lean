import PamoRxpBench.Data.FilterTheorems
import PamoRxpBench.Data.PatternExportTheorems
import PamoRxpBench.Data.RxpcFilter

/-!
# The patterns that were validated

`filter_rxpc` and `to_hyperscan` take one quote off each end of a content, `extract_content_strings`
all of them, and `to_hyperscan` escapes what looks like a bracket expression. For a rule that is
kept the three lists agree exactly when the rule was submitted before `max_rules` was reached, or
has no content, the two ways to strip its contents agree, and the export finds nothing to escape in
their blocks (`sameLiterals_iff`).
-/

namespace PamoRxpBench
namespace Data

/-! ## What is submitted for a rule -/

/-- The literal expressions that come from the rule of index `j`. -/
def literalsIn (j : ℕ) (es : List Submitted) : List Text :=
  (es.filter fun e => e.line = j ∧ e.literal).map Submitted.rgx

theorem literalsIn_append (j : ℕ) (xs ys : List Submitted) :
    literalsIn j (xs ++ ys) = literalsIn j xs ++ literalsIn j ys := by
  simp only [literalsIn, List.filter_append, List.map_append]

theorem literalsIn_eq_nil {j : ℕ} {es : List Submitted}
    (h : ∀ e ∈ es, ¬ (e.line = j ∧ e.literal = true)) : literalsIn j es = [] := by
  rw [literalsIn, List.filter_eq_nil_iff.mpr (by simpa using h)]
  rfl

/-- A negated content. -/
def RuleOption.negated (opt : RuleOption) : Bool := ['!'].isPrefixOf opt.value

/-- A pcre with a modifier that `rxpc` takes. -/
def RuleOption.accepted (opt : RuleOption) : Bool :=
  rxcpModifiers.any fun m => m.isSuffixOf (Text.strip (unquote opt.value))

/-- How many expressions of a rule are submitted: those before the one that excludes it. -/
def Rule.submitted (includePcres : Bool) (r : Rule) : ℕ :=
  ((r.getOption "content").takeWhile fun opt => !opt.negated).length +
    if includePcres then ((r.getOption "pcre").takeWhile RuleOption.accepted).length else 0

/-- How many expressions come before those of the rule of index `j`, if all rules before it are
submitted. -/
def submittedBefore (parseRule : Text → Option Rule) (includePcres : Bool) (lines : List Text)
    (j : ℕ) : ℕ :=
  (((lines.take j).filterMap parseRule).map (Rule.submitted includePcres)).sum

/-- The expressions of the contents of a rule. -/
def Rule.unquotedContents (r : Rule) : List Text :=
  (r.getOption "content").map fun opt => suricataContentToRegex (unquote opt.value)

/-- What a part of the loop adds: expressions of the current rule, and excluded sids. -/
structure Adds (st st' : Submission) (new : List Submitted) : Prop where
  inRgxs : st'.inRgxs = st.inRgxs ++ new
  next : st'.i = st.i + new.length
  line : st'.line = st.line
  new_line : ∀ e ∈ new, e.line = st.line
  excluded : st.excludedSids ⊆ st'.excludedSids

theorem Adds.refl (st : Submission) : Adds st st [] :=
  ⟨(List.append_nil _).symm, rfl, rfl, fun _ h => absurd h List.not_mem_nil, List.Subset.refl _⟩

theorem Adds.exclude (st : Submission) (sid : Text) : Adds st (st.exclude sid) [] :=
  ⟨(List.append_nil _).symm, rfl, rfl, fun _ h => absurd h List.not_mem_nil,
    fun _ h => List.mem_insert_of_mem h⟩

/-- A pattern that is submitted comes before what is submitted behind it. -/
theorem Adds.submit {st st' : Submission} {sid rgx : Text} {literal : Bool}
    {new : List Submitted} (h : Adds (st.submit sid literal rgx) st' new) :
    Adds st st' (⟨st.i, rgx, st.line, literal⟩ :: new) := by
  refine ⟨?_, ?_, h.line, fun e he => ?_, h.excluded⟩
  · rw [h.inRgxs, Submission.submit, List.append_assoc]
    rfl
  · rw [h.next, List.length_cons]
    show st.i + 1 + new.length = st.i + (new.length + 1)
    omega
  · rcases List.mem_cons.mp he with rfl | he
    · rfl
    · exact h.new_line e he

theorem addContents_cons (sid : Text) (cntnt : RuleOption) (opts : List RuleOption)
    (st : Submission) :
    st.addContents sid (cntnt :: opts) = if cntnt.negated then st.exclude sid
      else (st.submit sid true (suricataContentToRegex (unquote cntnt.value))).addContents sid
        opts := rfl

theorem addPcres_cons (sid : Text) (rgx : RuleOption) (opts : List RuleOption)
    (st : Submission) :
    st.addPcres sid (rgx :: opts) = if rgx.accepted then
      (st.submit sid false (unquote rgx.value)).addPcres sid opts else st.exclude sid := rfl

/-- The contents of a rule: those before a negated one are submitted, and all of them if the rule is
not excluded. -/
theorem addContents_spec (sid : Text) (opts : List RuleOption) (st : Submission) :
    ∃ new, Adds st (st.addContents sid opts) new ∧
      new.length = (opts.takeWhile fun opt => !opt.negated).length ∧
      (sid ∉ (st.addContents sid opts).excludedSids → literalsIn st.line new =
        opts.map fun opt => suricataContentToRegex (unquote opt.value)) := by
  induction opts generalizing st with
  | nil => exact ⟨[], Adds.refl st, rfl, fun _ => rfl⟩
  | cons cntnt opts ih =>
    rw [addContents_cons]
    by_cases hnegated : cntnt.negated = true
    · rw [if_pos hnegated, List.takeWhile_cons_of_neg (by simpa using hnegated)]
      refine ⟨[], Adds.exclude st sid, rfl, fun hkept => ?_⟩
      exact absurd (List.mem_insert_self) hkept
    · rw [if_neg hnegated, List.takeWhile_cons_of_pos (by simpa using hnegated)]
      obtain ⟨new, hadds, hlength, hnew⟩ :=
        ih (st.submit sid true (suricataContentToRegex (unquote cntnt.value)))
      refine ⟨_, hadds.submit, congrArg (· + 1) hlength, fun hkept => ?_⟩
      have hrest := hnew hkept
      rw [List.map_cons, ← hrest, literalsIn, List.filter_cons_of_pos (by simp)]
      rfl

/-- The pcres of a rule: those before one that is not accepted are submitted. -/
theorem addPcres_spec (sid : Text) (opts : List RuleOption) (st : Submission) :
    ∃ new, Adds st (st.addPcres sid opts) new ∧
      new.length = (opts.takeWhile RuleOption.accepted).length ∧
      ∀ e ∈ new, e.literal = false := by
  induction opts generalizing st with
  | nil => exact ⟨[], Adds.refl st, rfl, fun _ h => absurd h List.not_mem_nil⟩
  | cons rgx opts ih =>
    rw [addPcres_cons]
    by_cases haccepted : rgx.accepted = true
    · rw [if_pos haccepted, List.takeWhile_cons_of_pos haccepted]
      obtain ⟨new, hadds, hlength, hnew⟩ := ih (st.submit sid false (unquote rgx.value))
      refine ⟨_, hadds.submit, congrArg (· + 1) hlength, fun e he => ?_⟩
      rcases List.mem_cons.mp he with rfl | he
      · rfl
      · exact hnew e he
    · rw [if_neg haccepted, List.takeWhile_cons_of_neg haccepted]
      exact ⟨[], Adds.exclude st sid, rfl, fun _ h => absurd h List.not_mem_nil⟩

/-- One rule. -/
theorem addRule_spec (includePcres : Bool) (sid : Text) (r : Rule) (st : Submission) :
    ∃ new, (st.addRule includePcres true sid r).inRgxs = st.inRgxs ++ new ∧
      (st.addRule includePcres true sid r).i = st.i + r.submitted includePcres ∧
      (st.addRule includePcres true sid r).line = st.line + 1 ∧
      (∀ e ∈ new, e.line = st.line) ∧
      st.excludedSids ⊆ (st.addRule includePcres true sid r).excludedSids ∧
      (sid ∉ (st.addRule includePcres true sid r).excludedSids →
        literalsIn st.line new = r.unquotedContents) := by
  obtain ⟨new, hadds, hlength, hnew⟩ := addContents_spec sid (r.getOption "content")
    { st with initialSids := st.initialSids.insert sid }
  have hnext := hadds.next
  rw [hlength] at hnext
  -- the expressions come behind the contents, and are no literals
  cases includePcres with
  | false =>
    exact ⟨new, hadds.inRgxs, hnext, congrArg (· + 1) hadds.line, hadds.new_line, hadds.excluded,
      hnew⟩
  | true =>
    obtain ⟨new', hadds', hlength', hnew'⟩ := addPcres_spec sid (r.getOption "pcre")
      (({ st with initialSids := st.initialSids.insert sid } : Submission).addContents sid
        (r.getOption "content"))
    have hrule : st.addRule true true sid r =
        { (({ st with initialSids := st.initialSids.insert sid } : Submission).addContents sid
          (r.getOption "content")).addPcres sid (r.getOption "pcre") with
          line := ((({ st with initialSids := st.initialSids.insert sid } : Submission).addContents
            sid (r.getOption "content")).addPcres sid (r.getOption "pcre")).line + 1 } := rfl
    rw [hrule]
    refine ⟨new ++ new', ?_, ?_, ?_, fun e he => ?_, ?_, fun hkept => ?_⟩
    · show (Submission.addPcres sid _ _).inRgxs = _
      rw [hadds'.inRgxs, hadds.inRgxs, List.append_assoc]
    · show (Submission.addPcres sid _ _).i = _
      rw [hadds'.next, hnext, hlength', Nat.add_assoc]
      rfl
    · show (Submission.addPcres sid _ _).line + 1 = _
      rw [hadds'.line, hadds.line]
    · rcases List.mem_append.mp he with he | he
      · exact hadds.new_line e he
      · rw [hadds'.new_line e he, hadds.line]
    · exact List.Subset.trans hadds.excluded hadds'.excluded
    · rw [literalsIn_append, hnew fun hmem => hkept (hadds'.excluded hmem),
        literalsIn_eq_nil fun e he hlit => absurd (hnew' e he ▸ hlit.2) (by decide),
        List.append_nil]
      rfl

theorem parsedRule_eq_ok {parseRule : Text → Option Rule} {l : Text} {r : Rule}
    (h : parsedRule parseRule l = .ok r) : parseRule l = some r := by
  rw [parsedRule] at h
  split at h
  · rename_i r' hr'
    rw [hr', Except.ok.inj h]
  · cases h

/-- The whole loop: the expressions of the rules it went through. -/
structure Submits (parseRule : Text → Option Rule) (includePcres : Bool) (maxRules : ℕ)
    (st st' : Submission) (lines : List Text) (new : List Submitted) : Prop where
  inRgxs : st'.inRgxs = st.inRgxs ++ new
  line_le : st.line ≤ st'.line
  new_line : ∀ e ∈ new, st.line ≤ e.line ∧ e.line < st'.line
  excluded : st.excludedSids ⊆ st'.excludedSids
  /-- A rule is gone through while the next number is below `max_rules`. -/
  reached : ∀ k < lines.length, (st.line + k < st'.line ↔
    st.i + submittedBefore parseRule includePcres lines k < maxRules)
  literals : ∀ k l r sid, lines[k]? = some l → parseRule l = some r → r.sid = .ok sid →
    st.line + k < st'.line → sid ∉ st'.excludedSids →
      literalsIn (st.line + k) new = r.unquotedContents

/-- What is submitted for a file, rule by rule. -/
theorem submitRules_spec {parseRule : Text → Option Rule} {includePcres : Bool} {maxRules : ℕ}
    {lines : List Text} {st st' : Submission}
    (h : submitRules parseRule includePcres true maxRules st lines = .ok st') :
    ∃ new, Submits parseRule includePcres maxRules st st' lines new := by
  induction lines generalizing st with
  | nil =>
    obtain rfl := Except.ok.inj h
    exact ⟨[], (List.append_nil _).symm, le_refl _, fun _ he => absurd he List.not_mem_nil,
      List.Subset.refl _, fun k hk => absurd hk (Nat.not_lt_zero k),
      fun k l r sid hl => by cases hl⟩
  | cons l lines ih =>
    rw [submitRules] at h
    by_cases hmax : st.i ≥ maxRules
    · -- the loop ends here, and no rule is gone through
      rw [if_pos hmax] at h
      obtain rfl := Except.ok.inj h
      exact ⟨[], (List.append_nil _).symm, le_refl _, fun _ he => absurd he List.not_mem_nil,
        List.Subset.refl _, fun k hk => iff_of_false (by omega) (by omega),
        fun k l r sid _ _ _ hlt => by omega⟩
    · rw [if_neg hmax] at h
      obtain ⟨r, hr, h⟩ := bind_eq_ok h
      obtain ⟨sid, hsid, h⟩ := bind_eq_ok h
      obtain ⟨new, hinRgxs, hnext, hline, hnew, hexcluded, hliterals⟩ :=
        addRule_spec includePcres sid r st
      obtain ⟨rest, hrest⟩ := ih h
      have hle := hrest.line_le
      rw [hline] at hle
      refine ⟨new ++ rest, ?_, by omega, fun e he => ?_,
        List.Subset.trans hexcluded hrest.excluded, fun k hk => ?_, ?_⟩
      · rw [hrest.inRgxs, hinRgxs, List.append_assoc]
      · rcases List.mem_append.mp he with he | he
        · have := hnew e he
          omega
        · have := hrest.new_line e he
          rw [hline] at this
          omega
      · cases k with
        | zero => exact iff_of_true (by omega) (Nat.not_le.mp hmax)
        | succ k =>
          have hbefore : submittedBefore parseRule includePcres (l :: lines) (k + 1) =
              r.submitted includePcres + submittedBefore parseRule includePcres lines k := by
            rw [submittedBefore, List.take_succ_cons,
              List.filterMap_cons_some (parsedRule_eq_ok hr), List.map_cons, List.sum_cons]
            rfl
          have htail := hrest.reached k (Nat.lt_of_succ_lt_succ hk)
          rw [hline, hnext, Nat.add_assoc, Nat.add_comm 1 k] at htail
          rw [htail, hbefore, Nat.add_assoc]
      · intro k l' r' sid' hl' hr' hsid' hlt hkept
        rw [literalsIn_append]
        cases k with
        | zero =>
          -- the rule of this step, which the later ones do not touch
          obtain rfl : l = l' := Option.some.inj hl'
          obtain rfl : r = r' := Option.some.inj ((parsedRule_eq_ok hr).symm.trans hr')
          obtain rfl : sid = sid' := Except.ok.inj (hsid.symm.trans hsid')
          rw [Nat.add_zero, hliterals fun hmem => hkept (hrest.excluded hmem),
            literalsIn_eq_nil fun e he hlit => ?_, List.append_nil]
          have := (hrest.new_line e he).1
          rw [hline] at this
          omega
        | succ k =>
          have htail := hrest.literals k l' r' sid' (by simpa using hl') hr' hsid'
          rw [hline, Nat.add_assoc, Nat.add_comm 1 k] at htail
          rw [htail hlt hkept, literalsIn_eq_nil fun e he hlit => ?_, List.nil_append]
          have := hnew e he
          omega

/-! ## What `filter_rxpc` returns -/

theorem excludeUncompiled_subset {id2sid : IdMap} {excludedSids excludedSids' : List Text}
    {idxs : List ℕ} (h : excludeUncompiled id2sid excludedSids idxs = .ok excludedSids') :
    excludedSids ⊆ excludedSids' := by
  induction idxs generalizing excludedSids with
  | nil =>
    obtain rfl := Except.ok.inj h
    exact List.Subset.refl _
  | cons i idxs ih =>
    rw [excludeUncompiled] at h
    split at h
    · cases h
    · exact fun _ hmem => ih h (List.mem_insert_of_mem hmem)

/-- The literal expressions of a rule that is kept: all its contents, if the loop went through it
before `max_rules` was reached, and otherwise none. -/
theorem filterRxpc_literalsOf {parseRule : Text → Option Rule} {rxpc : Text → List Text}
    {includePcres : Bool} {maxRules : ℕ} {dbIn kept : List Text} {st : Submission}
    (h : filterRxpc parseRule rxpc includePcres true maxRules dbIn = .ok (st, kept)) {j : ℕ}
    {l : Text} {r : Rule} {sid : Text} (hl : (ruleLines dbIn)[j]? = some l)
    (hr : parseRule l = some r) (hsid : r.sid = .ok sid) (hkept : st.keeps sid = true) :
    st.literalsOf j =
      if 1 + submittedBefore parseRule includePcres (ruleLines dbIn) j < maxRules then
        r.unquotedContents else [] := by
  obtain ⟨st₁, hsubmit, h⟩ := bind_eq_ok h
  obtain ⟨excludedSids, hexclude, h⟩ := bind_eq_ok h
  obtain ⟨kept', -, h⟩ := bind_eq_ok h
  obtain ⟨rfl, rfl⟩ := Prod.mk.inj (Except.ok.inj h)
  obtain ⟨new, hnew⟩ := submitRules_spec hsubmit
  have hinRgxs : st₁.inRgxs = new := hnew.inRgxs
  -- a sid that was excluded is not kept
  have hsid' : sid ∉ st₁.excludedSids := by
    intro hmem
    simp only [Submission.keeps, Bool.and_eq_true, Bool.not_eq_true'] at hkept
    have hcontains := List.contains_iff_mem.mpr (excludeUncompiled_subset hexclude hmem)
    rw [hkept.1] at hcontains
    cases hcontains
  have hreached := hnew.reached j (List.getElem?_eq_some_iff.mp hl).1
  have hliterals := hnew.literals j l r sid hl hr hsid
  rw [show Submission.init.line = 0 from rfl, Nat.zero_add] at hreached hliterals
  show literalsIn j st₁.inRgxs = if Submission.init.i + _ < maxRules then _ else _
  rw [hinRgxs]
  -- behind the line of the break nothing was submitted
  by_cases hlt : j < st₁.line
  · rw [if_pos (hreached.mp hlt), hliterals hlt hsid']
  · rw [if_neg fun h => hlt (hreached.mpr h), literalsIn_eq_nil fun e he hlit => ?_]
    have := (hnew.new_line e he).2
    omega

/-! ## Two ways to strip the quotes -/

/-- Quotes at the ends make the regex longer. -/
theorem length_contentRegex_quotes (qs s qs' : Text) (hqs : ∀ c ∈ qs, c = '"')
    (hqs' : ∀ c ∈ qs', c = '"') :
    (contentRegex false s).length + qs.length + qs'.length ≤
      (contentRegex false (qs ++ s ++ qs')).length := by
  induction qs with
  | nil =>
    induction qs' using List.reverseRecOn with
    | nil => simp
    | append_singleton qs' q ih =>
      obtain rfl : q = '"' := hqs' q (by simp)
      have hrest := ih fun c hc => hqs' c (List.mem_append_left _ hc)
      have hlast := length_contentRegex_concat false ([] ++ s ++ qs') (by decide : '"' ≠ ' ')
        (by decide)
      rw [← List.append_assoc, List.length_append, List.length_singleton]
      omega
  | cons q qs ih =>
    obtain rfl : q = '"' := hqs q List.mem_cons_self
    have hrest := ih fun c hc => hqs c (List.mem_cons_of_mem _ hc)
    have hone := length_escapeSpecial_singleton '"'
    rw [List.cons_append, List.cons_append, contentRegex_cons (by decide), List.length_append,
      List.length_cons]
    omega

/-- `strip` takes quotes off both ends and nothing else. -/
theorem stripQuotes_spec (s : Text) : ∃ qs qs', (∀ c ∈ qs, c = '"') ∧ (∀ c ∈ qs', c = '"') ∧
    s = qs ++ stripQuotes s ++ qs' := by
  refine ⟨s.takeWhile (· = '"'), (s.dropWhile (· = '"')).rtakeWhile (· = '"'), ?_, ?_, ?_⟩
  · intro c hc
    simpa using List.mem_takeWhile_imp hc
  · intro c hc
    simpa using List.mem_rtakeWhile_imp hc
  · rw [stripQuotes, List.append_assoc, List.rdropWhile_append_rtakeWhile,
      List.takeWhile_append_dropWhile]

theorem stripQuotes_quoted (s : Text) : stripQuotes ('"' :: s ++ ['"']) = stripQuotes s := by
  rw [stripQuotes, stripQuotes, List.cons_append, List.dropWhile_cons_of_pos (by decide),
    List.dropWhile_append]
  by_cases hquotes : s.dropWhile (· = '"') = []
  · rw [hquotes]
    rfl
  · rw [if_neg (by simpa using hquotes)]
    exact List.rdropWhile_concat_pos _ _ _ (by decide)

/-- All quotes go, so one pair more or less makes no difference. -/
theorem stripQuotes_unquote (s : Text) : stripQuotes (unquote s) = stripQuotes s := by
  rw [unquote]
  split
  · rfl
  · rename_i hlen
    split
    · rename_i hquotes
      obtain ⟨t, rfl⟩ : ∃ t, s = '"' :: t := List.head?_eq_some_iff.mp hquotes.1
      have hne : t ≠ [] := by
        rintro rfl
        exact hlen (by decide)
      have hlast : t.getLast? = some '"' := by
        have := hquotes.2
        rwa [List.getLast?_cons_of_ne_nil hne] at this
      obtain ⟨m, rfl⟩ : ∃ m, t = m ++ ['"'] := List.getLast?_eq_some_iff.mp hlast
      show stripQuotes (m ++ ['"']).dropLast = stripQuotes ('"' :: m ++ ['"'])
      rw [List.dropLast_concat, stripQuotes_quoted]
    · rfl

/-- The regex of a text with its quotes is the regex without them only if there are none. -/
theorem regex_eq_iff (v : Text) :
    suricataContentToRegex (unquote v) = suricataContentToRegex (stripQuotes v) ↔
      unquote v = stripQuotes v := by
  constructor
  · intro h
    rw [← stripQuotes_unquote] at h ⊢
    obtain ⟨qs, qs', hqs, hqs', heq⟩ := stripQuotes_spec (unquote v)
    have hlength := length_contentRegex_quotes qs (stripQuotes (unquote v)) qs' hqs hqs'
    rw [← heq, ← suricataContentToRegex_eq, ← suricataContentToRegex_eq, h] at hlength
    have hnil : qs = [] := List.eq_nil_of_length_eq_zero (by omega)
    have hnil' : qs' = [] := List.eq_nil_of_length_eq_zero (by omega)
    rwa [hnil, hnil', List.nil_append, List.append_nil] at heq
  · intro h
    rw [h]

/-! ## What the export escapes in the regex of a content -/

/-- In a block of the rest of a content, a character that `escape_chars` looks for stands between a
`[` and the next `]` of the content, and not behind a backslash in its pair. `first` is the first
character of the pair that is being read, and `inGroup` says whether a `[` is open. -/
def escapedInBlock : Bool → Option Char → Bool → Text → Bool
  | _, _, _, [] => false
  | inHexBlock, first, inGroup, c :: s =>
    if c = '|' then escapedInBlock (!inHexBlock) none inGroup s
    else if inHexBlock = false then escapedInBlock false none (opens inGroup c) s
    else if c = ' ' then escapedInBlock true first inGroup s
    else decide (c ∈ special ∧ inGroup = true ∧ first ≠ some '\\' ∧ ']' ∈ s) ||
      escapedInBlock true (if first = none then some c else none) (opens inGroup c) s

example : escapedInBlock false none false "|[^]|".toList = true ∧
    escapedInBlock false none false "[^]|5b 5e|".toList = false := by decide

/-- Nothing is marked in a text exactly if its first character is not, and nothing behind it. -/
theorem mark_cons_eq_iff {inGroup behind : Bool} {c : Char} {s : Text} :
    mark inGroup behind (c :: s) = c :: s ↔
      ¬ (c ∈ special ∧ inGroup = true ∧ behind = false ∧ ']' ∈ s) ∧
        mark (opens inGroup c) (c = '\\') s = s := by
  rw [mark]
  by_cases hc : c ∈ special ∧ inGroup = true ∧ behind = false ∧ ']' ∈ s
  · rw [if_pos hc]
    refine iff_of_false (fun heq => ?_) fun h => h.1 hc
    have hhead : '\\' = c := (List.cons.inj heq).1
    exact absurd (hhead ▸ hc.1) (by decide)
  · rw [if_neg hc, List.singleton_append, List.cons_inj_right]
    exact ⟨fun h => ⟨hc, h⟩, And.right⟩

/-- A converted character is not escaped again. -/
theorem mark_escapeSpecial_iff (inGroup behind : Bool) (c : Char) (s : Text) :
    mark inGroup behind (escapeSpecial [c] ++ s) = escapeSpecial [c] ++ s ↔
      mark (opens inGroup c) (c = '\\') s = s := by
  rw [escapeSpecial, List.flatMap_cons, List.flatMap_nil, List.append_nil]
  by_cases hc : c ∈ ",.^$*+?{}[]\\|()/".toList
  · rw [if_pos hc]
    show mark inGroup behind ('\\' :: c :: s) = '\\' :: c :: s ↔ _
    have hslash : '\\' ∉ special := by decide
    rw [mark_cons_eq_iff, mark_cons_eq_iff, and_iff_right fun h => hslash h.1,
      and_iff_right fun h => absurd h.2.2.1 (by simp)]
    rfl
  · have hsubset : ∀ d ∈ special, d ∈ ",.^$*+?{}[]\\|()/".toList :=
      List.forall_iff_forall_mem.mp (by decide)
    rw [if_neg hc, List.singleton_append, mark_cons_eq_iff,
      and_iff_right fun h => hc (hsubset c h.1)]

/-- The conversion keeps the closing brackets. -/
theorem mem_contentChars {b half : Bool} {s : Text} : ']' ∈ contentChars b half s ↔ ']' ∈ s := by
  induction s generalizing b half with
  | nil => rfl
  | cons c s ih =>
    by_cases hbar : c = '|'
    · rw [hbar, contentChars, if_pos rfl, ih]
      simp
    · cases b with
      | false =>
        rw [contentChars_cons_text half hbar, List.mem_append, ih, List.mem_cons]
        refine or_congr_left ?_
        rw [escapeSpecial, List.flatMap_cons, List.flatMap_nil, List.append_nil]
        split <;> simp
      | true =>
        by_cases hspace : c = ' '
        · rw [hspace, contentChars_space, ih]
          simp
        · rw [contentChars_cons_block half hbar hspace, List.mem_append, ih, List.mem_cons]
          refine or_congr_left ?_
          cases half <;> simp

/-- The pass of the export leaves the regex of a content as it is just when it finds nothing to
escape in its blocks. -/
theorem mark_contentChars_iff (s : Text) {inHexBlock : Bool} {first : Option Char}
    {inGroup behind : Bool}
    (hbehind : inHexBlock = true → ∀ a, first = some a → behind = decide (a = '\\')) :
    mark inGroup behind (contentChars inHexBlock first.isSome s) =
        contentChars inHexBlock first.isSome s ↔
      escapedInBlock inHexBlock first inGroup s = false := by
  induction s generalizing inHexBlock first inGroup behind with
  | nil => exact iff_of_true rfl rfl
  | cons c s ih =>
    by_cases hbar : c = '|'
    · rw [escapedInBlock, contentChars, if_pos hbar, if_pos hbar]
      exact @ih (!inHexBlock) none inGroup behind fun _ a ha =>
        absurd ha (Option.some_ne_none a).symm
    · rw [escapedInBlock, if_neg hbar]
      cases inHexBlock with
      | false =>
        rw [contentChars_cons_text _ hbar, if_pos rfl, mark_escapeSpecial_iff]
        exact @ih false none (opens inGroup c) (c = '\\') fun h => absurd h Bool.noConfusion
      | true =>
        rw [if_neg Bool.noConfusion]
        by_cases hspace : c = ' '
        · rw [hspace, contentChars_space, if_pos rfl]
          exact ih hbehind
        · rw [contentChars_cons_block _ hbar hspace, if_neg hspace, Bool.or_eq_false_iff,
            decide_eq_false_iff_not]
          cases first with
          | none =>
            -- `\x` is written before the character
            have hrest := @ih true (some c) (opens inGroup c) (c = '\\')
              fun _ a ha => by rw [Option.some.inj ha]
            have hslash : '\\' ∉ special := by decide
            have hx : 'x' ∉ special := by decide
            show mark inGroup behind ('\\' :: 'x' :: c :: contentChars true true s) =
              '\\' :: 'x' :: c :: contentChars true true s ↔ _
            rw [mark_cons_eq_iff, mark_cons_eq_iff, mark_cons_eq_iff,
              and_iff_right fun h => hslash h.1, and_iff_right fun h => hx h.1, mem_contentChars]
            refine and_congr (not_congr ?_) hrest
            simp [opens]
          | some a =>
            have hrest := @ih true none (opens inGroup c) (c = '\\') fun _ a ha =>
              absurd ha (Option.some_ne_none a).symm
            show mark inGroup behind (c :: contentChars true false s) =
              c :: contentChars true false s ↔ _
            rw [mark_cons_eq_iff, mem_contentChars, hbehind rfl a rfl]
            refine and_congr (not_congr ?_) hrest
            simp

/-- What `to_hyperscan` finds in the regex of a content. -/
theorem subGroups_contentRegex_iff (content : Text) :
    subGroups escapeChars none (suricataContentToRegex content) = suricataContentToRegex content ↔
      escapedInBlock false none false content = false := by
  rw [subGroups_eq_mark, suricataContentToRegex_eq, contentRegex_eq_contentChars]
  exact @mark_contentChars_iff content false none false false fun h => nomatch h

/-! ## What the export has for a rule -/

/-- The regex of a content is not taken for delimiters. -/
theorem head?_contentChars (b : Bool) (s : Text) : (contentChars b false s).head? ≠ some '/' := by
  induction s generalizing b with
  | nil => exact fun h => nomatch h
  | cons c s ih =>
    by_cases hbar : c = '|'
    · rw [hbar]
      exact ih (!b)
    · cases b with
      | false =>
        rw [contentChars_cons_text _ hbar, escapeSpecial, List.flatMap_cons, List.flatMap_nil,
          List.append_nil]
        by_cases hc : c ∈ ",.^$*+?{}[]\\|()/".toList
        · rw [if_pos hc]
          exact fun h => absurd (Option.some.inj h) (by decide)
        · rw [if_neg hc]
          exact fun h => hc (Option.some.inj h ▸ by decide)
      | true =>
        by_cases hspace : c = ' '
        · rw [hspace, contentChars_space]
          exact ih true
        · rw [contentChars_cons_block _ hbar hspace]
          exact fun h => absurd (Option.some.inj h) (by decide)

theorem mem_of_mem_unquote {s : Text} {c : Char} (h : c ∈ unquote s) : c ∈ s := by
  rw [unquote] at h
  split at h
  · exact h
  · split at h
    · exact List.mem_of_mem_tail (List.dropLast_subset _ h)
    · exact h

/-- The regex of a content that is a part of a line. -/
theorem lineFeed_notMem_regex {value : Text} (h : '\n' ∉ value) :
    '\n' ∉ suricataContentToRegex (unquote value) := by
  intro hmem
  rcases mem_regexParts hmem with heq | heq | ⟨part, hpart, hc⟩
  · exact absurd heq (by decide)
  · exact absurd heq (by decide)
  · exact h (mem_of_mem_unquote (Text.of_mem_splitOn hpart hc).1)

/-- The export of one literal. -/
theorem exportLine_literal {toHsTools : Bool} {i : ℕ} {regex out : Text}
    (hline : '\n' ∉ regex) (hhead : regex.head? ≠ some '/')
    (h : exportLine toHsTools i ('/' :: regex ++ ['/']) = .ok out) :
    withoutSlashes toHsTools out = subGroups escapeChars none regex := by
  have hflags : '\n' ∉ regex ++ [] := by rwa [List.append_nil]
  cases toHsTools with
  | false =>
    rw [exportLine, if_neg fun h => Bool.noConfusion h.2] at h
    rw [← Except.ok.inj h]
    exact congrArg (subGroups escapeChars none) (matchedPattern_delimited hflags List.not_mem_nil)
  | true =>
    have hbody : regex ≠ [] := by
      rintro rfl
      cases h
    obtain ⟨c, s, rfl⟩ := List.exists_cons_of_ne_nil hbody
    have hc : c ≠ '/' := fun heq => hhead (congrArg some heq)
    have hrecoverable : (⟨c :: s, [], List.not_mem_nil⟩ : DelimitedPattern).Recoverable := by
      refine ⟨hbody, fun heq => hc (List.cons.inj heq).1, fun hfound => ?_⟩
      exact hc (List.mem_singleton.mp (hfound.subset List.mem_cons_self))
    have hexport := (exportLine_delimited_iff hflags i).mpr hrecoverable
    rw [← Except.ok.inj (hexport.symm.trans h)]
    have hnumber : ∀ d ∈ Text.decimal (i + 1), decide (d ≠ ':') = true := fun d hd =>
      decide_eq_true fun heq => decimal_not_mem (by decide) (heq ▸ hd)
    show ((List.dropWhile _ (Text.decimal (i + 1) ++
      ':' :: '/' :: subGroups escapeChars none (c :: s) ++ ['/'])).drop 2).dropLast = _
    rw [List.append_assoc, List.dropWhile_append_of_pos hnumber]
    exact List.dropLast_concat

/-- The literals of a rule are exported one by one. -/
theorem exportLines_literals {toHsTools : Bool} {i : ℕ} {opts : List RuleOption}
    {outs : List Text} (hvalues : ∀ opt ∈ opts, '\n' ∉ opt.value)
    (h : exportLines toHsTools i (opts.map fun el =>
      '/' :: suricataContentToRegex (unquote el.value) ++ ['/']) = .ok outs) :
    outs.map (withoutSlashes toHsTools) = opts.map fun opt =>
      subGroups escapeChars none (suricataContentToRegex (unquote opt.value)) := by
  induction opts generalizing i outs with
  | nil =>
    obtain rfl := Except.ok.inj h
    rfl
  | cons opt opts ih =>
    obtain ⟨hopt, hopts⟩ := List.forall_mem_cons.mp hvalues
    obtain ⟨out, hout, h⟩ := bind_eq_ok h
    obtain ⟨rest, hrest, h⟩ := bind_eq_ok h
    obtain rfl := Except.ok.inj h
    have hhead : (suricataContentToRegex (unquote opt.value)).head? ≠ some '/' := by
      rw [suricataContentToRegex_eq, contentRegex_eq_contentChars]
      exact head?_contentChars false _
    rw [List.map_cons, List.map_cons, ih hopts hrest,
      exportLine_literal (lineFeed_notMem_regex hopt) hhead hout]

/-- The lines of a part of the file do not depend on the others. -/
theorem exportLines_append {toHsTools : Bool} {i : ℕ} {xs ys outs : List Text}
    (h : exportLines toHsTools i (xs ++ ys) = .ok outs) :
    ∃ o o', outs = o ++ o' ∧ o.length = xs.length ∧ exportLines toHsTools i xs = .ok o ∧
      exportLines toHsTools (i + xs.length) ys = .ok o' := by
  induction xs generalizing i outs with
  | nil => exact ⟨[], outs, rfl, rfl, rfl, h⟩
  | cons x xs ih =>
    obtain ⟨out, hout, h⟩ := bind_eq_ok h
    obtain ⟨rest, hrest, h⟩ := bind_eq_ok h
    obtain rfl := Except.ok.inj h
    obtain ⟨o, o', rfl, hlen, ho, ho'⟩ := ih hrest
    refine ⟨out :: o, o', rfl, congrArg (· + 1) hlen, ?_, ?_⟩
    · rw [exportLines, hout, ho]
      rfl
    · rwa [List.length_cons, Nat.add_comm xs.length, ← Nat.add_assoc]

/-- The lines that `filter_rxpc` writes come from rules with sids. -/
theorem exists_entries {parseRule : Text → Option Rule} {st : Submission} {lines kept : List Text}
    (h : keptLines parseRule st lines = .ok kept) :
    ∃ entries : List (RuleEntry parseRule), lines = entries.map RuleEntry.line := by
  induction lines generalizing kept with
  | nil => exact ⟨[], rfl⟩
  | cons l lines ih =>
    obtain ⟨r, hr, h⟩ := bind_eq_ok h
    obtain ⟨sid, hsid, h⟩ := bind_eq_ok h
    obtain ⟨rest, hrest, -⟩ := bind_eq_ok h
    obtain ⟨entries, rfl⟩ := ih hrest
    exact ⟨⟨l, r, sid, parsedRule_eq_ok hr, hsid⟩ :: entries, rfl⟩

/-- The rule of a line. -/
theorem exists_entry {parseRule : Text → Option Rule} {lines : List Text}
    {entries : List (RuleEntry parseRule)} (hlines : lines = entries.map RuleEntry.line) {j : ℕ}
    {l : Text} {r : Rule} (hl : lines[j]? = some l) (hr : parseRule l = some r) :
    ∃ e : RuleEntry parseRule, entries[j]? = some e ∧ e.line = l ∧ e.rule = r := by
  rw [hlines, List.getElem?_map, Option.map_eq_some_iff] at hl
  obtain ⟨e, he, hline⟩ := hl
  exact ⟨e, he, hline, Option.some.inj (e.parsed.symm.trans (hline ▸ hr))⟩

/-- The lines of a file are cut at their line feeds. -/
theorem lineFeed_not_mem_of_mem_ruleLines {file : List Text} {l : Text} (h : l ∈ ruleLines file) :
    '\n' ∉ l := by
  intro hmem
  obtain ⟨x, hx, rfl⟩ := List.mem_map.mp h
  obtain ⟨y, -, rfl⟩ := List.mem_map.mp (List.mem_of_mem_filter hx)
  have hfiltered := (List.mem_filter.mp (Text.mem_of_mem_strip hmem)).2
  exact absurd rfl (of_decide_eq_true hfiltered)

/-- What the export makes of a file of rules. -/
theorem toHyperscan_entries {parseRule : Text → Option Rule} {dbIn : List Text}
    {entries : List (RuleEntry parseRule)} (hlines : ruleLines dbIn = entries.map RuleEntry.line) :
    ∃ id2sid, ∀ toHsTools, toHyperscan parseRule false toHsTools dbIn =
      (exportLines toHsTools 0 (entries.flatMap fun e => e.rule.expressions) >>= fun lines =>
        .ok (lines, some id2sid)) := by
  have hinit : (⟨[], 0, ∅⟩ : Numbering).Numbers ([] : List (RuleEntry parseRule × Text)) :=
    ⟨rfl, fun k => AList.lookup_empty (k : ℤ)⟩
  obtain ⟨n, hrun, -, hpatterns⟩ := numberRules_entries entries hinit rfl
  have howned : (ownedExpressions entries).map Prod.snd =
      entries.flatMap fun e => e.rule.expressions := by
    rw [ownedExpressions, List.map_flatMap]
    refine List.flatMap_congr fun e _ => ?_
    rw [List.map_map]
    exact List.map_id _
  rw [List.nil_append, howned] at hpatterns
  refine ⟨n.id2sid, fun toHsTools => ?_⟩
  rw [toHyperscan, if_neg Bool.noConfusion, hlines, hrun]
  show (exportLines toHsTools 0 n.patterns >>= _) = _
  rw [hpatterns]
  rfl

/-- The lines for the literals of a rule are the exports of its contents. -/
theorem exportedLiterals_eq {parseRule : Text → Option Rule} {dbIn : List Text}
    {entries : List (RuleEntry parseRule)} (hlines : ruleLines dbIn = entries.map RuleEntry.line)
    {j : ℕ} {e : RuleEntry parseRule} (he : entries[j]? = some e) {toHsTools : Bool}
    {out : List Text} {id2sid : Option IdMap}
    (hvalues : ∀ opt ∈ e.rule.getOption "content", '\n' ∉ opt.value)
    (h : toHyperscan parseRule false toHsTools dbIn = .ok (out, id2sid)) :
    (exportedLiterals parseRule dbIn j e.rule out).map (withoutSlashes toHsTools) =
      (e.rule.getOption "content").map fun opt =>
        subGroups escapeChars none (suricataContentToRegex (unquote opt.value)) := by
  obtain ⟨ids, hexport⟩ := toHyperscan_entries hlines
  rw [hexport] at h
  obtain ⟨outs, houts, h⟩ := bind_eq_ok h
  obtain rfl := (Prod.mk.inj (Except.ok.inj h)).1
  -- the expressions before the literals of the rule, these, and the others
  obtain ⟨hj, hget⟩ := List.getElem?_eq_some_iff.mp he
  have hentries : entries = entries.take j ++ e :: entries.drop (j + 1) := by
    rw [← hget, ← List.drop_eq_getElem_cons hj, List.take_append_drop]
  have hsplit : (entries.flatMap fun e => e.rule.expressions) =
      ((entries.take j).flatMap (fun e => e.rule.expressions) ++ e.rule.pcres) ++
        (e.rule.literals ++ (entries.drop (j + 1)).flatMap fun e => e.rule.expressions) := by
    conv_lhs => rw [hentries]
    rw [List.flatMap_append, List.flatMap_cons, Rule.expressions]
    simp only [List.append_assoc]
  have hbefore : expressionsBefore parseRule (ruleLines dbIn) j e.rule =
      ((entries.take j).flatMap (fun e => e.rule.expressions) ++ e.rule.pcres).length := by
    have hrules : ((entries.take j).map RuleEntry.line).filterMap parseRule =
        (entries.take j).map RuleEntry.rule := by
      rw [List.filterMap_map, ← List.filterMap_eq_map]
      exact List.filterMap_congr fun e _ => e.parsed
    rw [expressionsBefore, hlines, ← List.map_take, hrules, List.map_map, List.length_append,
      List.length_flatMap]
    rfl
  rw [hsplit] at houts
  obtain ⟨o₁, o, rfl, hlen₁, -, ho⟩ := exportLines_append houts
  obtain ⟨o₂, o₃, rfl, hlen₂, ho₂, -⟩ := exportLines_append ho
  rw [exportedLiterals, hbefore, ← hlen₁, List.drop_left, ← hlen₂, List.take_left]
  exact exportLines_literals hvalues ho₂

/-! ## The three lists -/

theorem contentStrings_eq_iff (r : Rule) : r.unquotedContents = r.contentStrings ↔
    ∀ opt ∈ r.getOption "content", unquote opt.value = stripQuotes opt.value := by
  rw [Rule.unquotedContents, Rule.contentStrings, List.map_inj_left]
  exact forall₂_congr fun opt _ => regex_eq_iff opt.value

theorem exported_eq_iff (r : Rule) :
    (r.unquotedContents = (r.getOption "content").map fun opt =>
      subGroups escapeChars none (suricataContentToRegex (unquote opt.value))) ↔
    ∀ opt ∈ r.getOption "content", escapedInBlock false none false (unquote opt.value) = false := by
  rw [Rule.unquotedContents, List.map_inj_left]
  exact forall₂_congr fun opt _ => eq_comm.trans (subGroups_contentRegex_iff (unquote opt.value))

/-- For a rule that `filter_rxpc` keeps the three lists agree exactly when the rule was submitted
before `max_rules` was reached, or has no content, every content loses the same quotes in the two
ways to strip them, and none has something in its blocks that `escape_chars` finds. The value of an
option is a part of its line. -/
theorem sameLiterals_iff {parseRule : Text → Option Rule} {rxpc : Text → List Text}
    {includePcres : Bool} {maxRules : ℕ} {dbIn kept : List Text} {st : Submission}
    (h : filterRxpc parseRule rxpc includePcres true maxRules dbIn = .ok (st, kept)) {j : ℕ}
    {l : Text} {r : Rule} {sid : Text} (hl : (ruleLines dbIn)[j]? = some l)
    (hr : parseRule l = some r) (hsid : r.sid = .ok sid) (hkept : st.keeps sid = true)
    (hparts : ∀ opt ∈ r.getOption "content", ∀ c ∈ opt.value, c ∈ l) :
    SameLiterals parseRule dbIn st j r ↔
      (1 + submittedBefore parseRule includePcres (ruleLines dbIn) j < maxRules ∨
        r.getOption "content" = []) ∧
        ∀ opt ∈ r.getOption "content", unquote opt.value = stripQuotes opt.value ∧
          escapedInBlock false none false (unquote opt.value) = false := by
  have hliterals := filterRxpc_literalsOf h hl hr hsid hkept
  obtain ⟨_, -, h⟩ := bind_eq_ok h
  obtain ⟨_, -, h⟩ := bind_eq_ok h
  obtain ⟨_, hkeptLines, -⟩ := bind_eq_ok h
  obtain ⟨entries, hlines⟩ := exists_entries hkeptLines
  obtain ⟨e, he, rfl, rfl⟩ := exists_entry hlines hl hr
  have hvalues : ∀ opt ∈ e.rule.getOption "content", '\n' ∉ opt.value := fun opt hopt hmem =>
    lineFeed_not_mem_of_mem_ruleLines (List.mem_of_getElem? hl) (hparts opt hopt _ hmem)
  have hexported : ∀ {toHsTools out id2sid},
      toHyperscan parseRule false toHsTools dbIn = .ok (out, id2sid) →
      (exportedLiterals parseRule dbIn j e.rule out).map (withoutSlashes toHsTools) =
        (e.rule.getOption "content").map fun opt =>
          subGroups escapeChars none (suricataContentToRegex (unquote opt.value)) :=
    fun hexport => exportedLiterals_eq hlines he hvalues hexport
  have hexports : ∃ out id2sid, toHyperscan parseRule false false dbIn = .ok (out, id2sid) := by
    obtain ⟨id2sid, hexport⟩ := toHyperscan_entries hlines
    rw [hexport, exportLines_fixedPattern]
    exact ⟨_, _, rfl⟩
  obtain ⟨out, id2sid, hplain⟩ := hexports
  rw [forall₂_and, ← contentStrings_eq_iff, ← exported_eq_iff]
  -- a rule that was not reached has nothing submitted, so it may have no content
  by_cases hreached : 1 + submittedBefore parseRule includePcres (ruleLines dbIn) j < maxRules
  · rw [if_pos hreached] at hliterals
    constructor
    · intro hsame
      refine ⟨Or.inl hreached, hliterals ▸ hsame.benchmarked, ?_⟩
      rw [← hliterals, hsame.exported _ _ _ hplain, hexported hplain]
    · intro ⟨_, hbenchmarked, hescaped⟩
      refine ⟨hliterals.trans hbenchmarked, ⟨out, id2sid, hplain⟩, fun toHsTools o ids ho => ?_⟩
      rw [hliterals, hexported ho, hescaped]
  · rw [if_neg hreached] at hliterals
    constructor
    · intro hsame
      have hnil : e.rule.getOption "content" = [] := by
        have := hsame.exported _ _ _ hplain
        rw [hliterals, hexported hplain] at this
        exact List.map_eq_nil_iff.mp this.symm
      rw [Rule.unquotedContents, Rule.contentStrings, hnil]
      exact ⟨Or.inr rfl, rfl, rfl⟩
    · intro ⟨hcase, hbenchmarked, hescaped⟩
      have hnil := hcase.resolve_left hreached
      refine ⟨?_, ⟨out, id2sid, hplain⟩, fun toHsTools o ids ho => ?_⟩
      · rw [hliterals, Rule.contentStrings, hnil]
        rfl
      · rw [hliterals, hexported ho, hnil]
        rfl

/-- A rule with one content. -/
def oneContent (value : String) : Rule :=
  ⟨[⟨"content".toList, value.toList⟩, ⟨"sid".toList, "1".toList⟩]⟩

theorem ruleLines_escapedQuote :
    ruleLines ["content:\"abc\\\"\"\n".toList] = ["content:\"abc\\\"\"".toList] := by
  decide +kernel

/-- The content `"abc\""` ends with an escaped quote: compiled is `abc\\"`, and the benchmark gets
`abc\\`. -/
theorem not_sameLiterals_escapedQuote : ∃ st kept,
    filterRxpc (fun _ => some (oneContent "\"abc\\\"\"")) (fun _ => []) true true 0xFFFFFFF
      ["content:\"abc\\\"\"\n".toList] = .ok (st, kept) ∧ st.keeps "1".toList = true ∧
      ¬ SameLiterals (fun _ => some (oneContent "\"abc\\\"\""))
        ["content:\"abc\\\"\"\n".toList] st 0
        (oneContent "\"abc\\\"\"") := by
  unfold filterRxpc
  rw [ruleLines_escapedQuote]
  refine ⟨_, _, rfl, rfl, fun hsame => ?_⟩
  exact absurd hsame.benchmarked (by decide)

/-- The file with the content `"a[|5e|]"`: its block holds two digits. -/
theorem ruleLines_quoted :
    ruleLines ["content:\"a[|5e|]\"\n".toList] = ["content:\"a[|5e|]\"".toList] := by
  decide +kernel

theorem sameLiterals_iff_quoted : ∃ st kept,
    filterRxpc (fun _ => some (oneContent "\"a[|5e|]\"")) (fun _ => []) true true 0xFFFFFFF
      ["content:\"a[|5e|]\"\n".toList] = .ok (st, kept) ∧
      (SameLiterals (fun _ => some (oneContent "\"a[|5e|]\"")) ["content:\"a[|5e|]\"\n".toList] st 0
          (oneContent "\"a[|5e|]\"") ↔
        (1 + submittedBefore (fun _ => some (oneContent "\"a[|5e|]\"")) true
            (ruleLines ["content:\"a[|5e|]\"\n".toList]) 0 < 0xFFFFFFF ∨
          (oneContent "\"a[|5e|]\"").getOption "content" = []) ∧
          ∀ opt ∈ (oneContent "\"a[|5e|]\"").getOption "content",
            unquote opt.value = stripQuotes opt.value ∧
              escapedInBlock false none false (unquote opt.value) = false) := by
  obtain ⟨st, kept, h, hkept⟩ : ∃ st kept,
      filterRxpc (fun _ => some (oneContent "\"a[|5e|]\"")) (fun _ => []) true true 0xFFFFFFF
        ["content:\"a[|5e|]\"\n".toList] = .ok (st, kept) ∧ st.keeps "1".toList = true := by
    unfold filterRxpc
    rw [ruleLines_quoted]
    exact ⟨_, _, rfl, rfl⟩
  have hline : (ruleLines ["content:\"a[|5e|]\"\n".toList])[0]? =
      some "content:\"a[|5e|]\"".toList := by
    rw [ruleLines_quoted]
    rfl
  have hparts : ∀ opt ∈ (oneContent "\"a[|5e|]\"").getOption "content", ∀ c ∈ opt.value,
      c ∈ "content:\"a[|5e|]\"".toList :=
    List.forall_mem_singleton.mpr fun c hc => List.mem_append_right "content:".toList hc
  exact ⟨st, kept, h, sameLiterals_iff h hline rfl rfl hkept hparts⟩

end Data
end PamoRxpBench
