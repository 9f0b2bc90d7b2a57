import PamoRxpBench.Data.FilterTheorems
import PamoRxpBench.Data.RxpcFilterTheorems

/-!
# Which rules `filter_rxpc` keeps

What one rule adds to the variables of the loop (`addRule_extends`), what the loop has read when
it ends (`submitRules_reads`), and from these the rules that are written: those read before
`max_rules` was reached that the compiler can take as a whole and of which no pattern was
reported (`filterRxpc_keeps`).
-/

namespace PamoRxpBench
namespace Data

/-! ## The patterns of a rule -/

/-- The patterns of the enabled kinds, and whether they are literals. -/
def Rule.enabledPatterns (includePcres includeLiterals : Bool) (r : Rule) : List (Text × Bool) :=
  (if includeLiterals then
    (r.getOption "content").map fun opt => (suricataContentToRegex (unquote opt.value), true)
  else []) ++
  (if includePcres then (r.getOption "pcre").map fun opt => (unquote opt.value, false) else [])

/-- Of the enabled kinds, no content is negated and every pcre has an accepted modifier. -/
def Rule.acceptable (includePcres includeLiterals : Bool) (r : Rule) : Bool :=
  (!includeLiterals || (r.getOption "content").all fun opt => !opt.negated) &&
  (!includePcres || (r.getOption "pcre").all RuleOption.accepted)

/-- What a submitted line compiles. -/
def Submitted.pattern (s : Submitted) : Text × Bool := (s.rgx, s.literal)

/-! ## One rule -/

/-- A part of the loop body for the rule with the sid `sid`: it submits `new` under the next ids,
and excludes the sid if something is illegal. -/
structure Extends (sid : Text) (st st' : Submission) (new : List Submitted) (illegal : Bool) :
    Prop where
  inRgxs : st'.inRgxs = st.inRgxs ++ new
  next : st'.i = st.i + new.length
  ids : new.map Submitted.id = List.range' st.i new.length
  line : st'.line = st.line
  new_line : ∀ s ∈ new, s.line = st.line
  lookup_new : ∀ s ∈ new, IdMap.get? st'.id2sid s.id = some sid
  lookup_old : ∀ k : ℕ, k < st.i → IdMap.get? st'.id2sid k = IdMap.get? st.id2sid k
  initial : st'.initialSids = st.initialSids
  excluded : ∀ s, s ∈ st'.excludedSids ↔ s ∈ st.excludedSids ∨ s = sid ∧ illegal = true

variable {sid : Text} {st st' st'' : Submission} {new new' : List Submitted}
  {illegal illegal' : Bool}

theorem Extends.refl (sid : Text) (st : Submission) : Extends sid st st [] false where
  inRgxs := (List.append_nil _).symm
  next := rfl
  ids := rfl
  line := rfl
  new_line := fun _ h => absurd h List.not_mem_nil
  lookup_new := fun _ h => absurd h List.not_mem_nil
  lookup_old := fun _ _ => rfl
  initial := rfl
  excluded := fun s => by simp

theorem Extends.exclude (sid : Text) (st : Submission) :
    Extends sid st (st.exclude sid) [] true where
  inRgxs := (List.append_nil _).symm
  next := rfl
  ids := rfl
  line := rfl
  new_line := fun _ h => absurd h List.not_mem_nil
  lookup_new := fun _ h => absurd h List.not_mem_nil
  lookup_old := fun _ _ => rfl
  initial := rfl
  excluded := fun s => by
    rw [Submission.exclude, List.mem_insert_iff]
    grind

theorem Extends.submit {rgx : Text} {literal : Bool}
    (h : Extends sid (st.submit sid literal rgx) st' new illegal) :
    Extends sid st st' (⟨st.i, rgx, st.line, literal⟩ :: new) illegal where
  inRgxs := by
    rw [h.inRgxs, Submission.submit, List.append_assoc]
    rfl
  next := by
    rw [h.next, List.length_cons]
    show st.i + 1 + new.length = st.i + (new.length + 1)
    omega
  ids := by
    rw [List.map_cons, h.ids, List.length_cons, List.range'_succ]
    rfl
  line := h.line
  new_line := List.forall_mem_cons.mpr ⟨rfl, h.new_line⟩
  lookup_new := by
    refine List.forall_mem_cons.mpr ⟨?_, h.lookup_new⟩
    -- the ids after this one are larger
    rw [h.lookup_old st.i (Nat.lt_succ_self _)]
    exact AList.lookup_insert _
  lookup_old := by
    intro k hk
    rw [h.lookup_old k (Nat.lt_succ_of_lt hk)]
    exact AList.lookup_insert_ne (by omega)
  initial := h.initial
  excluded := h.excluded

/-- Submissions one after the other add up, and one that is illegal makes all so. -/
theorem Extends.trans (h : Extends sid st st' new illegal)
    (h' : Extends sid st' st'' new' illegal') :
    Extends sid st st'' (new ++ new') (illegal || illegal') where
  inRgxs := by rw [h'.inRgxs, h.inRgxs, List.append_assoc]
  next := by
    rw [h'.next, h.next, List.length_append]
    omega
  ids := by
    rw [List.map_append, h.ids, h'.ids, h.next, List.length_append, List.range'_append_1]
  line := h'.line.trans h.line
  new_line := by
    intro s hs
    rcases List.mem_append.mp hs with hs | hs
    · exact h.new_line s hs
    · rw [h'.new_line s hs, h.line]
  lookup_new := by
    intro s hs
    rcases List.mem_append.mp hs with hs | hs
    · have hid : s.id ∈ List.range' st.i new.length := h.ids ▸ List.mem_map_of_mem hs
      rw [h'.lookup_old s.id (by rw [h.next]; exact (List.mem_range'_1.mp hid).2)]
      exact h.lookup_new s hs
    · exact h'.lookup_new s hs
  lookup_old := by
    intro k hk
    have hk' : k < st'.i := by
      rw [h.next]
      omega
    rw [h'.lookup_old k hk', h.lookup_old k hk]
  initial := h'.initial.trans h.initial
  excluded := by
    intro s
    rw [h'.excluded, h.excluded, Bool.or_eq_true]
    grind

/-- The contents of a rule are submitted up to the first negated one. -/
theorem addContents_extends (sid : Text) (opts : List RuleOption) (st : Submission) :
    ∃ new, Extends sid st (st.addContents sid opts) new (!opts.all fun opt => !opt.negated) ∧
      ((opts.all fun opt => !opt.negated) = true → new.map Submitted.pattern =
        opts.map fun opt => (suricataContentToRegex (unquote opt.value), true)) := by
  induction opts generalizing st with
  | nil => exact ⟨[], Extends.refl sid st, fun _ => rfl⟩
  | cons cntnt opts ih =>
    rw [addContents_cons, List.all_cons]
    by_cases hnegated : cntnt.negated = true
    · rw [if_pos hnegated, hnegated]
      exact ⟨[], Extends.exclude sid st, fun hall => absurd hall (by simp)⟩
    · rw [if_neg hnegated, eq_false_of_ne_true hnegated]
      obtain ⟨new, hext, hnew⟩ :=
        ih (st.submit sid true (suricataContentToRegex (unquote cntnt.value)))
      exact ⟨_, hext.submit, fun hall => congrArg _ (hnew hall)⟩

/-- The expressions are submitted up to the first one that is not accepted. -/
theorem addPcres_extends (sid : Text) (opts : List RuleOption) (st : Submission) :
    ∃ new, Extends sid st (st.addPcres sid opts) new (!opts.all RuleOption.accepted) ∧
      (opts.all RuleOption.accepted = true → new.map Submitted.pattern =
        opts.map fun opt => (unquote opt.value, false)) := by
  induction opts generalizing st with
  | nil => exact ⟨[], Extends.refl sid st, fun _ => rfl⟩
  | cons rgx opts ih =>
    rw [addPcres_cons, List.all_cons]
    by_cases haccepted : rgx.accepted = true
    · rw [if_pos haccepted, haccepted]
      obtain ⟨new, hext, hnew⟩ := ih (st.submit sid false (unquote rgx.value))
      exact ⟨_, hext.submit, fun hall => congrArg _ (hnew hall)⟩
    · rw [if_neg haccepted, eq_false_of_ne_true haccepted]
      exact ⟨[], Extends.exclude sid st, fun hall => absurd hall (by simp)⟩

/-- `initial_sids.add(sid)`. -/
def Submission.enter (sid : Text) (st : Submission) : Submission :=
  { st with initialSids := st.initialSids.insert sid }

/-- The rule is done. -/
def Submission.leave (st : Submission) : Submission := { st with line := st.line + 1 }

/-- One rule. -/
theorem addRule_extends (includePcres includeLiterals : Bool) (sid : Text) (r : Rule)
    (st : Submission) :
    ∃ st' new, st.addRule includePcres includeLiterals sid r = st'.leave ∧
      Extends sid (st.enter sid) st' new (!r.acceptable includePcres includeLiterals) ∧
      (r.acceptable includePcres includeLiterals = true →
        new.map Submitted.pattern = r.enabledPatterns includePcres includeLiterals) := by
  obtain ⟨st₁, new₁, hst₁, hext₁, hnew₁⟩ : ∃ st₁ new₁,
      (if includeLiterals then (st.enter sid).addContents sid (r.getOption "content")
        else st.enter sid) = st₁ ∧
      Extends sid (st.enter sid) st₁ new₁
        (includeLiterals && !(r.getOption "content").all fun opt => !opt.negated) ∧
      ((!includeLiterals || (r.getOption "content").all fun opt => !opt.negated) = true →
        new₁.map Submitted.pattern = if includeLiterals then
          (r.getOption "content").map fun opt => (suricataContentToRegex (unquote opt.value), true)
          else []) := by
    cases includeLiterals with
    | false => exact ⟨_, [], rfl, Extends.refl sid _, fun _ => rfl⟩
    | true =>
      obtain ⟨new, hext, hnew⟩ := addContents_extends sid (r.getOption "content") (st.enter sid)
      exact ⟨_, new, rfl, hext, hnew⟩
  -- then the expressions
  obtain ⟨st₂, new₂, hst₂, hext₂, hnew₂⟩ : ∃ st₂ new₂,
      (if includePcres then st₁.addPcres sid (r.getOption "pcre") else st₁) = st₂ ∧
      Extends sid st₁ st₂ new₂
        (includePcres && !(r.getOption "pcre").all RuleOption.accepted) ∧
      ((!includePcres || (r.getOption "pcre").all RuleOption.accepted) = true →
        new₂.map Submitted.pattern = if includePcres then
          (r.getOption "pcre").map fun opt => (unquote opt.value, false) else []) := by
    cases includePcres with
    | false => exact ⟨_, [], rfl, Extends.refl sid _, fun _ => rfl⟩
    | true =>
      obtain ⟨new, hext, hnew⟩ := addPcres_extends sid (r.getOption "pcre") st₁
      exact ⟨_, new, rfl, hext, hnew⟩
  refine ⟨st₂, new₁ ++ new₂, ?_, ?_, ?_⟩
  · rw [← hst₂, ← hst₁]
    rfl
  · have hboth := hext₁.trans hext₂
    have hillegal : ((includeLiterals && !(r.getOption "content").all fun opt => !opt.negated) ||
        (includePcres && !(r.getOption "pcre").all RuleOption.accepted))
        = !r.acceptable includePcres includeLiterals := by
      rw [Rule.acceptable, Bool.not_and, Bool.not_or, Bool.not_or, Bool.not_not, Bool.not_not]
    rw [hillegal] at hboth
    exact hboth
  · intro hacceptable
    obtain ⟨hcontents, hpcres⟩ := Bool.and_eq_true_iff.mp hacceptable
    rw [List.map_append, hnew₁ hcontents, hnew₂ hpcres]
    rfl

/-! ## The loop over the rules -/

variable {parseRule : Text → Option Rule} {includePcres includeLiterals : Bool} {maxRules : ℕ}

/-- The loop has read some of the rules `entries`, those up to `st'.line`, and submitted `new`. -/
structure Reads (includePcres includeLiterals : Bool) (maxRules : ℕ) (st st' : Submission)
    (entries : List (RuleEntry parseRule)) (new : List Submitted) : Prop where
  inRgxs : st'.inRgxs = st.inRgxs ++ new
  ids : new.map Submitted.id = List.range' st.i new.length
  line_le : st.line ≤ st'.line
  new_line : ∀ s ∈ new, st.line ≤ s.line ∧ s.line < st'.line
  owner : ∀ s ∈ new, ∃ e, entries[s.line - st.line]? = some e ∧
    IdMap.get? st'.id2sid s.id = some e.sid
  lookup_old : ∀ k : ℕ, k < st.i → IdMap.get? st'.id2sid k = IdMap.get? st.id2sid k
  initial : ∀ sid, sid ∈ st'.initialSids ↔ sid ∈ st.initialSids ∨
    ∃ k e, entries[k]? = some e ∧ st.line + k < st'.line ∧ e.sid = sid
  excluded : ∀ sid, sid ∈ st'.excludedSids ↔ sid ∈ st.excludedSids ∨
    ∃ k e, entries[k]? = some e ∧ st.line + k < st'.line ∧ e.sid = sid ∧
      e.rule.acceptable includePcres includeLiterals = false
  patterns : ∀ k e, entries[k]? = some e → st.line + k < st'.line →
    e.rule.acceptable includePcres includeLiterals = true →
    (new.filter fun s => s.line = st.line + k).map Submitted.pattern
      = e.rule.enabledPatterns includePcres includeLiterals
  read : ∀ k < entries.length, (st.line + k < st'.line ↔
    st.i + new.countP (fun s => s.line < st.line + k) < maxRules)

/-- Nothing more is read. -/
theorem Reads.stop {entries : List (RuleEntry parseRule)}
    (h : ∀ k < entries.length, maxRules ≤ st.i) :
    Reads includePcres includeLiterals maxRules st st entries [] where
  inRgxs := (List.append_nil _).symm
  ids := rfl
  line_le := le_refl _
  new_line := fun _ h => absurd h List.not_mem_nil
  owner := fun _ h => absurd h List.not_mem_nil
  lookup_old := fun _ _ => rfl
  initial := fun sid => ⟨Or.inl, fun h => h.elim id fun ⟨k, e, _, hlt, _⟩ => by omega⟩
  excluded := fun sid => ⟨Or.inl, fun h => h.elim id fun ⟨k, e, _, hlt, _⟩ => by omega⟩
  patterns := fun k e _ hlt => by omega
  read := fun k hk => by
    have := h k hk
    rw [List.countP_nil]
    omega

theorem filter_line_of_ne {es : List Submitted} {j : ℕ} (h : ∀ s ∈ es, s.line ≠ j) :
    es.filter (fun s => s.line = j) = [] :=
  List.filter_eq_nil_iff.mpr fun s hs => by simpa using h s hs

theorem filter_line_of_eq {es : List Submitted} {j : ℕ} (h : ∀ s ∈ es, s.line = j) :
    es.filter (fun s => s.line = j) = es :=
  List.filter_eq_self.mpr fun s hs => by simpa using h s hs

/-- A property of one of the rules read: of the first, or of one of the others. -/
theorem exists_read_cons {e : RuleEntry parseRule} {entries : List (RuleEntry parseRule)}
    {first last : ℕ} (hread : first < last) {P : RuleEntry parseRule → Prop} :
    (∃ k e', (e :: entries)[k]? = some e' ∧ first + k < last ∧ P e') ↔
      P e ∨ ∃ k e', entries[k]? = some e' ∧ first + 1 + k < last ∧ P e' := by
  constructor
  · intro ⟨k, e', he', hlt, hP⟩
    match k with
    | 0 =>
      obtain rfl := Option.some.inj he'
      exact Or.inl hP
    | k + 1 => exact Or.inr ⟨k, e', he', by omega, hP⟩
  · intro h
    match h with
    | .inl hP => exact ⟨0, e, rfl, hread, hP⟩
    | .inr ⟨k, e', he', hlt, hP⟩ => exact ⟨k + 1, e', he', by omega, hP⟩

/-- One rule more at the front. -/
theorem Reads.cons {e : RuleEntry parseRule} {entries : List (RuleEntry parseRule)}
    {rest : List Submitted} (hi : st.i < maxRules)
    (hext : Extends e.sid (st.enter e.sid) st' new
      (!e.rule.acceptable includePcres includeLiterals))
    (hnew : e.rule.acceptable includePcres includeLiterals = true →
      new.map Submitted.pattern = e.rule.enabledPatterns includePcres includeLiterals)
    (hrest : Reads includePcres includeLiterals maxRules st'.leave st'' entries rest) :
    Reads includePcres includeLiterals maxRules st st'' (e :: entries) (new ++ rest) := by
  have hline : st'.leave.line = st.line + 1 := congrArg (· + 1) hext.line
  have hnext : st'.leave.i = st.i + new.length := hext.next
  have hnew_line : ∀ s ∈ new, s.line = st.line := hext.new_line
  have hle := hrest.line_le
  have hread : st.line < st''.line := by omega
  have hrest_line : ∀ s ∈ rest, st.line < s.line ∧ s.line < st''.line := by
    intro s hs
    have := hrest.new_line s hs
    omega
  constructor
  case inRgxs =>
    rw [hrest.inRgxs, ← List.append_assoc]
    exact congrArg (· ++ rest) hext.inRgxs
  case ids =>
    rw [List.map_append, hext.ids, hrest.ids, hnext, List.length_append]
    exact List.range'_append_1
  case line_le => omega
  case new_line =>
    intro s hs
    rcases List.mem_append.mp hs with hs | hs
    · rw [hnew_line s hs]
      exact ⟨le_refl _, hread⟩
    · exact ⟨(hrest_line s hs).1.le, (hrest_line s hs).2⟩
  case owner =>
    intro s hs
    rcases List.mem_append.mp hs with hs | hs
    · -- the ids of this rule are not assigned again
      refine ⟨e, ?_, ?_⟩
      · rw [hnew_line s hs, Nat.sub_self]
        rfl
      · have hid : s.id ∈ List.range' st.i new.length := hext.ids ▸ List.mem_map_of_mem hs
        rw [hrest.lookup_old s.id (by rw [hnext]; exact (List.mem_range'_1.mp hid).2)]
        exact hext.lookup_new s hs
    · obtain ⟨e', he', hlookup⟩ := hrest.owner s hs
      refine ⟨e', ?_, hlookup⟩
      have hlt := (hrest_line s hs).1
      have hsub : s.line - st.line = s.line - st'.leave.line + 1 := by omega
      rw [hsub, List.getElem?_cons_succ]
      exact he'
  case lookup_old =>
    intro k hk
    rw [hrest.lookup_old k (by omega)]
    exact hext.lookup_old k hk
  case initial =>
    intro sid
    have hinitial : sid ∈ st'.leave.initialSids ↔ sid = e.sid ∨ sid ∈ st.initialSids := by
      rw [← List.mem_insert_iff]
      exact iff_of_eq (congrArg (sid ∈ ·) hext.initial)
    rw [hrest.initial, hinitial, hline, exists_read_cons hread]
    grind
  case excluded =>
    intro sid
    have hexcluded : sid ∈ st'.leave.excludedSids ↔ sid ∈ st.excludedSids ∨ sid = e.sid ∧
        (!e.rule.acceptable includePcres includeLiterals) = true := hext.excluded sid
    rw [hrest.excluded, hexcluded, hline, exists_read_cons hread, Bool.not_eq_true']
    grind
  case patterns =>
    intro k e' he' hlt hacceptable
    rw [List.filter_append]
    -- the line of this rule, and a later one
    match k with
    | 0 =>
      obtain rfl := Option.some.inj he'
      rw [Nat.add_zero, filter_line_of_eq hnew_line, filter_line_of_ne, List.append_nil]
      · exact hnew hacceptable
      · intro s hs
        have := hrest_line s hs
        omega
    | k + 1 =>
      have hk : st.line + (k + 1) = st'.leave.line + k := by omega
      rw [hk] at hlt ⊢
      rw [filter_line_of_ne, List.nil_append]
      · exact hrest.patterns k e' he' hlt hacceptable
      · intro s hs
        have := hnew_line s hs
        omega
  case read =>
    intro k hk
    rw [List.countP_append]
    match k with
    | 0 =>
      -- in front of this line there is nothing
      have hzero : new.countP (fun s => s.line < st.line + 0) = 0 :=
        List.countP_eq_zero.mpr fun s hs => by simpa using (hnew_line s hs).ge
      have hzero' : rest.countP (fun s => s.line < st.line + 0) = 0 :=
        List.countP_eq_zero.mpr fun s hs => by simpa using (hrest_line s hs).1.le
      rw [hzero, hzero']
      omega
    | k + 1 =>
      have hall : new.countP (fun s => s.line < st.line + (k + 1)) = new.length :=
        List.countP_eq_length.mpr fun s hs => by
          have := hnew_line s hs
          exact decide_eq_true (by omega)
      have hk' : st.line + (k + 1) = st'.leave.line + k := by omega
      have hreads := hrest.read k (Nat.lt_of_succ_lt_succ hk)
      rw [hall, hk', ← Nat.add_assoc, ← hnext]
      exact hreads

/-- Reading the rules of a file. -/
theorem submitRules_reads (entries : List (RuleEntry parseRule)) (st : Submission) :
    ∃ st' new, submitRules parseRule includePcres includeLiterals maxRules st
        (entries.map RuleEntry.line) = .ok st' ∧
      Reads includePcres includeLiterals maxRules st st' entries new := by
  induction entries generalizing st with
  | nil => exact ⟨st, [], rfl, Reads.stop fun k hk => absurd hk (Nat.not_lt_zero k)⟩
  | cons e entries ih =>
    rw [List.map_cons, submitRules]
    by_cases hi : st.i ≥ maxRules
    · rw [if_pos hi]
      exact ⟨st, [], rfl, Reads.stop fun _ _ => hi⟩
    · obtain ⟨st₁, new, hst₁, hext, hnew⟩ :=
        addRule_extends includePcres includeLiterals e.sid e.rule st
      obtain ⟨st', rest, hrun, hreads⟩ := ih st₁.leave
      rw [if_neg hi, parsedRule, e.parsed]
      refine ⟨st', new ++ rest, ?_, Reads.cons (by omega) hext hnew hreads⟩
      show (e.rule.sid >>= _) = _
      rw [e.sid_eq]
      show submitRules _ _ _ _ _ _ = _
      rw [hst₁]
      exact hrun

/-! ## What is written -/

theorem excludeUncompiled_eq_foldlM (id2sid : IdMap) (excludedSids : List Text) (idxs : List ℕ) :
    excludeUncompiled id2sid excludedSids idxs = idxs.foldlM (excludeId id2sid) excludedSids := by
  induction idxs generalizing excludedSids with
  | nil => rfl
  | cons i idxs ih =>
    rw [excludeUncompiled, List.foldlM_cons, excludeId]
    cases IdMap.get? id2sid i with
    | none => rfl
    | some sid => exact ih _

/-- The lines that are kept are those of the rules whose sid is kept. -/
theorem keptLines_entries (st : Submission) (entries : List (RuleEntry parseRule)) :
    keptLines parseRule st (entries.map RuleEntry.line) =
      .ok ((entries.filter fun e => st.keeps e.sid).map fun e => e.line ++ ['\n']) := by
  induction entries with
  | nil => rfl
  | cons e entries ih =>
    have hstep : keptLines parseRule st ((e :: entries).map RuleEntry.line) =
        keptLines parseRule st (entries.map RuleEntry.line) >>= fun kept =>
          .ok (if st.keeps e.sid then (e.line ++ ['\n']) :: kept else kept) := by
      rw [List.map_cons, keptLines, parsedRule, e.parsed]
      show (e.rule.sid >>= _) = _
      rw [e.sid_eq]
      rfl
    rw [hstep, ih]
    by_cases he : st.keeps e.sid = true <;> simp [he, bind, Except.bind]

/-- The ids that the compiler reports. -/
def Submission.reported (st : Submission) (rxpc : Text → List Text) : List ℕ :=
  (rxpc (tempRgx st.inRgxs)).filterMap searchRuleId

/-- No pattern of the rule of index `j` is reported. -/
def Submission.compiled (st : Submission) (reported : List ℕ) (j : ℕ) : Bool :=
  st.inRgxs.all fun s => s.line != j || !reported.contains s.id

/-- The output holds exactly the rules that were read and that the compiler can take as a whole,
in their order and unchanged. -/
structure KeepsCompilable {file : List Text} (db : Database parseRule file)
    (includePcres includeLiterals : Bool) (maxRules : ℕ) (reported : List ℕ) (st : Submission)
    (kept : List Text) : Prop where
  /-- A rule is read if the next id is below `max_rules` after the patterns of those before it. -/
  read : ∀ j < db.entries.length,
    (j < st.line ↔ 1 + st.inRgxs.countP (fun s => s.line < j) < maxRules)
  kept : kept = (db.entries.zipIdx.filter fun ej => decide (ej.2 < st.line) &&
    ej.1.rule.acceptable includePcres includeLiterals && st.compiled reported ej.2).map
      fun ej => ej.1.line ++ ['\n']
  /-- What is submitted comes from the rules read. -/
  submitted : ∀ s ∈ st.inRgxs, s.line < st.line ∧ s.line < db.entries.length
  /-- No two submitted patterns have the same id. -/
  ids : (st.inRgxs.map Submitted.id).Nodup
  /-- Every enabled pattern of a kept rule was submitted. -/
  patterns : ∀ j e, db.entries[j]? = some e → j < st.line →
    e.rule.acceptable includePcres includeLiterals = true →
    (st.inRgxs.filter fun s => s.line = j).map Submitted.pattern
      = e.rule.enabledPatterns includePcres includeLiterals

/-- The variables with the sids that are excluded in the end. -/
def Submission.excluding (st : Submission) (excludedSids : List Text) : Submission :=
  { st with excludedSids := excludedSids }

theorem keeps_excluding (excludedSids : List Text) (sid : Text) :
    (st.excluding excludedSids).keeps sid
      = (!excludedSids.contains sid && st.initialSids.contains sid) := rfl

theorem compiled_eq_false_iff {reported : List ℕ} {j : ℕ} :
    st.compiled reported j = false ↔ ∃ s ∈ st.inRgxs, s.line = j ∧ s.id ∈ reported := by
  rw [Submission.compiled, List.all_eq_false]
  refine exists_congr fun s => and_congr_right fun _ => ?_
  simp

variable {file : List Text}

/-- Rules with the same sid are the same. -/
theorem Database.index_unique (db : Database parseRule file) {j k : ℕ}
    {e e' : RuleEntry parseRule} (hj : db.entries[j]? = some e) (hk : db.entries[k]? = some e')
    (hsid : e.sid = e'.sid) : j = k := by
  have hsids : (db.entries.map RuleEntry.sid)[j]? = (db.entries.map RuleEntry.sid)[k]? := by
    rw [List.getElem?_map, List.getElem?_map, hj, hk]
    exact congrArg some hsid
  have hlt : j < (db.entries.map RuleEntry.sid).length := by
    rw [List.length_map]
    exact (List.getElem?_eq_some_iff.mp hj).1
  exact (List.getElem?_inj hlt db.nodup).mp hsids

/-- Which rule is kept: its sid is that of no other rule. -/
theorem keeps_iff {db : Database parseRule file} {reported : List ℕ} {excludedSids : List Text}
    (hreads : Reads includePcres includeLiterals maxRules .init st db.entries new)
    (hexcluded : ∀ sid, sid ∈ excludedSids ↔ sid ∈ st.excludedSids ∨
      ∃ id ∈ reported, IdMap.get? st.id2sid id = some sid)
    (hreported : ∀ id ∈ reported, id ∈ st.inRgxs.map Submitted.id)
    {j : ℕ} {e : RuleEntry parseRule} (he : db.entries[j]? = some e) :
    (st.excluding excludedSids).keeps e.sid = true ↔
      j < st.line ∧ e.rule.acceptable includePcres includeLiterals = true ∧
        st.compiled reported j = true := by
  have hzero : ∀ k, Submission.init.line + k = k := Nat.zero_add
  have hinRgxs : st.inRgxs = new := hreads.inRgxs
  -- the sid is registered when the loop reads the line
  have hinitial : e.sid ∈ st.initialSids ↔ j < st.line := by
    rw [hreads.initial]
    constructor
    · intro h
      obtain ⟨k, e', he', hlt, hsid⟩ := h.resolve_left List.not_mem_nil
      rwa [db.index_unique he he' hsid.symm, ← hzero k]
    · exact fun hlt => Or.inr ⟨j, e, he, by rwa [hzero], rfl⟩
  -- it is excluded at once if a pattern cannot be submitted
  have hillegal : j < st.line → (e.sid ∈ st.excludedSids ↔
      e.rule.acceptable includePcres includeLiterals = false) := by
    intro hlt
    rw [hreads.excluded]
    constructor
    · intro h
      obtain ⟨k, e', he', _, hsid, hbad⟩ := h.resolve_left List.not_mem_nil
      obtain rfl := db.index_unique he he' hsid.symm
      obtain rfl := Option.some.inj (he.symm.trans he')
      exact hbad
    · exact fun hbad => Or.inr ⟨j, e, he, by rwa [hzero], rfl, hbad⟩
  -- or behind the loop if one was reported
  have hcompiled : (∃ id ∈ reported, IdMap.get? st.id2sid id = some e.sid) ↔
      st.compiled reported j = false := by
    rw [compiled_eq_false_iff]
    constructor
    · intro ⟨id, hid, hlookup⟩
      obtain ⟨s, hs, rfl⟩ := List.mem_map.mp (hreported id hid)
      obtain ⟨e', he', howner⟩ := hreads.owner s (hinRgxs ▸ hs)
      have hsid : e.sid = e'.sid := Option.some.inj (hlookup.symm.trans howner)
      exact ⟨s, hs, (db.index_unique he he' hsid).symm, hid⟩
    · intro ⟨s, hs, hline, hid⟩
      obtain ⟨e', he', howner⟩ := hreads.owner s (hinRgxs ▸ hs)
      rw [hline] at he'
      obtain rfl := Option.some.inj (he.symm.trans he')
      exact ⟨s.id, hid, howner⟩
  have hsid : e.sid ∈ excludedSids ↔ e.sid ∈ st.excludedSids ∨ st.compiled reported j = false := by
    rw [hexcluded, hcompiled]
  rw [keeps_excluding, Bool.and_eq_true, Bool.not_eq_true', ← Bool.not_eq_true,
    List.contains_iff_mem, List.contains_iff_mem, hsid, hinitial]
  constructor
  · intro ⟨hnot, hlt⟩
    rw [hillegal hlt, not_or, Bool.not_eq_false, Bool.not_eq_false] at hnot
    exact ⟨hlt, hnot⟩
  · intro ⟨hlt, hkept⟩
    rw [hillegal hlt, not_or, Bool.not_eq_false, Bool.not_eq_false]
    exact ⟨hkept, hlt⟩

/-- Whatever the compiler reports of the patterns it is given, the rules that are written are
exactly the compilable ones. -/
theorem filterRxpc_keeps (rxpc : Text → List Text) (includePcres includeLiterals : Bool)
    (maxRules : ℕ) (db : Database parseRule file)
    (hreported : ∀ st, submitRules parseRule includePcres includeLiterals maxRules .init
      (ruleLines file) = .ok st → ∀ id ∈ st.reported rxpc, id ∈ st.inRgxs.map Submitted.id) :
    ∃ st kept, filterRxpc parseRule rxpc includePcres includeLiterals maxRules file
        = .ok (st, kept) ∧
      KeepsCompilable db includePcres includeLiterals maxRules (st.reported rxpc) st kept := by
  have hloop : ∃ st new, submitRules parseRule includePcres includeLiterals maxRules .init
      (db.entries.map RuleEntry.line) = .ok st ∧
      Reads includePcres includeLiterals maxRules .init st db.entries new :=
    submitRules_reads db.entries .init
  obtain ⟨st, new, hrun, hreads⟩ := hloop
  rw [← db.lines_eq] at hrun
  have hids := hreported st hrun
  have hinRgxs : st.inRgxs = new := hreads.inRgxs
  -- every reported id has a sid
  have hlookups : ∀ id ∈ st.reported rxpc, IdMap.get? st.id2sid id ≠ none := by
    intro id hid
    obtain ⟨s, hs, rfl⟩ := List.mem_map.mp (hids id hid)
    obtain ⟨e, _, howner⟩ := hreads.owner s (hinRgxs ▸ hs)
    rw [howner]
    exact Option.some_ne_none _
  obtain ⟨excludedSids, hexclude, hmem⟩ := exists_foldlM_excludeId hlookups st.excludedSids
  refine ⟨st.excluding excludedSids, (db.entries.filter fun e =>
    (st.excluding excludedSids).keeps e.sid).map fun e => e.line ++ ['\n'], ?_, ?_⟩
  · rw [← excludeUncompiled_eq_foldlM] at hexclude
    unfold filterRxpc
    rw [hrun]
    show (excludeUncompiled st.id2sid st.excludedSids (st.reported rxpc) >>= _) = _
    rw [hexclude]
    show (keptLines parseRule _ (ruleLines file) >>= _) = _
    rw [db.lines_eq, keptLines_entries]
    rfl
  · constructor
    case read =>
      intro j hj
      have hread := hreads.read j hj
      rw [show Submission.init.line = 0 from rfl, Nat.zero_add] at hread
      show j < st.line ↔ 1 + st.inRgxs.countP _ < maxRules
      rw [hinRgxs]
      exact hread
    case kept =>
      have hkeep : ∀ ej ∈ db.entries.zipIdx,
          (st.excluding excludedSids).keeps ej.1.sid =
            (decide (ej.2 < st.line) && ej.1.rule.acceptable includePcres includeLiterals &&
              st.compiled (st.reported rxpc) ej.2) := by
        intro ej hej
        rw [Bool.eq_iff_iff, keeps_iff hreads hmem hids (List.mem_zipIdx_iff_getElem?.mp hej),
          Bool.and_eq_true, Bool.and_eq_true, decide_eq_true_eq, and_assoc]
      have hfst : db.entries = db.entries.zipIdx.map Prod.fst := (List.zipIdx_map_fst 0 _).symm
      conv_lhs => rw [hfst]
      rw [List.filter_map, List.map_map]
      exact congrArg _ (List.filter_congr hkeep)
    case submitted =>
      intro s hs
      have hnew : s ∈ new := hinRgxs ▸ hs
      obtain ⟨e, he, _⟩ := hreads.owner s hnew
      exact ⟨(hreads.new_line s hnew).2, (List.getElem?_eq_some_iff.mp he).1⟩
    case ids =>
      show (st.inRgxs.map Submitted.id).Nodup
      rw [hinRgxs, hreads.ids]
      exact List.nodup_range'
    case patterns =>
      intro j e he hlt hacceptable
      have hpatterns := hreads.patterns j e he
      rw [show Submission.init.line = 0 from rfl, Nat.zero_add] at hpatterns
      show (st.inRgxs.filter _).map _ = _
      rw [hinRgxs]
      exact hpatterns hlt hacceptable

/-- The rule of a line: the line is its content, and its sid. -/
def lineRule (l : Text) : Rule :=
  ⟨[⟨"content".toList, '"' :: l ++ ['"']⟩, ⟨"sid".toList, l⟩]⟩

/-- A file of three rules. -/
def lineRules :
    Database (fun l => some (lineRule l)) ["a\n".toList, "b\n".toList, "c\n".toList] where
  entries := [⟨"a".toList, lineRule "a".toList, "a".toList, rfl, rfl⟩,
    ⟨"b".toList, lineRule "b".toList, "b".toList, rfl, rfl⟩,
    ⟨"c".toList, lineRule "c".toList, "c".toList, rfl, rfl⟩]
  lines_eq := by decide +kernel
  nodup := by decide +kernel

/-- The pattern of the second rule is reported. -/
theorem filterRxpc_keeps_reported :
    ∃ st kept, filterRxpc (fun l => some (lineRule l)) (fun _ => ["rule_id: 2".toList]) true true
        0xFFFFFFF ["a\n".toList, "b\n".toList, "c\n".toList] = .ok (st, kept) ∧
      KeepsCompilable lineRules true true 0xFFFFFFF
        (st.reported fun _ => ["rule_id: 2".toList]) st kept := by
  refine filterRxpc_keeps _ true true 0xFFFFFFF lineRules fun st hst => ?_
  rw [lineRules.lines_eq] at hst
  obtain rfl := Except.ok.inj (hst.symm.trans rfl)
  decide +kernel

end Data
end PamoRxpBench
