import Mathlib.Data.List.Forall2
import PamoRxpBench.EtAnalysis.Report
import PamoRxpBench.EtAnalysis.LatexTable

/-!
# `et-analysis`: the table reads back the report

* `readsBack_of_plain`: of a report whose names and texts stay within their lines and hold none of
  the phrases that the reader looks for, every value is read back.

The histogram ends where the composition begins, so that no line behind it is counted. Values are
read between the phrases of the two subsections only, and each subsection has all four of them.
-/

namespace PamoRxpBench
namespace EtAnalysis

open Binary64 (isNumeral readDecimal fixed roundEven)

/-! ## Numbers -/

/-- The characters of a number that is printed. -/
def isPrinted (c : Char) : Bool := isNumeral c || c = '-'

theorem isPrinted_of_mem_decimal {n : ℕ} {c : Char} (h : c ∈ Text.decimal n) :
    isPrinted c = true := by
  rw [isPrinted, Binary64.isNumeral_of_mem_decimal h, Bool.true_or]

theorem isPrinted_of_mem_fixed {d : ℕ} {q : ℚ} {c : Char} (h : c ∈ fixed d q) :
    isPrinted c = true := by
  by_cases hneg : q < 0
  · have habs : fixed d q = '-' :: fixed d |q| := by
      rw [fixed, fixed, abs_abs, if_pos hneg, if_neg (not_lt.mpr (abs_nonneg q))]
      rfl
    rw [habs] at h
    rcases List.mem_cons.mp h with rfl | h
    · rfl
    · rw [isPrinted, Binary64.isNumeral_of_mem_fixed (abs_nonneg q) h, Bool.true_or]
  · rw [isPrinted, Binary64.isNumeral_of_mem_fixed (not_lt.mp hneg) h, Bool.true_or]

theorem showNumber_natCast (floatRepr : ℚ → Text) (n : ℕ) :
    showNumber floatRepr n = Text.decimal n := by
  rw [showNumber, if_pos (Rat.den_natCast n), Rat.num_natCast, if_neg (by omega), List.nil_append,
    Int.natAbs_natCast]

/-- A character that is in neither part of a line. -/
theorem not_mem_append_of_isPrinted {c : Char} {label number : Text}
    (hnumber : ∀ c ∈ number, isPrinted c = true) (hlabel : label.contains c = false)
    (hc : isPrinted c = false) : c ∉ label ++ number := by
  intro hmem
  rcases List.mem_append.mp hmem with hmem | hmem
  · rw [List.contains_iff_mem.mpr hmem] at hlabel
    exact Bool.noConfusion hlabel
  · rw [hnumber c hmem] at hc
    exact Bool.noConfusion hc

theorem isLine_append_of_isPrinted {label number : Text}
    (hnumber : ∀ c ∈ number, isPrinted c = true) (hlf : label.contains '\n' = false)
    (hcr : label.contains '\r' = false) : Csv.IsLine (label ++ number) :=
  ⟨not_mem_append_of_isPrinted hnumber hlf rfl, not_mem_append_of_isPrinted hnumber hcr rfl⟩

/-- A number behind a blank is read as it is. -/
theorem leadingNumber_blank {number : Text} (h : ∀ c ∈ number, isNumeral c = true)
    (hne : number ≠ []) : leadingNumber (' ' :: number) = some number := by
  have hdrop : (' ' :: number).dropWhile Text.isSpace = number := by
    rw [List.dropWhile_cons_of_pos (by rfl)]
    cases number with
    | nil => rfl
    | cons c number =>
      exact List.dropWhile_cons_of_neg
        (Binary64.not_isSpace_of_isNumeral (h c List.mem_cons_self))
  unfold leadingNumber
  rw [hdrop, List.takeWhile_eq_self_iff.mpr h, if_neg hne]

/-! ## The blocks -/

/-- The name of a level is read back from its header. -/
theorem matchLevel_header {name : Text} (hne : name ≠ [])
    (hname : ∀ c ∈ name, ¬ Text.isSpace c = true) :
    matchLevel ("Statistics for level: ".toList ++ name ++ ['\n']) = some name := by
  have hdrop : (name ++ ['\n']).dropWhile Text.isSpace = name ++ ['\n'] := by
    cases name with
    | nil => exact absurd rfl hne
    | cons c name => exact List.dropWhile_cons_of_neg (hname c List.mem_cons_self)
  have htake : (((("Statistics for level: ".toList ++ name ++ ['\n']).drop
      "Statistics for level:".toList.length).dropWhile Text.isSpace).takeWhile
        fun c => !Text.isSpace c) = name := by
    show ((' ' :: (name ++ ['\n'])).dropWhile Text.isSpace).takeWhile _ = name
    rw [List.dropWhile_cons_of_pos (by rfl), hdrop, List.takeWhile_append_of_pos]
    · exact List.append_nil name
    · intro c hc
      rw [Bool.not_eq_true', Bool.eq_false_iff]
      exact hname c hc
  have hlabel : "Statistics for level:".toList <+:
      "Statistics for level: ".toList ++ name ++ ['\n'] := ⟨' ' :: (name ++ ['\n']), rfl⟩
  unfold matchLevel
  show (if _ ∧ _ ≠ [] then some _ else none) = some name
  rw [htake, if_pos ⟨hlabel, hne⟩]

/-- The lines of a block. -/
def IsBody (l : Text) : Prop := Csv.IsLine l ∧ matchLevel (l ++ ['\n']) = none

/-- A line of the body goes to the block of its level. -/
theorem blockLine_body {l : Text} (h : IsBody l) (d : Dict Text (List Text)) (name : Text)
    (block : List Text) :
    blockLine ⟨d, some name, block⟩ (l ++ ['\n']) = ⟨d, some name, block ++ [l]⟩ := by
  have hend : (l ++ ['\n']).rdropWhile (· = '\n') = l := by
    rw [List.rdropWhile_concat_pos _ _ _ (by rfl), List.rdropWhile_eq_self_iff]
    intro hne heq
    exact h.1.1 (of_decide_eq_true heq ▸ List.getLast_mem hne)
  unfold blockLine
  rw [h.2]
  show BlockLoop.mk d (some name) (block ++ [(l ++ ['\n']).rdropWhile (· = '\n')]) = _
  rw [hend]

theorem foldl_blockLine_body {ls : List Text} (h : ∀ l ∈ ls, IsBody l)
    (d : Dict Text (List Text)) (name : Text) (block : List Text) :
    (ls.map (· ++ ['\n'])).foldl blockLine ⟨d, some name, block⟩ = ⟨d, some name, block ++ ls⟩ := by
  induction ls generalizing block with
  | nil => rw [List.append_nil]; rfl
  | cons l ls ih =>
    rw [List.map_cons, List.foldl_cons, blockLine_body (h l List.mem_cons_self),
      ih fun l hl => h l (List.mem_cons_of_mem _ hl), List.append_assoc, List.singleton_append]

/-- A name and the lines of its block. -/
structure Section where
  name : Text
  body : List Text

/-- The lines of a section; the first one is blank. -/
def Section.lines (s : Section) : List Text :=
  [] :: ("Statistics for level: ".toList ++ s.name) :: s.body

/-- A section that is told from the others. -/
def Section.WellFormed (s : Section) : Prop :=
  (s.name ≠ [] ∧ ∀ c ∈ s.name, ¬ Text.isSpace c = true) ∧ ∀ l ∈ s.body, IsBody l

/-- The block of a section: a blank line may have been added. -/
def Section.IsBlock (s : Section) (block : Text × List Text) : Prop :=
  block.1 = s.name ∧ (block.2 = s.body ∨ block.2 = s.body ++ [[]])

theorem blockLine_header {s : Section} (hs : s.WellFormed) (st : BlockLoop) :
    blockLine st ("Statistics for level: ".toList ++ s.name ++ ['\n']) =
      ⟨storeBlock st, some s.name, []⟩ := by
  rw [blockLine, matchLevel_header hs.1.1 hs.1.2]
  show BlockLoop.mk _ (some (Text.strip s.name)) _ = _
  rw [Text.strip_of_not_isSpace hs.1.2]

/-- The blank line of a section goes to the block before it. -/
theorem foldl_blockLine_section {s : Section} (hs : s.WellFormed) (d : Dict Text (List Text))
    (name : Text) (block : List Text) :
    (s.lines.map (· ++ ['\n'])).foldl blockLine ⟨d, some name, block⟩ =
      ⟨d.set name (block ++ [[]]), some s.name, s.body⟩ := by
  have hblank : IsBody [] := ⟨⟨List.not_mem_nil, List.not_mem_nil⟩, rfl⟩
  rw [Section.lines, List.map_cons, List.foldl_cons, blockLine_body hblank, List.map_cons,
    List.foldl_cons, blockLine_header hs, foldl_blockLine_body hs.2, List.nil_append]
  rfl

/-- The blocks of the section that is read and of those that follow. -/
theorem entries_foldl_blockLine (sections : List Section) :
    ∀ (current : Section) (d : Dict Text (List Text)), (∀ s ∈ sections, s.WellFormed) →
      (current.name :: sections.map Section.name).Nodup →
      (∀ s ∈ current :: sections, s.name ∉ d.keys) →
      ∃ blocks, (storeBlock (((sections.flatMap Section.lines).map (· ++ ['\n'])).foldl blockLine
          ⟨d, some current.name, current.body⟩)).entries = d.entries ++ blocks ∧
        List.Forall₂ Section.IsBlock (current :: sections) blocks := by
  induction sections with
  | nil =>
    intro current d _ _ hd
    refine ⟨[(current.name, current.body)], ?_, .cons ⟨rfl, .inl rfl⟩ .nil⟩
    exact Dict.entries_set_of_not_mem (hd current List.mem_cons_self) _
  | cons s sections ih =>
    intro current d hsections hnodup hd
    have hs := hsections s List.mem_cons_self
    have hnew := hd current List.mem_cons_self
    rw [List.map_cons, List.nodup_cons] at hnodup
    have hd' : ∀ t ∈ s :: sections, t.name ∉ (d.set current.name (current.body ++ [[]])).keys := by
      intro t ht hmem
      rcases Dict.mem_keys_set.mp hmem with heq | hmem
      · exact hnodup.1 (heq ▸ List.mem_map_of_mem (f := Section.name) ht)
      · exact hd t (List.mem_cons_of_mem _ ht) hmem
    obtain ⟨blocks, hentries, hblocks⟩ :=
      ih s _ (fun t ht => hsections t (List.mem_cons_of_mem _ ht)) hnodup.2 hd'
    refine ⟨(current.name, current.body ++ [[]]) :: blocks, ?_, .cons ⟨rfl, .inr rfl⟩ hblocks⟩
    rw [List.flatMap_cons, List.map_append, List.foldl_append, foldl_blockLine_section hs, hentries,
      Dict.entries_set_of_not_mem hnew, List.append_assoc, List.singleton_append]

/-- Every section is read as one block, under its name. -/
theorem forall₂_dataByLevel {sections : List Section} (hsections : ∀ s ∈ sections, s.WellFormed)
    (hnodup : (sections.map Section.name).Nodup) :
    List.Forall₂ Section.IsBlock sections
      (dataByLevel (Csv.unlines (sections.flatMap Section.lines))).entries := by
  have hlines : ∀ l ∈ sections.flatMap Section.lines, Csv.IsLine l := by
    intro l hl
    obtain ⟨s, hs, hl⟩ := List.mem_flatMap.mp hl
    obtain ⟨⟨-, hname⟩, hbody⟩ := hsections s hs
    rcases List.mem_cons.mp hl with rfl | hl
    · exact ⟨List.not_mem_nil, List.not_mem_nil⟩
    · rcases List.mem_cons.mp hl with rfl | hl
      · apply Csv.IsLine.append ⟨by decide, by decide⟩
        exact ⟨fun h => hname _ h rfl, fun h => hname _ h rfl⟩
      · exact (hbody l hl).1
  rw [dataByLevel, Csv.readlines_unlines hlines]
  cases sections with
  | nil => exact .nil
  | cons s sections =>
    have hs := hsections s List.mem_cons_self
    -- the blank line before the first section goes to no block
    have hfirst : (s.lines.map (· ++ ['\n'])).foldl blockLine ⟨Dict.empty, none, []⟩ =
        ⟨Dict.empty, some s.name, s.body⟩ := by
      rw [Section.lines, List.map_cons, List.foldl_cons, List.map_cons, List.foldl_cons,
        blockLine_header hs, foldl_blockLine_body hs.2, List.nil_append]
      rfl
    obtain ⟨blocks, hentries, hblocks⟩ := entries_foldl_blockLine sections s Dict.empty
      (fun t ht => hsections t (List.mem_cons_of_mem _ ht)) hnodup fun _ _ => List.not_mem_nil
    rw [List.flatMap_cons, List.map_append, List.foldl_append, hfirst, hentries]
    exact hblocks

/-! ## The lines of a block -/

theorem isBody_of_head {l : Text} (hline : Csv.IsLine l) (hhead : l.head? = some ' ') :
    IsBody l := by
  cases l with
  | nil => cases hhead
  | cons c l =>
    rw [Option.some.inj hhead] at hline ⊢
    exact ⟨hline, rfl⟩

theorem isBody_append_of_isPrinted {label number : Text}
    (hnumber : ∀ c ∈ number, isPrinted c = true) (hlf : label.contains '\n' = false)
    (hcr : label.contains '\r' = false) (hhead : label.head? = some ' ') :
    IsBody (label ++ number) := by
  apply isBody_of_head (isLine_append_of_isPrinted hnumber hlf hcr)
  rw [List.head?_append, hhead]
  rfl

/-- A line that begins no subsection. -/
def Quiet (l : Text) : Prop :=
  ¬ "MPM patterns for group".toList <:+: l ∧ ¬ "Pattern Lengths for group".toList <:+: l

/-- Both phrases have the characters `P` and `f`. -/
theorem quiet_of_not_mem {c : Char} {l : Text} (h : c ∉ l) (hc : c = 'P' ∨ c = 'f') : Quiet l := by
  have hmem : c ∈ "MPM patterns for group".toList ∧ c ∈ "Pattern Lengths for group".toList := by
    rcases hc with rfl | rfl <;> decide
  exact ⟨fun hi => h (hi.subset hmem.1), fun hi => h (hi.subset hmem.2)⟩

/-- The texts of a report that stay within their line and hold neither phrase. -/
def PlainText (s : Text) : Prop := Csv.IsLine s ∧ Quiet s

/-- The lines of `print_metrics` before the histogram. -/
def metricLines (metrics : Metrics) : List Text :=
  ["  Average SGH memberships per rule (how many SGH the rule belongs to): ".toList ++
      fixed 3 metrics.avgSghPerRule,
    "  Unique rule coverage (fraction in only one group): ".toList ++
      fixed 3 metrics.uniqueRuleCoverage,
    "  Average overlap per group pair: ".toList ++ fixed 3 metrics.avgOverlapPerPair,
    "  Entropy of rule multiplicity distribution: ".toList ++ fixed 3 metrics.entropy]

/-- What the lines before a subsection are. -/
def IsPrelude (l : Text) : Prop := IsBody l ∧ Quiet l

theorem isPrelude_append_of_isPrinted {label number : Text} {c : Char}
    (hnumber : ∀ c ∈ number, isPrinted c = true) (hlf : label.contains '\n' = false)
    (hcr : label.contains '\r' = false) (hhead : label.head? = some ' ')
    (hlabel : label.contains c = false) (hc : c = 'P' ∨ c = 'f') : IsPrelude (label ++ number) := by
  refine ⟨isBody_append_of_isPrinted hnumber hlf hcr hhead, quiet_of_not_mem ?_ hc⟩
  apply not_mem_append_of_isPrinted hnumber hlabel
  rcases hc with rfl | rfl <;> rfl

/-- The metrics come before the histogram and are skipped. -/
theorem isPrelude_metricLines (metrics : Metrics) : ∀ l ∈ metricLines metrics, IsPrelude l := by
  have hfixed : ∀ q, ∀ c ∈ fixed 3 q, isPrinted c = true := fun q c => isPrinted_of_mem_fixed
  rw [metricLines, List.forall_mem_cons, List.forall_mem_cons, List.forall_mem_cons,
    List.forall_mem_singleton]
  exact ⟨isPrelude_append_of_isPrinted (hfixed _) rfl rfl rfl rfl (.inl rfl),
    isPrelude_append_of_isPrinted (hfixed _) rfl rfl rfl rfl (.inl rfl),
    isPrelude_append_of_isPrinted (hfixed _) rfl rfl rfl rfl (.inl rfl),
    isPrelude_append_of_isPrinted (hfixed _) rfl rfl rfl rfl (.inl rfl)⟩

theorem not_mem_histogramLine (entry : ℕ × ℕ) {c : Char} (hc : isPrinted c = false)
    (hblank : ("    ".toList).contains c = false) (hcolon : (": ".toList).contains c = false) :
    c ∉ histogramLine entry := by
  intro hmem
  have hcount : c ∉ "    ".toList ++ Text.decimal entry.1 :=
    not_mem_append_of_isPrinted (fun c => isPrinted_of_mem_decimal) hblank hc
  rcases List.mem_append.mp hmem with hmem | hmem
  · exact hcount (List.mem_append_left _ hmem)
  · rcases List.mem_append.mp hmem with hmem | hmem
    · exact hcount (List.mem_append_right _ hmem)
    · exact not_mem_append_of_isPrinted (fun c => isPrinted_of_mem_decimal) hcolon hc hmem

theorem isPrelude_histogramLine (entry : ℕ × ℕ) : IsPrelude (histogramLine entry) := by
  have hline : Csv.IsLine (histogramLine entry) :=
    ⟨not_mem_histogramLine entry rfl rfl rfl, not_mem_histogramLine entry rfl rfl rfl⟩
  exact ⟨isBody_of_head hline rfl,
    quiet_of_not_mem (not_mem_histogramLine entry (c := 'P') rfl rfl rfl) (.inl rfl)⟩

theorem isPrelude_of_contains {l : Text} {c : Char} (hlf : l.contains '\n' = false)
    (hcr : l.contains '\r' = false) (hhead : l.head? = some ' ') (hl : l.contains c = false)
    (hc : c = 'P' ∨ c = 'f') : IsPrelude l := by
  have hnone : ∀ c ∈ ([] : Text), isPrinted c = true := fun c hc => absurd hc List.not_mem_nil
  rw [← List.append_nil l]
  exact isPrelude_append_of_isPrinted hnone hlf hcr hhead hl hc

/-- The numbers of a report are counts. -/
def WholeComposition (comp : Dict Text ℚ) : Prop := ∀ e ∈ comp.entries, ∃ n : ℕ, e.2 = n

theorem isPrelude_printProtocolComposition (floatRepr : ℚ → Text) {comp : Dict Text ℚ}
    (hwhole : WholeComposition comp) (htext : ∀ e ∈ comp.entries, PlainText e.1) :
    ∀ l ∈ printProtocolComposition floatRepr comp, IsPrelude l := by
  rw [printProtocolComposition, List.forall_mem_cons]
  refine ⟨isPrelude_of_contains rfl rfl rfl (c := 'f') rfl (.inr rfl), ?_⟩
  by_cases hnil : comp.entries.isEmpty = true
  · rw [if_pos hnil, List.forall_mem_singleton]
    exact isPrelude_of_contains rfl rfl rfl (c := 'P') rfl (.inl rfl)
  · rw [if_neg hnil, List.forall_mem_map]
    intro e he
    obtain ⟨n, hn⟩ := hwhole e he
    obtain ⟨hline, hquiet⟩ := htext e he
    have hnumber : ∀ c ∈ Text.decimal n, isPrinted c = true := fun c => isPrinted_of_mem_decimal
    have hshown : compositionLine floatRepr e =
        "    ".toList ++ (e.1 ++ (": ".toList ++ Text.decimal n)) := by
      rw [compositionLine, hn, showNumber_natCast]
    rw [hshown]
    constructor
    · refine isBody_of_head (Csv.IsLine.append ⟨by decide, by decide⟩ ?_) rfl
      exact hline.append (isLine_append_of_isPrinted hnumber rfl rfl)
    · -- a phrase begins and ends within the name
      have hin : ∀ (c d : Char) (w : Text), c ∉ "    ".toList →
          d ∉ ": ".toList ++ Text.decimal n →
          (c :: (w ++ [d]) <:+: "    ".toList ++ (e.1 ++ (": ".toList ++ Text.decimal n)) ↔
            c :: (w ++ [d]) <:+: e.1) := by
        intro c d w hc hd
        rw [Text.infix_append_iff_right hc, ← List.cons_append, Text.infix_append_iff_left hd]
      have hlast : 'p' ∉ ": ".toList ++ Text.decimal n :=
        not_mem_append_of_isPrinted hnumber rfl rfl
      exact ⟨fun h => hquiet.1 ((hin 'M' 'p' "PM patterns for grou".toList (by decide) hlast).mp h),
        fun h => hquiet.2 ((hin 'P' 'p' "attern Lengths for grou".toList (by decide) hlast).mp h)⟩

/-! ## The histogram -/

theorem histogramLoop_before {ls : List Text} (h : ∀ l ∈ ls, isHistogramLabel l = false)
    (total : ℚ) (rest : List Text) :
    histogramLoop false total (ls ++ rest) = histogramLoop false total rest := by
  induction ls with
  | nil => rfl
  | cons l ls ih =>
    rw [List.cons_append, histogramLoop, h l List.mem_cons_self, if_neg Bool.false_ne_true,
      if_neg Bool.false_ne_true, ih fun l hl => h l (List.mem_cons_of_mem _ hl)]

/-- The number of a line of the histogram is its count. -/
theorem searchNumber_histogramLine (entry : ℕ × ℕ) :
    searchNumber (histogramLine entry) = some (Text.decimal entry.2) := by
  have hskip : ∀ {s : Text}, ':' ∉ s → ∀ t, searchNumber (s ++ t) = searchNumber t := by
    intro s hs t
    induction s with
    | nil => rfl
    | cons c s ih =>
      rw [List.cons_append, searchNumber, if_neg (Ne.symm (List.ne_of_not_mem_cons hs)),
        ih (List.not_mem_of_not_mem_cons hs)]
      rfl
  have hblank : ':' ∉ "    ".toList := by decide
  have hcount : ':' ∉ Text.decimal entry.1 := fun h =>
    Text.ne_of_isDigit (Text.isDigit_of_mem_decimal h) rfl rfl
  have hlead : leadingNumber (' ' :: Text.decimal entry.2) = some (Text.decimal entry.2) :=
    leadingNumber_blank (fun c => Binary64.isNumeral_of_mem_decimal) (Binary64.decimal_ne_nil _)
  rw [histogramLine, hskip hblank, hskip hcount]
  show searchNumber (':' :: ' ' :: Text.decimal entry.2) = _
  rw [searchNumber, if_pos rfl, hlead]
  rfl

theorem rowValue_histogramLine (entry : ℕ × ℕ) :
    rowValue (histogramLine entry) = some (entry.2 : ℚ) := by
  unfold rowValue
  rw [searchNumber_histogramLine]
  exact Binary64.readDecimal_decimal entry.2

theorem isHistogramLabel_eq_false {l : Text} (c : Char) (h : c ∉ l)
    (hc : c ∈ "Histogram of rule multiplicity".toList) : isHistogramLabel l = false :=
  decide_eq_false fun hi => h (hi.subset hc)

/-- No line of the histogram ends it. -/
theorem endsHistogram_histogramLine (entry : ℕ × ℕ) :
    endsHistogram (histogramLine entry) = false := by
  apply decide_eq_false
  rw [not_or, not_not, Text.strip_eq_nil_iff, histogramLine]
  refine ⟨fun h => ?_, List.prefix_append _ _⟩
  have hcolon : ':' ∈ "    ".toList ++
      (Text.decimal entry.1 ++ (": ".toList ++ Text.decimal entry.2)) := by
    apply List.mem_append_right
    apply List.mem_append_right
    exact List.mem_cons_self
  exact absurd (h ':' hcolon) (by decide)

/-- The rows are added up. -/
theorem histogramLoop_rows (entries : List (ℕ × ℕ)) (total : ℚ) (rest : List Text) :
    histogramLoop true total (entries.map histogramLine ++ rest) =
      histogramLoop true (total + ((entries.map Prod.snd).sum : ℕ)) rest := by
  induction entries generalizing total with
  | nil =>
    show histogramLoop true total rest = histogramLoop true (total + ((0 : ℕ) : ℚ)) rest
    rw [Nat.cast_zero, add_zero]
  | cons e entries ih =>
    have hlabel : isHistogramLabel (histogramLine e) = false :=
      isHistogramLabel_eq_false 'H' (not_mem_histogramLine e rfl rfl rfl) (by decide)
    rw [List.map_cons, List.cons_append, histogramLoop, hlabel, if_neg Bool.false_ne_true,
      if_pos rfl, endsHistogram_histogramLine, if_neg Bool.false_ne_true, rowValue_histogramLine]
    show histogramLoop true (total + (e.2 : ℚ)) _ = _
    rw [ih, List.map_cons, List.sum_cons, Nat.cast_add, add_assoc]

/-- Nothing behind the composition's header is counted. -/
theorem parseHistogram_body (metrics : Metrics) (rest : List Text) :
    parseHistogram (metricLines metrics ++
      "  Histogram of rule multiplicity (rule count : occurrences):".toList ::
        ((metrics.multiplicityHistogram.entries.insertionSort (·.1 ≤ ·.1)).map histogramLine ++
          "  Aggregated Protocol Composition:".toList :: rest)) =
      some ((metrics.multiplicityHistogram.values.sum : ℕ) : ℤ) := by
  have hbefore : ∀ l ∈ metricLines metrics, isHistogramLabel l = false := by
    have hnot : ∀ {label : Text} {q : ℚ} (c : Char), label.contains c = false →
        isPrinted c = false → c ∈ "Histogram of rule multiplicity".toList →
        isHistogramLabel (label ++ fixed 3 q) = false := by
      intro label q c hlabel hc hmem
      apply isHistogramLabel_eq_false c _ hmem
      exact not_mem_append_of_isPrinted (fun c => isPrinted_of_mem_fixed) hlabel hc
    rw [metricLines, List.forall_mem_cons, List.forall_mem_cons, List.forall_mem_cons,
      List.forall_mem_singleton]
    exact ⟨hnot 'c' rfl rfl (by decide), hnot 'H' rfl rfl (by decide),
      hnot 'H' rfl rfl (by decide), hnot 'H' rfl rfl (by decide)⟩
  have hsum : ((metrics.multiplicityHistogram.entries.insertionSort (·.1 ≤ ·.1)).map
      Prod.snd).sum = metrics.multiplicityHistogram.values.sum :=
    ((List.perm_insertionSort _ _).map Prod.snd).sum_eq
  have hlabel : isHistogramLabel
      "  Histogram of rule multiplicity (rule count : occurrences):".toList = true := rfl
  have hnext : isHistogramLabel "  Aggregated Protocol Composition:".toList = false := rfl
  have hend : endsHistogram "  Aggregated Protocol Composition:".toList = true := rfl
  rw [parseHistogram, histogramLoop_before hbefore, histogramLoop, hlabel, if_pos rfl,
    histogramLoop_rows, hsum, zero_add, histogramLoop, hnext, if_neg Bool.false_ne_true, if_pos rfl,
    hend, if_pos rfl, Binary64.truncate_of_nonneg (Nat.cast_nonneg _), Int.floor_natCast]

/-! ## The values -/

/-- A quiet line stores nothing. -/
theorem mpmLine_quiet {l : Text} (h : Quiet l) (sgh : Option ℤ) (mpm length : Dict Text ℚ) :
    ∃ sgh', mpmLine ⟨sgh, mpm, length, false, false⟩ l =
      some ⟨sgh', mpm, length, false, false⟩ := by
  have hread : ∃ sgh', readTotal ⟨sgh, mpm, length, false, false⟩ (Text.strip l) =
      ⟨sgh', mpm, length, false, false⟩ := by
    by_cases hlabel : "Total SGHs:".toList <+: Text.strip l
    · exact ⟨_, if_pos hlabel⟩
    · exact ⟨_, if_neg hlabel⟩
  obtain ⟨sgh', hread⟩ := hread
  refine ⟨sgh', ?_⟩
  unfold mpmLine
  rw [hread, if_neg h.1, if_neg h.2]
  rfl

theorem foldlM_mpmLine_quiet {ls : List Text} (h : ∀ l ∈ ls, Quiet l) (sgh : Option ℤ)
    (mpm length : Dict Text ℚ) :
    ∃ sgh', ls.foldlM mpmLine ⟨sgh, mpm, length, false, false⟩ =
      some ⟨sgh', mpm, length, false, false⟩ := by
  induction ls generalizing sgh with
  | nil => exact ⟨sgh, rfl⟩
  | cons l ls ih =>
    obtain ⟨sgh₁, hl⟩ := mpmLine_quiet (h l List.mem_cons_self) sgh mpm length
    obtain ⟨sgh₂, hls⟩ := ih (fun l hl => h l (List.mem_cons_of_mem _ hl)) sgh₁
    refine ⟨sgh₂, ?_⟩
    rw [List.foldlM_cons, hl]
    exact hls

/-- A line that is indented, and neither begins nor ends with a blank behind that. -/
theorem strip_line {blanks core number : Text} {c : Char} (hblanks : blanks.all Text.isSpace = true)
    (hcore : core.head? = some c) (hc : Text.isSpace c = false)
    (hnumber : ∀ c ∈ number, isNumeral c = true) (hne : number ≠ []) :
    Text.strip (blanks ++ (core ++ number)) = core ++ number := by
  rw [Text.strip_append_of_isSpace (List.all_eq_true.mp hblanks)]
  apply Text.strip_eq_self
  · intro d hd
    rw [List.head?_append, hcore] at hd
    rw [← Option.some.inj hd, hc]
    exact Bool.false_ne_true
  · intro d hd
    rw [List.getLast?_append_of_ne_nil _ hne] at hd
    exact Binary64.not_isSpace_of_isNumeral (hnumber d (List.mem_of_getLast? hd))

theorem readTotal_of_head {st : MpmLoop} {s : Text} (h : s.head? ≠ some 'T') :
    readTotal st s = st := by
  unfold readTotal
  rw [if_neg]
  intro hpfx
  obtain ⟨t, ht⟩ := hpfx
  apply h
  rw [← ht]
  rfl

/-- The count of groups. -/
theorem mpmLine_total (n : ℕ) (sgh : Option ℤ) (mpm length : Dict Text ℚ) :
    mpmLine ⟨sgh, mpm, length, false, false⟩ ("    Total SGHs: ".toList ++ Text.decimal n) =
      some ⟨some n, mpm, length, false, false⟩ := by
  have hnumber : ∀ c ∈ Text.decimal n, isNumeral c = true :=
    fun c => Binary64.isNumeral_of_mem_decimal
  have hstrip : Text.strip ("    Total SGHs: ".toList ++ Text.decimal n) =
      "Total SGHs: ".toList ++ Text.decimal n := by
    show Text.strip ("    ".toList ++ ("Total SGHs: ".toList ++ Text.decimal n)) = _
    exact strip_line rfl rfl rfl hnumber (Binary64.decimal_ne_nil n)
  have hquiet : Quiet ("    Total SGHs: ".toList ++ Text.decimal n) :=
    (isPrelude_append_of_isPrinted (fun c => isPrinted_of_mem_decimal) rfl rfl rfl (c := 'P') rfl
      (.inl rfl)).2
  have hrest : ¬ "Total SGHs:".toList <:+: ' ' :: Text.decimal n := by
    intro h
    have hmem : 'T' ∈ [' '] ++ Text.decimal n := h.subset (by decide)
    exact not_mem_append_of_isPrinted (fun c => isPrinted_of_mem_decimal) rfl rfl hmem
  have hsplit : Text.splitFrom "Total SGHs:".toList 0 [] ("Total SGHs: ".toList ++ Text.decimal n) =
      [[], ' ' :: Text.decimal n] := by
    show Text.splitFrom _ 0 [] ("Total SGHs:".toList ++ ' ' :: Text.decimal n) = _
    rw [Text.splitFrom_append (by decide), Text.splitFrom_of_not_infix hrest, List.nil_append]
  have hread : readTotal ⟨sgh, mpm, length, false, false⟩
      ("Total SGHs: ".toList ++ Text.decimal n) =
      ⟨some n, mpm, length, false, false⟩ := by
    unfold readTotal
    rw [if_pos ⟨' ' :: Text.decimal n, rfl⟩, hsplit]
    show MpmLoop.mk (Text.readInt (Text.strip (' ' :: Text.decimal n))) _ _ _ _ = _
    rw [Text.strip_blank_decimal, Text.readInt_decimal]
  unfold mpmLine
  rw [hstrip, hread, if_neg hquiet.1, if_neg hquiet.2]
  rfl

@[simp] theorem storeValue_inMpm (st : MpmLoop) (key : Text) (value : ℚ) :
    (storeValue st key value).inMpm = st.inMpm := by
  unfold storeValue
  split_ifs <;> rfl

@[simp] theorem storeValue_inLength (st : MpmLoop) (key : Text) (value : ℚ) :
    (storeValue st key value).inLength = st.inLength := by
  unfold storeValue
  split_ifs <;> rfl

/-- A value of a subsection; a label does not have the character `f` of the phrases. -/
theorem mpmLine_value {st : MpmLoop} {core key number : Text} {c : Char} {value : ℚ}
    (hin : st.inMpm = true ∨ st.inLength = true) (hcore : core.head? = some c)
    (hc : Text.isSpace c = false) (hT : c ≠ 'T')
    (hf : ("      ".toList ++ core).contains 'f' = false)
    (hnumber : ∀ c ∈ number, isNumeral c = true) (hne : number ≠ [])
    (hmatch : matchValue (core ++ number) = some (key, number))
    (hvalue : readDecimal number = some value) :
    mpmLine st ("      ".toList ++ core ++ number) =
      some (storeValue st (key.map Char.toLower) value) := by
  have hstrip : Text.strip ("      ".toList ++ core ++ number) = core ++ number := by
    rw [List.append_assoc]
    exact strip_line rfl hcore hc hnumber hne
  have hhead : (core ++ number).head? ≠ some 'T' := by
    rw [List.head?_append, hcore]
    exact fun h => hT (Option.some.inj h)
  have hprinted : ∀ c ∈ number, isPrinted c = true := by
    intro c hc
    rw [isPrinted, hnumber c hc, Bool.true_or]
  have hquiet : Quiet ("      ".toList ++ core ++ number) :=
    quiet_of_not_mem (not_mem_append_of_isPrinted hprinted hf rfl) (.inr rfl)
  unfold mpmLine
  rw [hstrip, readTotal_of_head hhead, if_neg hquiet.1, if_neg hquiet.2, readValue, if_pos hin,
    hmatch]
  show (readDecimal number).map _ = _
  rw [hvalue]
  rfl

/-- The numbers of a subsection are counts, or mean values of counts. -/
def WholeValues (avg median min max : ℚ) : Prop :=
  0 ≤ avg ∧ 0 ≤ median ∧ (∃ n : ℕ, min = n) ∧ ∃ n : ℕ, max = n

/-- The number that a mean value is printed as. -/
def rounded (q : ℚ) : ℚ := roundEven (q * 100) / 100

/-- The values after the four lines. -/
def storeValues (st : MpmLoop) (avg median min max : ℚ) : MpmLoop :=
  storeValue (storeValue (storeValue (storeValue st "average".toList (rounded avg))
    "median".toList (rounded median)) "min".toList min) "max".toList max

theorem matchValue_core {number : Text} (h : ∀ c ∈ number, isNumeral c = true)
    (hne : number ≠ []) :
    matchValue ("Average: ".toList ++ number) = some ("Average".toList, number) ∧
    matchValue ("Median : ".toList ++ number) = some ("Median".toList, number) ∧
    matchValue ("Min    : ".toList ++ number) = some ("Min".toList, number) ∧
    matchValue ("Max    : ".toList ++ number) = some ("Max".toList, number) := by
  have hkey : ∀ key : Text, (leadingNumber (' ' :: number)).map (fun n => (key, n)) =
      some (key, number) := by
    intro key
    rw [leadingNumber_blank h hne]
    rfl
  have haverage : matchKey ("Average: ".toList ++ number) "Average".toList =
      some ("Average".toList, number) := hkey _
  have hmedian : matchKey ("Median : ".toList ++ number) "Median".toList =
      some ("Median".toList, number) := hkey _
  have hmin : matchKey ("Min    : ".toList ++ number) "Min".toList =
      some ("Min".toList, number) := hkey _
  have hmax : matchKey ("Max    : ".toList ++ number) "Max".toList =
      some ("Max".toList, number) := hkey _
  refine ⟨?_, ?_, ?_, ?_⟩
  · rw [matchValue, List.findSome?_cons, haverage]
  · rw [matchValue, List.findSome?_cons_of_isNone rfl, List.findSome?_cons, hmedian]
  · rw [matchValue, List.findSome?_cons_of_isNone rfl, List.findSome?_cons_of_isNone rfl,
      List.findSome?_cons, hmin]
  · rw [matchValue, List.findSome?_cons_of_isNone rfl, List.findSome?_cons_of_isNone rfl,
      List.findSome?_cons_of_isNone rfl, List.findSome?_cons, hmax]

/-- The four values are stored under their names. -/
theorem foldlM_printValues (floatRepr : ℚ → Text) {avg median min max : ℚ}
    (h : WholeValues avg median min max) {st : MpmLoop}
    (hin : st.inMpm = true ∨ st.inLength = true) :
    (printValues floatRepr avg median min max).foldlM mpmLine st =
      some (storeValues st avg median min max) := by
  obtain ⟨havg, hmedian, ⟨m, rfl⟩, ⟨n, rfl⟩⟩ := h
  have hfixed : ∀ {q : ℚ}, 0 ≤ q → readDecimal (fixed 2 q) = some (rounded q) := by
    intro q hq
    rw [Binary64.readDecimal_fixed (by omega) hq, rounded]
    norm_num
  have hnumeral : ∀ {q : ℚ}, 0 ≤ q → ∀ c ∈ fixed 2 q, isNumeral c = true :=
    fun hq c => Binary64.isNumeral_of_mem_fixed hq
  have hdecimal : ∀ n : ℕ, ∀ c ∈ Text.decimal n, isNumeral c = true :=
    fun n c => Binary64.isNumeral_of_mem_decimal
  have haverage : mpmLine st ("      Average: ".toList ++ fixed 2 avg) =
      some (storeValue st "average".toList (rounded avg)) :=
    mpmLine_value hin rfl (c := 'A') rfl (by decide) rfl (hnumeral havg)
      (Binary64.fixed_ne_nil 2 avg)
      (matchValue_core (hnumeral havg) (Binary64.fixed_ne_nil 2 avg)).1 (hfixed havg)
  have hmed : ∀ {st : MpmLoop}, st.inMpm = true ∨ st.inLength = true →
      mpmLine st ("      Median : ".toList ++ fixed 2 median) =
        some (storeValue st "median".toList (rounded median)) := fun hin =>
    mpmLine_value hin rfl (c := 'M') rfl (by decide) rfl (hnumeral hmedian)
      (Binary64.fixed_ne_nil 2 median)
      (matchValue_core (hnumeral hmedian) (Binary64.fixed_ne_nil 2 median)).2.1 (hfixed hmedian)
  have hmin : ∀ {st : MpmLoop}, st.inMpm = true ∨ st.inLength = true →
      mpmLine st ("      Min    : ".toList ++ Text.decimal m) =
        some (storeValue st "min".toList m) := fun hin =>
    mpmLine_value hin rfl (c := 'M') rfl (by decide) rfl (hdecimal m) (Binary64.decimal_ne_nil m)
      (matchValue_core (hdecimal m) (Binary64.decimal_ne_nil m)).2.2.1
      (Binary64.readDecimal_decimal m)
  have hmax : ∀ {st : MpmLoop}, st.inMpm = true ∨ st.inLength = true →
      mpmLine st ("      Max    : ".toList ++ Text.decimal n) =
        some (storeValue st "max".toList n) := fun hin =>
    mpmLine_value hin rfl (c := 'M') rfl (by decide) rfl (hdecimal n) (Binary64.decimal_ne_nil n)
      (matchValue_core (hdecimal n) (Binary64.decimal_ne_nil n)).2.2.2
      (Binary64.readDecimal_decimal n)
  have hin' : ∀ {st : MpmLoop} (key : Text) (value : ℚ), st.inMpm = true ∨ st.inLength = true →
      (storeValue st key value).inMpm = true ∨ (storeValue st key value).inLength = true := by
    intro st key value h
    rwa [storeValue_inMpm, storeValue_inLength]
  rw [printValues, showNumber_natCast, showNumber_natCast, List.foldlM_cons, haverage]
  show List.foldlM mpmLine _ _ = _
  rw [List.foldlM_cons, hmed (hin' _ _ hin)]
  show List.foldlM mpmLine _ _ = _
  rw [List.foldlM_cons, hmin (hin' _ _ (hin' _ _ hin))]
  show List.foldlM mpmLine _ _ = _
  rw [List.foldlM_cons, hmax (hin' _ _ (hin' _ _ (hin' _ _ hin)))]
  rfl

/-- What is read of the two subsections. -/
def printedValues (avg median min max : ℚ) : Values :=
  ⟨some min, some max, some (rounded median), some (rounded avg)⟩

/-- The lines of `print_mpm_analysis`. -/
def mpmLines (floatRepr : ℚ → Text) (mpmGroup : Text) (stats : MpmStats) (medianLength : ℚ) :
    List Text :=
  ["  MPM Analysis:".toList,
    "    Total SGHs: ".toList ++ Text.decimal stats.totalSgh,
    "    SGHs with MPM present: ".toList ++ Text.decimal stats.mpmPresent,
    "    MPM patterns for group '".toList ++ mpmGroup ++ "':".toList] ++
  printValues floatRepr stats.avgPatterns stats.medianPatterns stats.minPatterns
    stats.maxPatterns ++
  ["    Pattern Lengths for group '".toList ++ mpmGroup ++ "':".toList] ++
  printValues floatRepr stats.lengthStats.avgLength medianLength stats.lengthStats.minLength
    stats.lengthStats.maxLength

/-- The group that is analysed: a text within its line, without the first phrase. -/
def PlainGroup (mpmGroup : Text) : Prop :=
  Csv.IsLine mpmGroup ∧ ¬ "MPM patterns for group".toList <:+: mpmGroup

/-- The first subsection begins. -/
theorem mpmLine_patterns (mpmGroup : Text) (st : MpmLoop) :
    mpmLine st ("    MPM patterns for group '".toList ++ mpmGroup ++ "':".toList) =
      some { st with inMpm := true, inLength := false } := by
  have hhead : (Text.strip
      ("    MPM patterns for group '".toList ++ mpmGroup ++ "':".toList)).head? =
      some 'M' := by
    show (Text.strip ("    ".toList ++ 'M' :: ("PM patterns for group '".toList ++ mpmGroup ++
      "':".toList))).head? = some 'M'
    rw [Text.strip_append_of_isSpace (List.all_eq_true.mp rfl), Text.head?_strip rfl]
  have hin : "MPM patterns for group".toList <:+:
      "    MPM patterns for group '".toList ++ mpmGroup ++ "':".toList :=
    ⟨"    ".toList, " '".toList ++ mpmGroup ++ "':".toList, rfl⟩
  unfold mpmLine
  rw [readTotal_of_head (by rw [hhead]; decide), if_pos hin]

/-- The second subsection begins. -/
theorem mpmLine_lengths {mpmGroup : Text} (hgroup : PlainGroup mpmGroup) (st : MpmLoop) :
    mpmLine st ("    Pattern Lengths for group '".toList ++ mpmGroup ++ "':".toList) =
      some { st with inMpm := false, inLength := true } := by
  have hhead : (Text.strip ("    Pattern Lengths for group '".toList ++ mpmGroup ++
      "':".toList)).head? = some 'P' := by
    show (Text.strip ("    ".toList ++ 'P' :: ("attern Lengths for group '".toList ++ mpmGroup ++
      "':".toList))).head? = some 'P'
    rw [Text.strip_append_of_isSpace (List.all_eq_true.mp rfl), Text.head?_strip rfl]
  have hin : "Pattern Lengths for group".toList <:+:
      "    Pattern Lengths for group '".toList ++ mpmGroup ++ "':".toList :=
    ⟨"    ".toList, " '".toList ++ mpmGroup ++ "':".toList, rfl⟩
  have hother : ¬ "MPM patterns for group".toList <:+:
      "    Pattern Lengths for group '".toList ++ mpmGroup ++ "':".toList := by
    have hfirst : 'M' ∉ "    Pattern Lengths for group '".toList := by decide
    have hlast : 'p' ∉ "':".toList := by decide
    show ¬ 'M' :: "PM patterns for group".toList <:+: _
    rw [List.append_assoc, Text.infix_append_iff_right hfirst]
    show ¬ "MPM patterns for grou".toList ++ ['p'] <:+: _
    rw [Text.infix_append_iff_left hlast]
    exact hgroup.2
  unfold mpmLine
  rw [readTotal_of_head (by rw [hhead]; decide), if_neg hother, if_pos hin]

theorem mpmLine_present (n : ℕ) (sgh : Option ℤ) (mpm length : Dict Text ℚ) :
    mpmLine ⟨sgh, mpm, length, false, false⟩
        ("    SGHs with MPM present: ".toList ++ Text.decimal n) =
      some ⟨sgh, mpm, length, false, false⟩ := by
  have hquiet : Quiet ("    SGHs with MPM present: ".toList ++ Text.decimal n) :=
    (isPrelude_append_of_isPrinted (fun c => isPrinted_of_mem_decimal) rfl rfl rfl (c := 'f') rfl
      (.inr rfl)).2
  have hhead : (Text.strip ("    SGHs with MPM present: ".toList ++ Text.decimal n)).head? =
      some 'S' := by
    show (Text.strip ("    ".toList ++ 'S' :: ("GHs with MPM present: ".toList ++
      Text.decimal n))).head? = some 'S'
    rw [Text.strip_append_of_isSpace (List.all_eq_true.mp rfl), Text.head?_strip rfl]
  unfold mpmLine
  rw [readTotal_of_head (by rw [hhead]; decide), if_neg hquiet.1, if_neg hquiet.2]
  rfl

section Analysis

variable (floatRepr : ℚ → Text) {mpmGroup : Text} (hgroup : PlainGroup mpmGroup)
  {stats : MpmStats} {medianLength : ℚ}
  (hpatterns : WholeValues stats.avgPatterns stats.medianPatterns stats.minPatterns
    stats.maxPatterns)
  (hlengths : WholeValues stats.lengthStats.avgLength medianLength stats.lengthStats.minLength
    stats.lengthStats.maxLength)
include hgroup hpatterns hlengths

/-- The block of the patterns is read back. -/
theorem foldlM_mpmLines (sgh : Option ℤ) :
    (mpmLines floatRepr mpmGroup stats medianLength).foldlM mpmLine
        ⟨sgh, Dict.empty, Dict.empty, false, false⟩ =
      some (storeValues ⟨some stats.totalSgh,
        (storeValues ⟨none, Dict.empty, Dict.empty, true, false⟩ stats.avgPatterns
          stats.medianPatterns stats.minPatterns stats.maxPatterns).mpm, Dict.empty, false, true⟩
        stats.lengthStats.avgLength medianLength stats.lengthStats.minLength
        stats.lengthStats.maxLength) := by
  have hanalysis : mpmLine ⟨sgh, Dict.empty, Dict.empty, false, false⟩ "  MPM Analysis:".toList =
      some ⟨sgh, Dict.empty, Dict.empty, false, false⟩ := rfl
  rw [mpmLines, List.append_assoc, List.append_assoc, List.foldlM_append, List.foldlM_cons,
    hanalysis]
  show (List.foldlM mpmLine _ _ >>= _) = _
  rw [List.foldlM_cons, mpmLine_total]
  show (List.foldlM mpmLine _ _ >>= _) = _
  rw [List.foldlM_cons, mpmLine_present]
  show (List.foldlM mpmLine _ _ >>= _) = _
  rw [List.foldlM_cons, mpmLine_patterns]
  show List.foldlM mpmLine _ _ = _
  rw [List.foldlM_append, foldlM_printValues floatRepr hpatterns (.inl rfl)]
  show List.foldlM mpmLine _ _ = _
  rw [List.foldlM_append, List.foldlM_cons, mpmLine_lengths hgroup]
  show List.foldlM mpmLine _ _ = _
  rw [foldlM_printValues floatRepr hlengths (.inr rfl)]
  rfl

/-- What is read of a block: the lines before the subsections, those of the subsections, and the
blank line that may follow. -/
theorem parseMpmAnalysis_body {ls rest : List Text} (hls : ∀ l ∈ ls, Quiet l)
    (hrest : rest = [] ∨ rest = [[]]) :
    parseMpmAnalysis (ls ++ (mpmLines floatRepr mpmGroup stats medianLength ++ rest)) =
      some (some (stats.totalSgh : ℤ),
        printedValues stats.avgPatterns stats.medianPatterns stats.minPatterns stats.maxPatterns,
        printedValues stats.lengthStats.avgLength medianLength stats.lengthStats.minLength
          stats.lengthStats.maxLength) := by
  obtain ⟨sgh, hquiet⟩ := foldlM_mpmLine_quiet hls none Dict.empty Dict.empty
  have hblank : ∀ st, rest.foldlM mpmLine st = some st := by
    intro st
    rcases hrest with rfl | rfl
    · rfl
    · obtain ⟨sgh, mpm, length, inMpm, inLength⟩ := st
      cases inMpm
      · cases inLength <;> rfl
      · rfl
  rw [parseMpmAnalysis, List.foldlM_append, MpmLoop.start, hquiet]
  show Option.map _ (List.foldlM mpmLine _ _) = _
  rw [List.foldlM_append, foldlM_mpmLines floatRepr hgroup hpatterns hlengths]
  show Option.map _ (List.foldlM mpmLine _ _) = _
  rw [hblank]
  rfl

end Analysis

/-! ## The whole report -/

/-- The numbers of a report are counts, or mean values of counts. -/
def LevelReport.Whole (report : LevelReport) : Prop :=
  let stats := report.mpmStats
  let lengths := stats.lengthStats
  WholeComposition report.composition ∧
    WholeValues stats.avgPatterns stats.medianPatterns stats.minPatterns stats.maxPatterns ∧
    ∃ medianLength, lengths.medianLength = some medianLength ∧
      WholeValues lengths.avgLength medianLength lengths.minLength lengths.maxLength

/-- No name of a level has a blank. -/
def LevelReport.Unspaced (report : LevelReport) : Prop :=
  ∀ c ∈ report.name, ¬ Text.isSpace c = true

/-- The texts of a report can be told from its form. -/
def LevelReport.Plain (report : LevelReport) : Prop :=
  report.name ≠ [] ∧ ∀ e ∈ report.composition.entries, PlainText e.1

/-- What the report says of a level. -/
def LevelReport.summary (report : LevelReport) : Summary where
  sgh := some report.mpmStats.totalSgh
  uniqueRules := (report.metrics.multiplicityHistogram.values.sum : ℕ)
  mpm := printedValues report.mpmStats.avgPatterns report.mpmStats.medianPatterns
    report.mpmStats.minPatterns report.mpmStats.maxPatterns
  length := printedValues report.mpmStats.lengthStats.avgLength
    (report.mpmStats.lengthStats.medianLength.getD 0) report.mpmStats.lengthStats.minLength
    report.mpmStats.lengthStats.maxLength

/-- The report is printed, and the reader finds of every level what it says, and no other level. -/
def ReadsBack (floatRepr : ℚ → Text) (mpmGroup : Text) (reports : List LevelReport) : Prop :=
  (printLevels floatRepr mpmGroup reports).bind summary =
    some (reports.map fun report => (report.name, report.summary))

/-- The lines between the name of a level and the analysis of patterns. -/
def preludeLines (floatRepr : ℚ → Text) (metrics : Metrics) (comp : Dict Text ℚ) : List Text :=
  metricLines metrics ++
    "  Histogram of rule multiplicity (rule count : occurrences):".toList ::
      ((metrics.multiplicityHistogram.entries.insertionSort (·.1 ≤ ·.1)).map histogramLine ++
        printProtocolComposition floatRepr comp)

theorem isPrelude_preludeLines (floatRepr : ℚ → Text) (metrics : Metrics) {comp : Dict Text ℚ}
    (hwhole : WholeComposition comp) (htext : ∀ e ∈ comp.entries, PlainText e.1) :
    ∀ l ∈ preludeLines floatRepr metrics comp, IsPrelude l := by
  rw [preludeLines, List.forall_mem_append, List.forall_mem_cons, List.forall_mem_append,
    List.forall_mem_map]
  exact ⟨isPrelude_metricLines metrics, isPrelude_of_contains rfl rfl rfl (c := 'P') rfl (.inl rfl),
    fun entry _ => isPrelude_histogramLine entry,
    isPrelude_printProtocolComposition floatRepr hwhole htext⟩

theorem isBody_printValues (floatRepr : ℚ → Text) {avg median min max : ℚ}
    (h : WholeValues avg median min max) :
    ∀ l ∈ printValues floatRepr avg median min max, IsBody l := by
  obtain ⟨-, -, ⟨m, rfl⟩, ⟨n, rfl⟩⟩ := h
  have hfixed : ∀ q, ∀ c ∈ fixed 2 q, isPrinted c = true := fun q c => isPrinted_of_mem_fixed
  have hdecimal : ∀ n, ∀ c ∈ Text.decimal n, isPrinted c = true := fun n c =>
    isPrinted_of_mem_decimal
  rw [printValues, showNumber_natCast, showNumber_natCast, List.forall_mem_cons,
    List.forall_mem_cons, List.forall_mem_cons, List.forall_mem_singleton]
  exact ⟨isBody_append_of_isPrinted (hfixed _) rfl rfl rfl,
    isBody_append_of_isPrinted (hfixed _) rfl rfl rfl,
    isBody_append_of_isPrinted (hdecimal _) rfl rfl rfl,
    isBody_append_of_isPrinted (hdecimal _) rfl rfl rfl⟩

theorem isBody_mpmLines (floatRepr : ℚ → Text) {mpmGroup : Text} (hgroup : PlainGroup mpmGroup)
    {stats : MpmStats} {medianLength : ℚ}
    (hpatterns : WholeValues stats.avgPatterns stats.medianPatterns stats.minPatterns
      stats.maxPatterns)
    (hlengths : WholeValues stats.lengthStats.avgLength medianLength stats.lengthStats.minLength
      stats.lengthStats.maxLength) :
    ∀ l ∈ mpmLines floatRepr mpmGroup stats medianLength, IsBody l := by
  have hdecimal : ∀ n, ∀ c ∈ Text.decimal n, isPrinted c = true := fun n c =>
    isPrinted_of_mem_decimal
  have hquoted : ∀ {label : Text}, label.head? = some ' ' → Csv.IsLine label →
      IsBody (label ++ mpmGroup ++ "':".toList) := by
    intro label hhead hlabel
    apply isBody_of_head ((hlabel.append hgroup.1).append ⟨by decide, by decide⟩)
    rw [List.append_assoc, List.head?_append, hhead]
    rfl
  have hanalysis : IsBody "  MPM Analysis:".toList := ⟨⟨by decide, by decide⟩, rfl⟩
  rw [mpmLines, List.forall_mem_append, List.forall_mem_append, List.forall_mem_append,
    List.forall_mem_cons, List.forall_mem_cons, List.forall_mem_cons, List.forall_mem_singleton,
    List.forall_mem_singleton]
  exact ⟨⟨⟨⟨hanalysis, isBody_append_of_isPrinted (hdecimal _) rfl rfl rfl,
    isBody_append_of_isPrinted (hdecimal _) rfl rfl rfl, hquoted rfl ⟨by decide, by decide⟩⟩,
    isBody_printValues floatRepr hpatterns⟩, hquoted rfl ⟨by decide, by decide⟩⟩,
    isBody_printValues floatRepr hlengths⟩

/-- The section that is printed for a level. -/
def LevelReport.toSection (floatRepr : ℚ → Text) (mpmGroup : Text) (report : LevelReport) :
    Section where
  name := report.name
  body := preludeLines floatRepr report.metrics report.composition ++
    mpmLines floatRepr mpmGroup report.mpmStats (report.mpmStats.lengthStats.medianLength.getD 0)

theorem mapM_of_forall₂ {α β γ : Type} {f : β → Option γ} {g : α → γ} {xs : List α} {ys : List β}
    (h : List.Forall₂ (fun x y => f y = some (g x)) xs ys) : ys.mapM f = some (xs.map g) := by
  induction h with
  | nil => rfl
  | cons hxy _ ih =>
    rw [List.mapM_cons, hxy, ih]
    rfl

theorem unlines_append (ls ls' : List Text) :
    Csv.unlines (ls ++ ls') = Csv.unlines ls ++ Csv.unlines ls' := List.flatMap_append

/-- The line break that `print_metrics` begins with makes a blank line. -/
theorem printLevels_eq (floatRepr : ℚ → Text) (mpmGroup : Text) {reports : List LevelReport}
    (h : ∀ report ∈ reports, report.Whole) :
    printLevels floatRepr mpmGroup reports =
      some (Csv.unlines ((reports.map (LevelReport.toSection floatRepr mpmGroup)).flatMap
        Section.lines)) := by
  have hlevel : ∀ report ∈ reports, printLevel floatRepr mpmGroup report =
      some (("\nStatistics for level: ".toList ++ report.name) ::
        (report.toSection floatRepr mpmGroup).body) := by
    intro report hreport
    obtain ⟨-, -, medianLength, hmedian, -⟩ := h report hreport
    rw [printLevel, printMpmAnalysis, LevelReport.toSection, hmedian]
    rfl
  have hprinted : reports.mapM (printLevel floatRepr mpmGroup) =
      some (reports.map fun report => ("\nStatistics for level: ".toList ++ report.name) ::
        (report.toSection floatRepr mpmGroup).body) :=
    mapM_of_forall₂ (List.forall₂_same.mpr hlevel)
  have hlines : ∀ reports : List LevelReport,
      Csv.unlines (reports.map fun report => ("\nStatistics for level: ".toList ++ report.name) ::
        (report.toSection floatRepr mpmGroup).body).flatten =
      Csv.unlines ((reports.map (LevelReport.toSection floatRepr mpmGroup)).flatMap
        Section.lines) := by
    intro reports
    induction reports with
    | nil => rfl
    | cons report reports ih =>
      rw [List.map_cons, List.flatten_cons, unlines_append, ih, List.map_cons, List.flatMap_cons,
        unlines_append]
      rfl
  rw [printLevels, hprinted]
  exact congrArg some (hlines reports)

theorem wellFormed_toSection (floatRepr : ℚ → Text) {mpmGroup : Text} (hgroup : PlainGroup mpmGroup)
    {report : LevelReport} (hwhole : report.Whole) (hunspaced : report.Unspaced)
    (hplain : report.Plain) : (report.toSection floatRepr mpmGroup).WellFormed := by
  obtain ⟨hcomp, hpatterns, medianLength, hmedian, hlengths⟩ := hwhole
  refine ⟨⟨hplain.1, hunspaced⟩, ?_⟩
  rw [LevelReport.toSection, hmedian, List.forall_mem_append]
  exact ⟨fun l hl => (isPrelude_preludeLines floatRepr report.metrics hcomp hplain.2 l hl).1,
    isBody_mpmLines floatRepr hgroup hpatterns hlengths⟩

/-- A block is summarised as the report says, with or without the blank line. -/
theorem summarize_block (floatRepr : ℚ → Text) {mpmGroup : Text} (hgroup : PlainGroup mpmGroup)
    {report : LevelReport} (hwhole : report.Whole) (hplain : report.Plain)
    {block : Text × List Text} (hblock : (report.toSection floatRepr mpmGroup).IsBlock block) :
    summarize block = some (report.name, report.summary) := by
  obtain ⟨hcomp, hpatterns, medianLength, hmedian, hlengths⟩ := hwhole
  obtain ⟨rest, hrest, hls⟩ : ∃ rest, (rest = [] ∨ rest = [[]]) ∧
      block.2 = (report.toSection floatRepr mpmGroup).body ++ rest := by
    rcases hblock.2 with hls | hls
    · exact ⟨[], .inl rfl, by rw [List.append_nil]; exact hls⟩
    · exact ⟨[[]], .inr rfl, hls⟩
  have hbody : (report.toSection floatRepr mpmGroup).body ++ rest =
      preludeLines floatRepr report.metrics report.composition ++
        (mpmLines floatRepr mpmGroup report.mpmStats medianLength ++ rest) := by
    rw [LevelReport.toSection, hmedian, List.append_assoc]
    rfl
  have hhistogram : parseHistogram block.2 =
      some ((report.metrics.multiplicityHistogram.values.sum : ℕ) : ℤ) := by
    rw [hls, hbody, preludeLines, printProtocolComposition, List.append_assoc, List.cons_append,
      List.append_assoc, List.cons_append]
    exact parseHistogram_body report.metrics _
  have hquiet := fun l hl =>
    (isPrelude_preludeLines floatRepr report.metrics hcomp hplain.2 l hl).2
  have hmpm := parseMpmAnalysis_body floatRepr hgroup hpatterns hlengths hquiet hrest
  rw [← hbody, ← hls] at hmpm
  rw [summarize, hhistogram, hmpm, hblock.1, LevelReport.summary, hmedian]
  rfl

/-- The table reads back what the report says. -/
theorem readsBack_of_plain (floatRepr : ℚ → Text) {mpmGroup : Text} {reports : List LevelReport}
    (hnodup : (reports.map LevelReport.name).Nodup)
    (hwhole : ∀ report ∈ reports, report.Whole)
    (hunspaced : ∀ report ∈ reports, report.Unspaced)
    (hplain : ∀ report ∈ reports, report.Plain) (hgroup : PlainGroup mpmGroup) :
    ReadsBack floatRepr mpmGroup reports := by
  have hsections : ∀ s ∈ reports.map (LevelReport.toSection floatRepr mpmGroup), s.WellFormed := by
    rw [List.forall_mem_map]
    exact fun report h => wellFormed_toSection floatRepr hgroup (hwhole report h)
      (hunspaced report h) (hplain report h)
  have hnames :
      ((reports.map (LevelReport.toSection floatRepr mpmGroup)).map Section.name).Nodup := by
    rw [List.map_map]
    exact hnodup
  have hblocks := forall₂_dataByLevel hsections hnames
  rw [List.forall₂_map_left_iff] at hblocks
  rw [ReadsBack, printLevels_eq floatRepr mpmGroup hwhole]
  apply mapM_of_forall₂
  have hboth := (List.forall₂_and_left _ _).mpr ⟨fun report h => And.intro (hwhole report h)
    (hplain report h), hblocks⟩
  exact hboth.imp fun report block h => summarize_block floatRepr hgroup h.1.1 h.1.2 h.2

instance (floatRepr : ℚ → Text) (mpmGroup : Text) (reports : List LevelReport) :
    Decidable (ReadsBack floatRepr mpmGroup reports) :=
  inferInstanceAs (Decidable (_ = _))

/-- The statistics of three groups. -/
def sampleStats : MpmStats := ⟨3, 2, 1, 1, 0, 2, [2, 1, 0], ⟨5, some 4, 3, 8⟩⟩

example : mpmStats [⟨true, 2, [(3, 1), (8, 1)]⟩, ⟨true, 1, [(4, 1)]⟩, ⟨false, 0, []⟩] =
    some sampleStats := by decide +kernel

/-- A report of three groups, with a count for every protocol. -/
def sampleReport (name : String) (protocols : List String)
    (hnodup : (protocols.map String.toList).Nodup) : LevelReport where
  name := name.toList
  metrics := metrics (fun _ => 0) [[1, 2, 3], [1, 2, 4], [5]]
  composition := ⟨protocols.map fun protocol => (protocol.toList, 4), by rwa [List.map_map]⟩
  mpmStats := sampleStats

theorem sampleReport_whole {name : String} {protocols : List String}
    (hnodup : (protocols.map String.toList).Nodup) :
    (sampleReport name protocols hnodup).Whole := by
  unfold LevelReport.Whole sampleReport
  have hone : (0 : ℚ) ≤ 1 := by decide
  have hfive : (0 : ℚ) ≤ 5 := by decide
  refine ⟨?_, ⟨hone, hone, ⟨0, rfl⟩, 2, rfl⟩, 4, rfl, hfive, by decide, ⟨3, rfl⟩, 8, rfl⟩
  intro e he
  obtain ⟨protocol, -, rfl⟩ := List.mem_map.mp he
  exact ⟨4, rfl⟩

theorem sampleReport_unspaced {name : String} {protocols : List String}
    (hnodup : (protocols.map String.toList).Nodup) (h : name.toList.any Text.isSpace = false) :
    (sampleReport name protocols hnodup).Unspaced :=
  fun c hc hspace => List.any_eq_false.mp h c hc hspace

/-- Two levels are read back. -/
theorem readsBack_two : ReadsBack (fun _ => []) "payload".toList
    [sampleReport "tcp" ["http", "dns"] (by decide),
      sampleReport "udp.toserver" [] (by decide)] := by
  apply readsBack_of_plain
  · decide
  · rw [List.forall_mem_cons, List.forall_mem_singleton]
    exact ⟨sampleReport_whole _, sampleReport_whole _⟩
  · rw [List.forall_mem_cons, List.forall_mem_singleton]
    exact ⟨sampleReport_unspaced _ rfl, sampleReport_unspaced _ rfl⟩
  · rw [List.forall_mem_cons, List.forall_mem_singleton]
    refine ⟨⟨by decide, ?_⟩, by decide, fun e he => absurd he List.not_mem_nil⟩
    show ∀ e ∈ ["http", "dns"].map
      fun protocol : String => (protocol.toList, (4 : ℚ)), PlainText e.1
    rw [List.forall_mem_map, List.forall_mem_cons, List.forall_mem_singleton]
    exact ⟨⟨⟨by decide, by decide⟩, by decide, by decide⟩, ⟨by decide, by decide⟩, by decide,
      by decide⟩
  · exact ⟨⟨by decide, by decide⟩, by decide⟩

/-- A level without a name, a line break in the name of a protocol, either phrase in it, and the
first phrase in the group: with any of them the report is not read back. -/
theorem not_readsBack :
    (¬ ∀ (floatRepr : ℚ → Text) (mpmGroup : Text) (reports : List LevelReport),
      (reports.map LevelReport.name).Nodup → (∀ report ∈ reports, report.Whole) →
        (∀ report ∈ reports, report.Unspaced) → ReadsBack floatRepr mpmGroup reports) ∧
    ¬ ReadsBack (fun _ => []) "payload".toList
      [sampleReport "tcp" ["http\nStatistics for level: udp"] (by decide)] ∧
    ¬ ReadsBack (fun _ => []) "payload".toList
      [sampleReport "tcp" ["MPM patterns for group", "Average: 1.2.3"] (by decide)] ∧
    ¬ ReadsBack (fun _ => []) "payload".toList
      [sampleReport "tcp" ["Pattern Lengths for group", "Average: 1.2.3"] (by decide)] ∧
    ¬ ReadsBack (fun _ => []) "MPM patterns for group".toList
      [sampleReport "tcp" ["http"] (by decide)] := by
  have hruns : ¬ ReadsBack (fun _ => []) "payload".toList [sampleReport "" ["http"] (by decide)] ∧
      ¬ ReadsBack (fun _ => []) "payload".toList
        [sampleReport "tcp" ["http\nStatistics for level: udp"] (by decide)] ∧
      ¬ ReadsBack (fun _ => []) "payload".toList
        [sampleReport "tcp" ["MPM patterns for group", "Average: 1.2.3"] (by decide)] ∧
      ¬ ReadsBack (fun _ => []) "payload".toList
        [sampleReport "tcp" ["Pattern Lengths for group", "Average: 1.2.3"] (by decide)] ∧
      ¬ ReadsBack (fun _ => []) "MPM patterns for group".toList
        [sampleReport "tcp" ["http"] (by decide)] := by
    decide +kernel
  refine ⟨fun h => hruns.1 ?_, hruns.2⟩
  apply h
  · decide
  · rw [List.forall_mem_singleton]
    exact sampleReport_whole _
  · rw [List.forall_mem_singleton]
    exact sampleReport_unspaced _ rfl

end EtAnalysis
end PamoRxpBench
