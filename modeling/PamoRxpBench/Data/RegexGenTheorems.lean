import PamoRxpBench.Library.Regex
import PamoRxpBench.Data.RegexGen

/-!
# Generated expressions

Every segment of `generate_regex_segment` writes an item of the grammar of `Regex` over the seven
bracket classes (`yields_generateRegexSegment`), and the first one cannot be empty. A group of two
neighbours is an item again, and is empty only if both are (`yields_groupSegments`). So whatever is
drawn, `random_valid_regex` returns a text that parses, with a language without the empty string
(`randomValidRegex_matches`).
-/

namespace PamoRxpBench
namespace Data

open Gen Regex

/-! ## The grammar -/

/-- The bracket classes. -/
inductive BracketClass
  | vowels
  | oneToThree
  | lower
  | upper
  | digit
  | notDigit
  | mToN
deriving DecidableEq, Repr

namespace BracketClass

/-- What stands between the brackets. -/
def body : BracketClass → Text
  | vowels => "aeiou".toList
  | oneToThree => "1-3".toList
  | lower => "a-z".toList
  | upper => "A-Z".toList
  | digit => "0-9".toList
  | notDigit => "^0-9".toList
  | mToN => "m-n".toList

/-- The characters of a class. -/
def mem : BracketClass → Char → Bool
  | vowels, c => "aeiou".toList.contains c
  | oneToThree, c => '1' ≤ c && c ≤ '3'
  | lower, c => 'a' ≤ c && c ≤ 'z'
  | upper, c => 'A' ≤ c && c ≤ 'Z'
  | digit, c => '0' ≤ c && c ≤ '9'
  | notDigit, c => !('0' ≤ c && c ≤ '9')
  | mToN, c => 'm' ≤ c && c ≤ 'n'

def all : List BracketClass := [vowels, oneToThree, lower, upper, digit, notDigit, mToN]

def find (t : Text) : Option BracketClass := all.find? fun k => k.body == t

theorem find_body (k : BracketClass) : find k.body = some k := by
  cases k <;> decide +kernel

/-- A class has no `]` inside, so the first one ends it. -/
theorem close_not_mem_body (k : BracketClass) : ']' ∉ k.body := by
  cases k <;> decide +kernel

end BracketClass

/-- A lowercase letter or a digit. -/
def isBaseChar (c : Char) : Bool := c.isLower || c.isDigit

/-- The characters that are drawn need no backslash. -/
theorem isBaseChar_not_special (c : Char) (h : isBaseChar c = true) :
    Regex.special.contains c = false := by
  have hall : (Regex.special.all fun d => !isBaseChar d) = true := by decide
  rw [List.all_eq_true] at hall
  apply Bool.eq_false_iff.mpr
  intro hmem
  have hnot := hall c (List.contains_iff_mem.mp hmem)
  rw [h] at hnot
  exact Bool.noConfusion hnot

/-- The letters and digits, and the listed bracket classes. -/
def genAlphabet : Alphabet BracketClass where
  literal := isBaseChar
  body := BracketClass.body
  find := BracketClass.find
  mem := BracketClass.mem
  literal_not_special := isBaseChar_not_special
  find_body := BracketClass.find_body
  close_not_mem_body := BracketClass.close_not_mem_body

/-! ## Segments -/

/-- A text that is an item with any quantifier behind it. -/
def AtomText (s : Text) : Prop :=
  ∀ q : Option Quantifier, (∀ q' ∈ q, q'.WellFormed) →
    ∃ i : Item BracketClass, i.WellFormed genAlphabet ∧ i.render genAlphabet = s ++ renderOpt q ∧
      i.nullable = nullableQuantified false q

/-- A quantifier, which asks for a repetition if `positive` holds. -/
def QuantifierText (positive : Bool) (s : Text) : Prop :=
  ∃ q : Quantifier, q.WellFormed ∧ s = q.render ∧
    (positive = true → nullableQuantified false (some q) = false)

/-- An item, which cannot be empty if `positive` holds. -/
def SegmentText (positive : Bool) (s : Text) : Prop :=
  ∃ i : Item BracketClass, i.WellFormed genAlphabet ∧ s = i.render genAlphabet ∧
    (positive = true → i.nullable = false)

theorem atomText_literal {c : Char} (h : isBaseChar c = true) : AtomText [c] :=
  fun q hq => ⟨.literal c q, ⟨h, hq⟩, rfl, rfl⟩

theorem atomText_cls (k : BracketClass) : AtomText ('[' :: (k.body ++ [']'])) := by
  intro q hq
  refine ⟨.cls k q, hq, ?_, rfl⟩
  rw [Item.render, List.cons_append, List.append_assoc, List.singleton_append]
  rfl

/-- `char_sets` has the classes in brackets. -/
theorem charSets_eq : charSets = BracketClass.all.map fun k => '[' :: (k.body ++ [']']) := by
  decide +kernel

theorem isBaseChar_of_mem {c : Char} (h : c ∈ baseChars) : isBaseChar c = true := by
  have hall : baseChars.all isBaseChar = true := by decide +kernel
  exact List.all_eq_true.mp hall c h

/-- An atom is a character or a class. -/
theorem yields_generateAtom (config : GenConfig) : Yields (generateAtom config) AtomText := by
  refine yields_bind (yields_choice (List.cons_ne_nil _ _)) fun segmentChoice hchoice => ?_
  refine yields_ite (fun hbase => ?_) fun hbase => yields_pure ?_
  · have hne : segmentChoice ≠ [] := by
      rw [hbase]
      decide +kernel
    refine yields_bind (yields_choice hne) fun c hc => yields_pure ?_
    exact atomText_literal (isBaseChar_of_mem (hbase ▸ hc))
  · have hmem := (List.mem_cons.mp hchoice).resolve_left hbase
    by_cases hsets : config.useSets = true
    · rw [if_pos hsets, charSets_eq] at hmem
      obtain ⟨k, -, rfl⟩ := List.mem_map.mp hmem
      exact atomText_cls k
    · rw [if_neg hsets] at hmem
      exact absurd hmem List.not_mem_nil

/-- Where the match must not be empty, `+` is the only one. -/
theorem quantifierText_unbounded (config : GenConfig) (requireNonEmpty : Bool) :
    ∀ s ∈ unboundedQuantifiers config requireNonEmpty, QuantifierText requireNonEmpty s := by
  have hplus : QuantifierText requireNonEmpty "+".toList := ⟨.plus, trivial, rfl, fun _ => rfl⟩
  unfold unboundedQuantifiers
  by_cases hunbound : config.useUnboundQuants = true
  · rw [if_pos hunbound]
    cases requireNonEmpty with
    | true => exact List.forall_mem_singleton.mpr hplus
    | false =>
      have hstar : QuantifierText false "*".toList :=
        ⟨.star, trivial, rfl, fun h => absurd h Bool.false_ne_true⟩
      exact List.forall_mem_cons.mpr ⟨hplus, List.forall_mem_singleton.mpr hstar⟩
  · rw [if_neg hunbound]
    exact fun _ h => absurd h List.not_mem_nil

/-- The bounds that are drawn are in order, and the lower one is at least 1. -/
theorem yields_boundedQuantifiers (config : GenConfig) (positive : Bool) :
    Yields (boundedQuantifiers config) fun qs => ∀ s ∈ qs, QuantifierText positive s := by
  refine yields_ite (fun _ => ?_) fun _ => yields_pure fun _ h => absurd h List.not_mem_nil
  refine yields_bind (yields_randint (by decide)) fun n hn => ?_
  refine yields_bind (yields_randint (by decide)) fun lower hlower => ?_
  refine yields_bind (yields_randint (by decide)) fun upper hupper => yields_pure ?_
  have hexactly : QuantifierText positive ('\x7b' :: (Text.decimal n ++ ['\x7d'])) := by
    refine ⟨.exactly n, trivial, rfl, fun _ => ?_⟩
    show (n == 0 || false) = false
    rw [Bool.or_false, beq_eq_false_iff_ne]
    -- `1` is the least number of repetitions that is drawn
    omega
  have hbetween : QuantifierText positive
      ('\x7b' :: (Text.decimal lower ++ ',' :: (Text.decimal upper ++ ['\x7d']))) := by
    refine ⟨.between lower upper, hlower.2.trans (by omega), rfl, fun _ => ?_⟩
    show (decide (lower ≤ upper) && (lower == 0 || false)) = false
    rw [Bool.or_false, (beq_eq_false_iff_ne (a := lower) (b := 0)).mpr (by omega), Bool.and_false]
  exact List.forall_mem_cons.mpr ⟨hexactly, List.forall_mem_singleton.mpr hbetween⟩

theorem yields_addsQuantifier (quantifiers : List Text) (requireNonEmpty : Bool) :
    Yields (addsQuantifier quantifiers requireNonEmpty) fun adds =>
      adds = true → quantifiers ≠ [] := by
  refine yields_ite (fun _ => yields_pure fun h => absurd h Bool.false_ne_true) fun hne => ?_
  refine yields_ite (fun _ => yields_pure fun _ => hne) fun _ => ?_
  exact (yields_choice (List.cons_ne_nil _ _)).mono fun _ _ _ => hne

/-- Every segment is an item; the one that must not be empty cannot be. -/
theorem yields_generateRegexSegment (config : GenConfig) (requireNonEmpty : Bool) :
    Yields (generateRegexSegment config requireNonEmpty) (SegmentText requireNonEmpty) := by
  refine yields_bind (yields_boundedQuantifiers config requireNonEmpty) fun bounded hbounded => ?_
  have hquantifiers : ∀ s ∈ unboundedQuantifiers config requireNonEmpty ++ bounded,
      QuantifierText requireNonEmpty s :=
    List.forall_mem_append.mpr ⟨quantifierText_unbounded config requireNonEmpty, hbounded⟩
  refine yields_bind (yields_generateAtom config) fun segment hsegment => ?_
  refine yields_bind (yields_addsQuantifier _ requireNonEmpty) fun adds hadds => ?_
  refine yields_ite (fun h => ?_) fun _ => yields_pure ?_
  · refine yields_bind (yields_choice (hadds h)) fun quantifier hmem => yields_pure ?_
    -- no `*` is among the quantifiers of a segment that must not be empty
    obtain ⟨q, hq, rfl, hpositive⟩ := hquantifiers quantifier hmem
    have hwf : ∀ q' ∈ some q, q'.WellFormed := fun q' hq' => Option.some.inj hq' ▸ hq
    obtain ⟨i, hi, hrender, hnullable⟩ := hsegment (some q) hwf
    exact ⟨i, hi, hrender.symm, fun hp => hnullable.trans (hpositive hp)⟩
  · obtain ⟨i, hi, hrender, hnullable⟩ := hsegment none fun q' h =>
        absurd h (Option.not_mem_none q')
    rw [renderOpt, List.append_nil] at hrender
    exact ⟨i, hi, hrender.symm, fun _ => hnullable⟩

/-! ## The group -/

/-- Segments that write items, one of which cannot be empty. -/
def SegmentTexts (segments : List Text) : Prop :=
  ∃ is : List (Item BracketClass), (∀ i ∈ is, i.WellFormed genAlphabet) ∧
    segments = is.map (Item.render genAlphabet) ∧ ∃ i ∈ is, i.nullable = false

/-- Two neighbours in a list. -/
theorem exists_neighbours {α : Type} {l : List α} {i : ℕ} (h : i + 1 < l.length) :
    ∃ before a b after, l = before ++ a :: b :: after ∧ before.length = i := by
  refine ⟨l.take i, l[i], l[i + 1], l.drop (i + 2), ?_, List.length_take_of_le (by omega)⟩
  rw [← List.drop_eq_getElem_cons, ← List.drop_eq_getElem_cons, List.take_append_drop]

/-- Two segments that stand next to each other become one group. -/
theorem mergeSegments_neighbours (before after : List Text) (a b : Text) :
    mergeSegments (before ++ a :: b :: after) before.length =
      some (before ++ ('(' :: (a ++ (b ++ [')']))) :: after) := by
  have hfirst : (before ++ a :: b :: after)[before.length]? = some a := by
    rw [List.getElem?_append_right le_rfl, Nat.sub_self]
    rfl
  have hsecond : (before ++ a :: b :: after)[before.length + 1]? = some b := by
    rw [List.getElem?_append_right (Nat.le_add_right _ 1), Nat.add_sub_cancel_left]
    rfl
  have herase : (before ++ a :: b :: after).eraseIdx (before.length + 1) =
      before ++ a :: after := by
    rw [List.eraseIdx_append_of_length_le (Nat.le_add_right _ 1), Nat.add_sub_cancel_left]
    rfl
  unfold mergeSegments
  rw [hfirst, hsecond, herase]
  show some ((before ++ a :: after).set before.length ('(' :: (a ++ (b ++ [')'])))) = _
  rw [List.set_append_right _ _ le_rfl, Nat.sub_self]
  rfl

/-- The merge of two neighbours writes the group of their items. -/
theorem segmentTexts_merge {segments : List Text} (h : SegmentTexts segments) {i : ℕ}
    (hi : i + 1 < segments.length) :
    ∃ merged, mergeSegments segments i = some merged ∧ SegmentTexts merged := by
  obtain ⟨is, hwf, rfl, j, hj, hnull⟩ := h
  rw [List.length_map] at hi
  obtain ⟨before, a, b, after, rfl, hlength⟩ := exists_neighbours hi
  rw [List.forall_mem_append, List.forall_mem_cons, List.forall_mem_cons] at hwf
  obtain ⟨hbefore, ha, hb, hafter⟩ := hwf
  have hgroup : (Item.group a b none).WellFormed genAlphabet :=
    ⟨ha, hb, fun q' hq' => absurd hq' (Option.not_mem_none q')⟩
  refine ⟨(before ++ Item.group a b none :: after).map (Item.render genAlphabet), ?_,
    before ++ Item.group a b none :: after, ?_, rfl, ?_⟩
  · rw [List.map_append, List.map_cons, List.map_cons,
      ← (List.length_map _).trans hlength, mergeSegments_neighbours, List.map_append,
      List.map_cons]
    rfl
  · exact List.forall_mem_append.mpr ⟨hbefore, List.forall_mem_cons.mpr ⟨hgroup, hafter⟩⟩
  · -- the item that cannot be empty stays, or makes the group so
    have hmem : Item.group a b none ∈ before ++ Item.group a b none :: after :=
      List.mem_append_right _ List.mem_cons_self
    rcases List.mem_append.mp hj with hleft | hright
    · exact ⟨j, List.mem_append_left _ hleft, hnull⟩
    rcases List.mem_cons.mp hright with rfl | hright
    · exact ⟨_, hmem, Bool.and_eq_false_iff.mpr (Or.inl hnull)⟩
    rcases List.mem_cons.mp hright with rfl | hright
    · exact ⟨_, hmem, Bool.and_eq_false_iff.mpr (Or.inr hnull)⟩
    · exact ⟨j, List.mem_append_right _ (List.mem_cons_of_mem _ hright), hnull⟩

/-- With or without a group, the segments write items. -/
theorem yields_groupSegments (config : GenConfig) {segments : List Text}
    (h : SegmentTexts segments) : Yields (groupSegments config segments) SegmentTexts := by
  refine yields_ite (fun hgroup => ?_) fun _ => yields_pure h
  have hlength : 1 < segments.length := of_decide_eq_true (Bool.and_eq_true_iff.mp hgroup).2
  refine yields_bind (yields_randint (Nat.zero_le _)) fun i hi => ?_
  obtain ⟨merged, hmerge, hmerged⟩ := segmentTexts_merge h (i := i) (by omega)
  rw [hmerge]
  exact yields_pure hmerged

/-! ## Expressions -/

/-- Segments that write items write them one after the other. -/
theorem segmentTexts_cons {first : Text} {others : List Text} (hfirst : SegmentText true first)
    (hothers : ∀ s ∈ others, SegmentText false s) : SegmentTexts (first :: others) := by
  obtain ⟨i, hi, rfl, hnull⟩ := hfirst
  have hitems : ∃ is : List (Item BracketClass), (∀ i ∈ is, i.WellFormed genAlphabet) ∧
      others = is.map (Item.render genAlphabet) := by
    induction others with
    | nil => exact ⟨[], fun _ h => absurd h List.not_mem_nil, rfl⟩
    | cons s others ih =>
      obtain ⟨hs, hrest⟩ := List.forall_mem_cons.mp hothers
      obtain ⟨j, hj, rfl, -⟩ := hs
      obtain ⟨is, his, rfl⟩ := ih hrest
      exact ⟨j :: is, List.forall_mem_cons.mpr ⟨hj, his⟩, rfl⟩
  obtain ⟨is, his, rfl⟩ := hitems
  exact ⟨i :: is, List.forall_mem_cons.mpr ⟨hi, his⟩, rfl, i, List.mem_cons_self, hnull rfl⟩

/-- The text is an expression of the grammar, and its language is without the empty string. -/
def ValidRegex (s : Text) : Prop :=
  ∃ is, Regex.parse genAlphabet s = some is ∧ [] ∉ Regex.language genAlphabet is

/-- Segments one behind the other are an expression. -/
theorem validRegex_flatten {segments : List Text} (h : SegmentTexts segments) :
    ValidRegex segments.flatten := by
  obtain ⟨is, hwf, rfl, i, hi, hnull⟩ := h
  refine ⟨is, ?_, ?_⟩
  · rw [← List.flatMap_def]
    exact parse_render hwf
  · rw [nil_mem_language_iff]
    intro hall
    rw [hall i hi] at hnull
    exact Bool.noConfusion hnull

/-- Whatever is drawn, `random_valid_regex` returns an expression that does not match the empty
string. -/
theorem randomValidRegex_matches (config : GenConfig) (draws : ℕ → ℕ) :
    ∃ regex rest, (randomValidRegex config).run draws = some (regex, rest) ∧ ValidRegex regex := by
  have hyields : Yields (randomValidRegex config) ValidRegex := by
    refine yields_bind (yields_generateRegexSegment config true) fun first hfirst => ?_
    refine yields_bind (yields_randint (by decide)) fun numSegments _ => ?_
    refine yields_bind (yields_mapM fun _ _ => yields_generateRegexSegment config false)
      fun others hothers => ?_
    refine yields_bind (yields_groupSegments config (segmentTexts_cons hfirst hothers.2))
      fun segments hsegments => yields_pure ?_
    exact validRegex_flatten hsegments
  exact hyields draws

end Data
end PamoRxpBench
