import PamoRxpBench.Autotest.ParseResult
import Mathlib.Data.List.Dedup

/-!
# What `host_parse_single_result` reads of a line

The matches line by line: a well-formed line gives its own value, and a line without a value gives
the number that the next line that is not blank starts with, if it does (`resultRegex_malformed`).
The dictionary is then that of the lines exactly if there is no such number, and no field with a
value is spelled in two ways (`hostParseSingleResult_lineFaithful_iff`).
-/

namespace PamoRxpBench
namespace Autotest

open Findall

/-- What the documentation of `re` and of `set` says. -/
structure PyText.Documented (py : PyText) : Prop where
  word_not_space : ∀ c, py.isWord c = true → Text.isSpace c = false
  decimal_not_space : ∀ c, py.isDecimal c = true → Text.isSpace c = false
  decimal_ascii : ∀ c : Char, c.toNat < 128 → py.isDecimal c = c.isDigit
  listSet_mem : ∀ xs x, x ∈ py.listSet xs ↔ x ∈ xs

/-! ## The lines of an output -/

/-- A text of one line without a result. -/
structure NoiseText where
  text : Text
  no_newline : '\n' ∉ text
  no_result : ¬ resultKey <:+: text

/-- The name of a field. -/
structure FieldName (py : PyText) where
  text : Text
  nonempty : text ≠ []
  chars : ∀ c ∈ text, py.isField c = true

/-- A number in decimal notation. -/
structure DecimalText where
  text : Text
  nonempty : text ≠ []
  chars : ∀ c ∈ text, c.isDigit = true ∨ c = '.'

/-- A line of an output. -/
inductive OutputLine (py : PyText)
  | noise (t : NoiseText)
  | wellFormed (f : FieldName py) (v : DecimalText) (unit : Option NoiseText)
  | malformed (f : FieldName py)

variable {py : PyText}

/-- A unit, after a blank. -/
def unitText : Option NoiseText → Text
  | none => []
  | some u => ' ' :: u.text

/-- The text of a line. -/
def OutputLine.text : OutputLine py → Text
  | .noise t => t.text
  | .wellFormed f v unit => resultKey ++ f.text ++ ' ' :: (v.text ++ unitText unit)
  | .malformed f => resultKey ++ f.text ++ [' ']

/-- The lines that follow a line. -/
def followingText (lines : List (OutputLine py)) : Text := lines.flatMap fun l => '\n' :: l.text

/-- The output; a line feed at its end leaves an empty line of noise. -/
def outputText : List (OutputLine py) → Text
  | [] => []
  | l :: lines => l.text ++ followingText lines

/-- The next line that is not blank is noise that starts with a character of a value. -/
def valueNext : List (OutputLine py) → Bool
  | .noise t :: lines =>
    match t.text.dropWhile Text.isSpace with
    | [] => valueNext lines
    | c :: _ => py.isValue c
  | _ => false

/-! ## Characters -/

namespace PyText.Documented

variable (h : py.Documented)

include h

theorem isField_not_space {c : Char} (hc : py.isField c = true) : Text.isSpace c = false := by
  unfold PyText.isField at hc
  simp only [Bool.or_eq_true, decide_eq_true_eq] at hc
  match hc with
  | .inl (.inl (.inl hdot)) => subst hdot; decide
  | .inl (.inl (.inr hword)) => exact h.word_not_space c hword
  | .inl (.inr hdecimal) => exact h.decimal_not_space c hdecimal
  | .inr hdash => subst hdash; decide

theorem isValue_not_space {c : Char} (hc : py.isValue c = true) : Text.isSpace c = false := by
  unfold PyText.isValue at hc
  simp only [Bool.or_eq_true, decide_eq_true_eq] at hc
  match hc with
  | .inl hdot => subst hdot; decide
  | .inr hdecimal => exact h.decimal_not_space c hdecimal

theorem isField_of_space {c : Char} (hc : Text.isSpace c = true) : py.isField c = false :=
  eq_false_of_ne_true fun hfield => absurd (h.isField_not_space hfield) (by rw [hc]; decide)

theorem isValue_of_space {c : Char} (hc : Text.isSpace c = true) : py.isValue c = false :=
  eq_false_of_ne_true fun hvalue => absurd (h.isValue_not_space hvalue) (by rw [hc]; decide)

theorem isValue_R : py.isValue 'R' = false := by
  rw [PyText.isValue, h.decimal_ascii 'R' (by decide)]
  decide

theorem isValue_of_decimal (v : DecimalText) : ∀ c ∈ v.text, py.isValue c = true := by
  intro c hc
  rw [PyText.isValue, Bool.or_eq_true, decide_eq_true_eq]
  match v.chars c hc with
  | .inl hdigit =>
    have hascii : c.toNat < 128 := by
      have hbound : 48 ≤ c.toNat ∧ c.toNat ≤ 57 := by
        simpa [Char.isDigit, UInt32.le_iff_toNat_le] using hdigit
      omega
    exact Or.inr ((h.decimal_ascii c hascii).trans hdigit)
  | .inr hdot => exact Or.inl hdot

end PyText.Documented

/-! ## A match at the start -/

theorem matchField_anchored : ∀ s, ¬ resultKey <+: s → matchField py s = none := by
  intro s hs
  rw [matchField, if_neg fun h => hs (List.isPrefixOf_iff_prefix.mp h)]

theorem resultRegex_anchored : Anchored resultKey (resultRegex py) := by
  intro s hs
  rw [resultRegex, matchField_anchored s hs]

theorem resultEmptyRegex_anchored : Anchored resultKey (resultEmptyRegex py) := by
  intro s hs
  rw [resultEmptyRegex, matchField_anchored s hs]
  rfl

/-- A field name takes at least the key from the text. -/
theorem matchField_consumes {s field blank rest : Text}
    (h : matchField py s = some (field, blank, rest)) : rest <:+ s ∧ rest.length < s.length := by
  unfold matchField at h
  by_cases hkey : resultKey.isPrefixOf s = true
  · rw [if_pos hkey] at h
    simp only at h
    split_ifs at h
    obtain rfl := congrArg (fun m => m.2.2) (Option.some.inj h)
    have hsuffix : ((s.drop resultKey.length).dropWhile py.isField).dropWhile Text.isSpace <:+
        s.drop resultKey.length :=
      (List.dropWhile_suffix _).trans (List.dropWhile_suffix _)
    have hlength := (List.isPrefixOf_iff_prefix.mp hkey).length_le
    have hdrop := hsuffix.length_le
    rw [List.length_drop] at hdrop
    have hseven : resultKey.length = 7 := rfl
    refine ⟨hsuffix.trans (List.drop_suffix _ _), ?_⟩
    show (List.dropWhile _ _).length < _
    omega
  · rw [if_neg hkey] at h
    cases h

theorem resultEmptyRegex_consumes : Consumes (resultEmptyRegex py) := by
  intro s m rest h
  obtain ⟨⟨field, blank, left⟩, hfield, hrest⟩ := Option.map_eq_some_iff.mp h
  obtain rfl : left = rest := congrArg Prod.snd hrest
  exact matchField_consumes hfield

theorem resultRegex_consumes : Consumes (resultRegex py) := by
  intro s m rest h
  unfold resultRegex at h
  match hmatch : matchField py s with
  | none =>
    rw [hmatch] at h
    cases h
  | some (field, blank, left) =>
    rw [hmatch] at h
    simp only at h
    split_ifs at h
    obtain rfl := congrArg Prod.snd (Option.some.inj h)
    obtain ⟨hsuffix, hlt⟩ := matchField_consumes hmatch
    have hleft : (left.dropWhile py.isValue).dropWhile Char.isAlpha <:+ left :=
      (List.dropWhile_suffix _).trans (List.dropWhile_suffix _)
    exact ⟨hleft.trans hsuffix, hleft.length_le.trans_lt hlt⟩

/-- A field and what follows it up to a character that is no blank. -/
theorem matchField_eq (h : py.Documented) {f : Text} (hf : ∀ c ∈ f, py.isField c = true)
    (rest : Text) :
    matchField py (resultKey ++ f ++ ' ' :: rest) =
      if f = [] then none
      else some (f, ' ' :: rest.takeWhile Text.isSpace, rest.dropWhile Text.isSpace) := by
  have hprefix : resultKey.isPrefixOf (resultKey ++ (f ++ ' ' :: rest)) = true :=
    List.isPrefixOf_iff_prefix.mpr (List.prefix_append _ _)
  have hblank : py.isField ' ' = false := h.isField_of_space (by decide)
  have hstop : ¬ py.isField ' ' = true := by
    rw [hblank]
    decide
  have htake : (f ++ ' ' :: rest).takeWhile py.isField = f := by
    rw [List.takeWhile_append_of_pos hf, List.takeWhile_cons_of_neg hstop, List.append_nil]
  have hdrop : (f ++ ' ' :: rest).dropWhile py.isField = ' ' :: rest := by
    rw [List.dropWhile_append_of_pos hf, List.dropWhile_cons_of_neg hstop]
  rw [List.append_assoc, matchField, if_pos hprefix, List.drop_left]
  simp only [htake, hdrop]
  rw [List.takeWhile_cons_of_pos (by decide), List.dropWhile_cons_of_pos (by decide)]
  by_cases hnil : f = []
  · rw [if_pos (Or.inl hnil), if_pos hnil]
  · rw [if_neg (not_or.mpr ⟨hnil, List.cons_ne_nil _ _⟩), if_neg hnil]

/-! ## The matches of a line -/

theorem startsWith_followingText (lines : List (OutputLine py)) :
    StartsWith '\n' (followingText lines) := by
  intro c hc
  match lines with
  | [] => cases hc
  | l :: lines => exact (Option.some.inj hc).symm

/-- Noise has no match. -/
theorem findall_noise {α : Type} {rx : Text → Option (α × Text)} (hrx : Anchored resultKey rx)
    {t : Text} (ht : ¬ resultKey <:+: t) (lines : List (OutputLine py)) :
    findall rx (t ++ followingText lines) = findall rx (followingText lines) :=
  findall_append_of_quiet hrx (by decide) (startsWith_followingText lines) ht

/-- No match begins in what comes before the first key. -/
theorem findall_followingText {α : Type} {rx : Text → Option (α × Text)}
    (hrx : Anchored resultKey rx) (lines : List (OutputLine py)) :
    findall rx (followingText lines) = findall rx (outputText lines) := by
  match lines with
  | [] => rfl
  | l :: lines =>
    have hnone : rx ('\n' :: (l.text ++ followingText lines)) = none := by
      refine hrx _ fun h => ?_
      exact absurd (List.cons_prefix_cons.mp h).1 (by decide)
    exact findall_cons_of_none hnone

theorem quiet_unitText (unit : Option NoiseText) : ¬ resultKey <:+: unitText unit := by
  match unit with
  | none => decide
  | some u =>
    intro h
    rcases List.infix_cons_iff.mp h with hprefix | hinfix
    · exact absurd (List.cons_prefix_cons.mp hprefix).1 (by decide)
    · exact u.no_result hinfix

/-- What follows the value on a well-formed line starts with a blank or ends the line. -/
theorem head_after_value (unit : Option NoiseText) (lines : List (OutputLine py)) :
    ∀ c ∈ (unitText unit ++ followingText lines).head?, c = ' ' ∨ c = '\n' := by
  intro c hc
  match unit with
  | none => exact Or.inr (startsWith_followingText lines c hc)
  | some u => exact Or.inl (Option.some.inj hc).symm

theorem takeWhile_eq_nil_of_head {p : Char → Bool} {s : Text} (h : ∀ c ∈ s.head?, p c = false) :
    s.takeWhile p = [] ∧ s.dropWhile p = s := by
  match s with
  | [] => exact ⟨rfl, rfl⟩
  | c :: s =>
    have hc : ¬ p c = true := by
      rw [h c rfl]
      decide
    exact ⟨List.takeWhile_cons_of_neg hc, List.dropWhile_cons_of_neg hc⟩

section
variable (h : py.Documented) (f : FieldName py) (v : DecimalText) (unit : Option NoiseText)
  (lines : List (OutputLine py))
include h

/-- In a well-formed line the field and the blank before its value are found. -/
theorem matchField_wellFormed :
    matchField py ((OutputLine.wellFormed f v unit).text ++ followingText lines) =
      some (f.text, [' '], v.text ++ (unitText unit ++ followingText lines)) := by
  have hhead : ∀ c ∈ (v.text ++ (unitText unit ++ followingText lines)).head?,
      Text.isSpace c = false := by
    intro c hc
    obtain ⟨d, w, hv⟩ := List.exists_cons_of_ne_nil v.nonempty
    rw [hv] at hc
    obtain rfl := Option.some.inj hc
    exact h.isValue_not_space (h.isValue_of_decimal v d (hv ▸ List.mem_cons_self))
  have htext : (OutputLine.wellFormed f v unit).text ++ followingText lines =
      resultKey ++ f.text ++ ' ' :: (v.text ++ (unitText unit ++ followingText lines)) := by
    show resultKey ++ f.text ++ ' ' :: (v.text ++ unitText unit) ++ _ = _
    rw [List.append_assoc _ (' ' :: _), List.cons_append, List.append_assoc v.text]
  have hstop := takeWhile_eq_nil_of_head hhead
  rw [htext, matchField_eq h f.chars, if_neg f.nonempty, hstop.1, hstop.2]

theorem matchField_malformed :
    matchField py ((OutputLine.malformed f).text ++ followingText lines) =
      some (f.text, ' ' :: (followingText lines).takeWhile Text.isSpace,
        (followingText lines).dropWhile Text.isSpace) := by
  show matchField py (resultKey ++ f.text ++ [' '] ++ _) = _
  rw [List.append_assoc _ [' '], List.singleton_append, matchField_eq h f.chars,
    if_neg f.nonempty]

/-- The value of a well-formed line, and what is left after it. -/
theorem splitValue_wellFormed :
    (v.text ++ (unitText unit ++ followingText lines)).takeWhile py.isValue = v.text ∧
      (v.text ++ (unitText unit ++ followingText lines)).dropWhile py.isValue =
        unitText unit ++ followingText lines := by
  have hhead : ∀ c ∈ (unitText unit ++ followingText lines).head?, py.isValue c = false := by
    intro c hc
    match head_after_value unit lines c hc with
    | .inl hblank => exact h.isValue_of_space (hblank ▸ by decide)
    | .inr hnewline => exact h.isValue_of_space (hnewline ▸ by decide)
  obtain ⟨htake, hdrop⟩ := takeWhile_eq_nil_of_head hhead
  have hv := h.isValue_of_decimal v
  rw [List.takeWhile_append_of_pos hv, List.dropWhile_append_of_pos hv, htake, hdrop,
    List.append_nil]
  exact ⟨rfl, rfl⟩

/-- After the value the rest of a well-formed line has no match. -/
theorem findall_value {α : Type} {rx : Text → Option (α × Text)} (hrx : Anchored resultKey rx) :
    findall rx (v.text ++ (unitText unit ++ followingText lines)) =
      findall rx (followingText lines) := by
  rw [← findall_dropWhile hrx h.isValue_R, (splitValue_wellFormed h v unit lines).2,
    findall_noise hrx (quiet_unitText unit)]

/-- A well-formed line gives its value. -/
theorem resultRegex_wellFormed :
    findall (resultRegex py) ((OutputLine.wellFormed f v unit).text ++ followingText lines) =
      ⟨f.text, [' '], v.text, []⟩ :: findall (resultRegex py) (followingText lines) := by
  obtain ⟨htake, hdrop⟩ := splitValue_wellFormed h v unit lines
  have hletter : ∀ c ∈ (unitText unit ++ followingText lines).head?, c.isAlpha = false := by
    intro c hc
    match head_after_value unit lines c hc with
    | .inl hblank => exact hblank ▸ by decide
    | .inr hnewline => exact hnewline ▸ by decide
  obtain ⟨hunit, hrest⟩ := takeWhile_eq_nil_of_head hletter
  have hmatch : resultRegex py ((OutputLine.wellFormed f v unit).text ++ followingText lines) =
      some (⟨f.text, [' '], v.text, []⟩, unitText unit ++ followingText lines) := by
    rw [resultRegex, matchField_wellFormed h]
    simp only [htake, hdrop, hunit, hrest]
    rw [if_neg v.nonempty]
  rw [findall_eq_cons resultRegex_consumes hmatch,
    findall_noise resultRegex_anchored (quiet_unitText unit)]

/-- A field is found on its line. -/
theorem resultEmptyRegex_wellFormed :
    findall (resultEmptyRegex py) ((OutputLine.wellFormed f v unit).text ++ followingText lines) =
      f.text :: findall (resultEmptyRegex py) (followingText lines) := by
  have hmatch : resultEmptyRegex py ((OutputLine.wellFormed f v unit).text ++ followingText lines) =
      some (f.text, v.text ++ (unitText unit ++ followingText lines)) := by
    rw [resultEmptyRegex, matchField_wellFormed h]
    rfl
  rw [findall_eq_cons resultEmptyRegex_consumes hmatch, findall_value h _ _ _
    resultEmptyRegex_anchored]

theorem resultEmptyRegex_malformed :
    findall (resultEmptyRegex py) ((OutputLine.malformed f).text ++ followingText lines) =
      f.text :: findall (resultEmptyRegex py) (followingText lines) := by
  have hmatch : resultEmptyRegex py ((OutputLine.malformed f).text ++ followingText lines) =
      some (f.text, (followingText lines).dropWhile Text.isSpace) := by
    rw [resultEmptyRegex, matchField_malformed h]
    rfl
  rw [findall_eq_cons resultEmptyRegex_consumes hmatch,
    findall_dropWhile resultEmptyRegex_anchored (by decide)]

end

/-! ## A line without a value -/

/-- The value that a line without one is given: what the next line that is not blank starts
with. -/
theorem takeWhile_followingText (h : py.Documented) (lines : List (OutputLine py)) :
    ((followingText lines).dropWhile Text.isSpace).takeWhile py.isValue = [] ↔
      valueNext lines = false := by
  induction lines with
  | nil => exact iff_of_true rfl rfl
  | cons l lines ih =>
    have hnewline : (followingText (l :: lines)).dropWhile Text.isSpace =
        (l.text ++ followingText lines).dropWhile Text.isSpace :=
      List.dropWhile_cons_of_pos (by decide)
    have hresult : ∀ s : Text, (('R' :: s).dropWhile Text.isSpace).takeWhile py.isValue = [] := by
      intro s
      rw [List.dropWhile_cons_of_neg (by decide),
        List.takeWhile_cons_of_neg (by rw [h.isValue_R]; decide)]
    rw [hnewline]
    match l with
    | .wellFormed f v unit => exact iff_of_true (hresult _) rfl
    | .malformed f => exact iff_of_true (hresult _) rfl
    | .noise t =>
      show ((t.text ++ followingText lines).dropWhile Text.isSpace).takeWhile py.isValue = [] ↔
        (match t.text.dropWhile Text.isSpace with
          | [] => valueNext lines
          | c :: _ => py.isValue c) = false
      rw [List.dropWhile_append]
      -- a blank line is passed, and then the next one decides
      match t.text.dropWhile Text.isSpace with
      | [] => exact ih
      | c :: s =>
        show (c :: (s ++ followingText lines)).takeWhile py.isValue = [] ↔ py.isValue c = false
        by_cases hc : py.isValue c = true
        · rw [List.takeWhile_cons_of_pos hc, hc]
          exact iff_of_false (List.cons_ne_nil _ _) (by decide)
        · rw [List.takeWhile_cons_of_neg hc]
          exact iff_of_true rfl (eq_false_of_ne_true hc)

/-- The value and the unit that are taken are on a line of noise. -/
theorem findall_of_valueNext (h : py.Documented) {lines : List (OutputLine py)}
    (hnext : valueNext lines = true) :
    findall (resultRegex py) ((((followingText lines).dropWhile Text.isSpace).dropWhile
        py.isValue).dropWhile Char.isAlpha) = findall (resultRegex py) (followingText lines) := by
  induction lines with
  | nil => cases hnext
  | cons l lines ih =>
    match l with
    | .wellFormed f v unit => cases hnext
    | .malformed f => cases hnext
    | .noise t =>
      have hskip : findall (resultRegex py) (followingText (.noise t :: lines)) =
          findall (resultRegex py) (followingText lines) := by
        rw [findall_followingText resultRegex_anchored]
        exact findall_noise resultRegex_anchored t.no_result lines
      have hnewline : (followingText (.noise t :: lines)).dropWhile Text.isSpace =
          (t.text ++ followingText lines).dropWhile Text.isSpace :=
        List.dropWhile_cons_of_pos (by decide)
      have hstarts := startsWith_followingText lines
      have hvalue : py.isValue '\n' = false := h.isValue_of_space (by decide)
      have hsuffix := List.dropWhile_suffix Text.isSpace (l := t.text)
      unfold valueNext at hnext
      rw [hskip, hnewline, List.dropWhile_append]
      -- the value stands in the first line that is not blank, and no key in it
      match hblank : t.text.dropWhile Text.isSpace with
      | [] =>
        rw [hblank] at hnext
        exact ih hnext
      | c :: s =>
        rw [hblank] at hsuffix
        show findall _ ((((c :: s) ++ followingText lines).dropWhile py.isValue).dropWhile
          Char.isAlpha) = _
        rw [dropWhile_append_of_startsWith hvalue hstarts,
          dropWhile_append_of_startsWith (by decide) hstarts]
        refine findall_noise resultRegex_anchored (fun hkey => t.no_result ?_) lines
        exact hkey.trans (((List.dropWhile_suffix _).trans (List.dropWhile_suffix _)).trans
          hsuffix).isInfix

/-- A line without a value takes the number that follows. -/
theorem resultRegex_malformed_of_valueNext (h : py.Documented) (f : FieldName py)
    {lines : List (OutputLine py)} (hnext : valueNext lines = true) :
    ∃ m, findall (resultRegex py) ((OutputLine.malformed f).text ++ followingText lines) =
      m :: findall (resultRegex py) (followingText lines) ∧ '\n' ∈ m.blank := by
  have hskip := findall_of_valueNext h hnext
  have hvalue := (takeWhile_followingText h lines).not.mpr (by rw [hnext]; decide)
  have hmatch := matchField_malformed h f lines
  generalize hrest : (followingText lines).dropWhile Text.isSpace = rest at hskip hvalue hmatch
  have hregex : resultRegex py ((OutputLine.malformed f).text ++ followingText lines) =
      some (⟨f.text, ' ' :: (followingText lines).takeWhile Text.isSpace,
        rest.takeWhile py.isValue, (rest.dropWhile py.isValue).takeWhile Char.isAlpha⟩,
        (rest.dropWhile py.isValue).dropWhile Char.isAlpha) := by
    rw [resultRegex, hmatch]
    simp only
    rw [if_neg hvalue]
  refine ⟨_, (findall_eq_cons resultRegex_consumes hregex).trans (congrArg _ hskip), ?_⟩
  -- the blanks go on to the next line
  match lines with
  | [] => cases hnext
  | l :: lines =>
    show '\n' ∈ ' ' :: ('\n' :: (l.text ++ followingText lines)).takeWhile Text.isSpace
    rw [List.takeWhile_cons_of_pos (by decide)]
    exact List.mem_cons_of_mem _ List.mem_cons_self

/-- If no number follows, a line without a value has no match, whatever its field holds. -/
theorem resultRegex_malformed (h : py.Documented) (f : FieldName py) {lines : List (OutputLine py)}
    (hnext : valueNext lines = false) :
    findall (resultRegex py) ((OutputLine.malformed f).text ++ followingText lines) =
      findall (resultRegex py) (followingText lines) := by
  have hvalue := (takeWhile_followingText h lines).mpr hnext
  -- wherever the key stands in the line, there is no value behind the field
  have hkey : ∀ g : Text, (∀ c ∈ g, py.isField c = true) →
      resultRegex py (resultKey ++ g ++ ' ' :: followingText lines) = none := by
    intro g hg
    rw [resultRegex, matchField_eq h hg]
    by_cases hnil : g = []
    · rw [if_pos hnil]
    · rw [if_neg hnil]
      simp only
      rw [if_pos hvalue]
  -- so no match begins in the line
  have hskip : ∀ w : Text, w <:+ resultKey ++ f.text →
      findall (resultRegex py) (w ++ ' ' :: followingText lines) =
        findall (resultRegex py) (followingText lines) := by
    intro w hw
    induction w with
    | nil =>
      refine findall_cons_of_none (resultRegex_anchored _ fun hprefix => ?_)
      exact absurd (List.cons_prefix_cons.mp hprefix).1 (by decide)
    | cons c w ih =>
      rw [← ih ((List.suffix_cons c w).trans hw)]
      refine findall_cons_of_none ?_
      by_cases hprefix : resultKey <+: c :: w
      · -- the key may stand in the field as well
        obtain ⟨g, hg⟩ := hprefix
        rw [← hg] at hw
        have hsuffix : g <:+ f.text := by
          have hlength := hw.length_le
          rw [List.length_append, List.length_append] at hlength
          exact List.suffix_of_suffix_length_le ((List.suffix_append _ _).trans hw)
            (List.suffix_append _ _) (by omega)
        show resultRegex py (c :: w ++ ' ' :: followingText lines) = none
        rw [← hg]
        exact hkey g fun c hc => f.chars c (hsuffix.subset hc)
      · refine resultRegex_anchored _ fun hlong => hprefix ?_
        have hstarts : StartsWith ' ' (' ' :: followingText lines) :=
          fun d hd => (Option.some.inj hd).symm
        exact prefix_of_prefix_append (s := c :: w) (by decide) hstarts hlong
  show findall _ (resultKey ++ f.text ++ [' '] ++ _) = _
  rw [List.append_assoc _ [' '], List.singleton_append]
  exact hskip _ List.suffix_rfl

/-! ## The matches of an output -/

/-- The field of a line with a result. -/
def OutputLine.field? : OutputLine py → Option Text
  | .noise _ => none
  | .wellFormed f _ _ => some f.text
  | .malformed f => some f.text

/-- The field and the value of a well-formed line. -/
def OutputLine.result? : OutputLine py → Option (Text × Text)
  | .wellFormed f v _ => some (f.text, v.text)
  | _ => none

/-- No line without a value is followed by a number, over lines that are blank. -/
def NoValueAfter (lines : List (OutputLine py)) : Prop :=
  ∀ f rest, OutputLine.malformed f :: rest <:+ lines → valueNext rest = false

theorem NoValueAfter.tail {l : OutputLine py} {lines : List (OutputLine py)}
    (h : NoValueAfter (l :: lines)) : NoValueAfter lines :=
  fun f rest hrest => h f rest (hrest.trans (List.suffix_cons l lines))

/-- The matches of the lines that are well-formed. -/
def ownMatches (lines : List (OutputLine py)) : List ResultMatch :=
  (lines.filterMap OutputLine.result?).map fun r => ⟨r.1, [' '], r.2, []⟩

/-- If no value follows a malformed line, each match is in its own line. -/
theorem findall_resultRegex (h : py.Documented) {lines : List (OutputLine py)}
    (hnone : NoValueAfter lines) :
    findall (resultRegex py) (followingText lines) = ownMatches lines := by
  induction lines with
  | nil => rfl
  | cons l lines ih =>
    rw [findall_followingText resultRegex_anchored]
    show findall _ (l.text ++ followingText lines) = _
    have hrest := ih hnone.tail
    match l with
    | .noise t => exact (findall_noise resultRegex_anchored t.no_result lines).trans hrest
    | .wellFormed f v unit =>
      rw [resultRegex_wellFormed h, hrest]
      rfl
    | .malformed f =>
      rw [resultRegex_malformed h f (hnone f lines List.suffix_rfl), hrest]
      rfl

/-- The matches of the lines that follow are matches of the output. -/
theorem findall_resultRegex_suffix (h : py.Documented) (l : OutputLine py)
    (lines : List (OutputLine py)) :
    findall (resultRegex py) (followingText lines) <:+
      findall (resultRegex py) (followingText (l :: lines)) := by
  rw [findall_followingText resultRegex_anchored (l :: lines)]
  show _ <:+ findall _ (l.text ++ followingText lines)
  match l with
  | .noise t => exact ⟨[], (findall_noise resultRegex_anchored t.no_result lines).symm⟩
  | .wellFormed f v unit =>
    rw [resultRegex_wellFormed h]
    exact List.suffix_cons _ _
  | .malformed f =>
    by_cases hnext : valueNext lines = true
    · obtain ⟨m, hm, _⟩ := resultRegex_malformed_of_valueNext h f hnext
      rw [hm]
      exact List.suffix_cons _ _
    · exact ⟨[], (resultRegex_malformed h f (eq_false_of_ne_true hnext)).symm⟩

/-- Else a match crosses the end of its line. -/
theorem exists_newline_of_valueNext (h : py.Documented) {f : FieldName py}
    {rest lines : List (OutputLine py)} (hrest : OutputLine.malformed f :: rest <:+ lines)
    (hnext : valueNext rest = true) :
    ∃ m ∈ findall (resultRegex py) (followingText lines), '\n' ∈ m.blank := by
  induction lines with
  | nil => exact absurd (List.suffix_nil.mp hrest) (List.cons_ne_nil _ _)
  | cons l lines ih =>
    match List.suffix_cons_iff.mp hrest with
    | .inl heq =>
      obtain ⟨rfl, rfl⟩ := List.cons.inj heq
      obtain ⟨m, hm, hnewline⟩ := resultRegex_malformed_of_valueNext h f hnext
      refine ⟨m, ?_, hnewline⟩
      rw [findall_followingText resultRegex_anchored]
      show m ∈ findall _ ((OutputLine.malformed f).text ++ followingText rest)
      rw [hm]
      exact List.mem_cons_self
    | .inr htail =>
      obtain ⟨m, hm, hnewline⟩ := ih htail
      exact ⟨m, (findall_resultRegex_suffix h l lines).subset hm, hnewline⟩

/-- Every field is found, with a value or without. -/
theorem findall_resultEmptyRegex (h : py.Documented) (lines : List (OutputLine py)) :
    findall (resultEmptyRegex py) (followingText lines) = lines.filterMap OutputLine.field? := by
  induction lines with
  | nil => rfl
  | cons l lines ih =>
    rw [findall_followingText resultEmptyRegex_anchored]
    show findall _ (l.text ++ followingText lines) = _
    match l with
    | .noise t => exact (findall_noise resultEmptyRegex_anchored t.no_result lines).trans ih
    | .wellFormed f v unit =>
      rw [resultEmptyRegex_wellFormed h, ih]
      rfl
    | .malformed f =>
      rw [resultEmptyRegex_malformed h, ih]
      rfl

/-! ## The dictionary -/

/-- Of the keys that are assigned in turn the last assignment holds. -/
theorem lookup_foldl_lower (lower : Text → Text) (value : Text → List Text) (fields : List Text)
    (ret : ParsedEntry) (k : Text) :
    (fields.foldl (fun ret f => ret.insert (lower f) (value f)) ret).lookup k =
      ((fields.filter fun f => lower f = k).getLast?.map value).or (ret.lookup k) := by
  induction fields generalizing ret with
  | nil => rfl
  | cons f fields ih =>
    rw [List.foldl_cons, ih]
    by_cases hk : lower f = k
    · rw [List.filter_cons, if_pos (decide_eq_true hk), List.getLast?_cons, ← hk,
        AList.lookup_insert]
      match (fields.filter fun g => lower g = lower f).getLast? with
      | none => rfl
      | some g => rfl
    · rw [List.filter_cons_of_neg (by simpa using hk), AList.lookup_insert_ne (Ne.symm hk)]

/-- The values of a key, whatever the spelling, and `NaN` for a field without one. -/
def expectedValues (lower : Text → Text) (results : List (Text × Text)) (fields : List Text)
    (k : Text) : Option (List Text) :=
  let values := (results.filter fun r => lower r.1 = k).map Prod.snd
  if values ≠ [] then some values
  else if fields.any fun f => lower f = k then some ["NaN".toList] else none

/-- A field that has a value has one spelling. -/
def OneSpelling (lower : Text → Text) (results : List (Text × Text)) (fields : List Text) : Prop :=
  ∀ f ∈ fields, ∀ g ∈ fields, lower f = lower g → f ≠ g →
    f ∉ results.map Prod.fst ∧ g ∉ results.map Prod.fst

/-- The two loops, for fields with values and fields without. -/
def parsedEntry (lower : Text → Text) (results : List (Text × Text))
    (valued others : List Text) : ParsedEntry :=
  others.foldl (fun ret f => ret.insert (lower f) ["NaN".toList])
    (valued.foldl (fun ret f => ret.insert (lower f)
      ((results.filter fun r => r.1 = f).map Prod.snd)) ∅)

section
variable {lower : Text → Text} {results : List (Text × Text)} {fields valued others : List Text}
  (hfields : ∀ r ∈ results, r.1 ∈ fields) (hvalues : ∀ r ∈ results, r.2 ≠ "NaN".toList)
  (hvalued : ∀ f, f ∈ valued ↔ f ∈ results.map Prod.fst)
  (hothers : ∀ f, f ∈ others ↔ f ∈ fields ∧ f ∉ results.map Prod.fst)

theorem lookup_parsedEntry (k : Text) :
    (parsedEntry lower results valued others).lookup k =
      if (others.filter fun f => lower f = k) ≠ [] then some ["NaN".toList]
      else (valued.filter fun f => lower f = k).getLast?.map fun f =>
        (results.filter fun r => r.1 = f).map Prod.snd := by
  rw [parsedEntry, lookup_foldl_lower lower (fun _ => ["NaN".toList]), lookup_foldl_lower,
    AList.lookup_empty, Option.or_none]
  match hfilter : others.filter fun f => lower f = k with
  | [] => rfl
  | f :: rest => rw [List.getLast?_cons]; rfl

include hvalued hothers

/-- A key without a value. -/
theorem lookup_of_no_value {k : Text} (hk : ∀ r ∈ results, lower r.1 ≠ k) :
    (parsedEntry lower results valued others).lookup k = expectedValues lower results fields k := by
  have hnone : (results.filter fun r => lower r.1 = k).map Prod.snd = [] := by
    rw [List.map_eq_nil_iff, List.filter_eq_nil_iff]
    exact fun r hr hlower => hk r hr (of_decide_eq_true hlower)
  have hnotValued : ∀ f, lower f = k → f ∉ results.map Prod.fst := by
    intro f hlower hf
    obtain ⟨r, hr, rfl⟩ := List.mem_map.mp hf
    exact hk r hr hlower
  have hvaluedNil : (valued.filter fun f => lower f = k) = [] := by
    rw [List.filter_eq_nil_iff]
    exact fun f hf hlower => hnotValued f (of_decide_eq_true hlower) ((hvalued f).mp hf)
  rw [lookup_parsedEntry, hvaluedNil]
  unfold expectedValues
  simp only
  rw [if_neg (not_not.mpr hnone)]
  by_cases hmissing : (fields.any fun f => lower f = k) = true
  · obtain ⟨f, hf, hlower⟩ := List.any_eq_true.mp hmissing
    have hother := (hothers f).mpr ⟨hf, hnotValued f (of_decide_eq_true hlower)⟩
    rw [if_pos hmissing, if_pos (List.ne_nil_of_mem (List.mem_filter.mpr ⟨hother, hlower⟩))]
  · have hothersNil : (others.filter fun f => lower f = k) = [] := by
      rw [List.filter_eq_nil_iff]
      exact fun f hf hlower => hmissing (List.any_eq_true.mpr ⟨f, ((hothers f).mp hf).1, hlower⟩)
    rw [if_neg hmissing, if_neg (not_not.mpr hothersNil)]
    rfl

include hfields

/-- A key with a value, if the field has one spelling. -/
theorem lookup_of_value (h : OneSpelling lower results fields) {r : Text × Text}
    (hr : r ∈ results) :
    (parsedEntry lower results valued others).lookup (lower r.1) =
      expectedValues lower results fields (lower r.1) := by
  have hname : r.1 ∈ results.map Prod.fst := List.mem_map_of_mem hr
  -- another spelling would be a field too
  have hunique : ∀ g ∈ fields, lower g = lower r.1 → g = r.1 := by
    intro g hg hlower
    by_contra hne
    exact (h g hg r.1 (hfields r hr) hlower hne).2 hname
  have hno : (others.filter fun f => lower f = lower r.1) = [] := by
    rw [List.filter_eq_nil_iff]
    intro g hg hlower
    obtain ⟨hgfields, hgnone⟩ := (hothers g).mp hg
    rw [hunique g hgfields (of_decide_eq_true hlower)] at hgnone
    exact hgnone hname
  have hsame : (results.filter fun q => lower q.1 = lower r.1) =
      results.filter fun q => q.1 = r.1 := by
    refine List.filter_congr fun q hq => ?_
    rw [decide_eq_decide]
    exact ⟨hunique q.1 (hfields q hq), fun heq => heq ▸ rfl⟩
  have hne : (results.filter fun q => lower q.1 = lower r.1).map Prod.snd ≠ [] := by
    rw [Ne, List.map_eq_nil_iff, List.filter_eq_nil_iff]
    exact fun hall => hall r hr (decide_eq_true rfl)
  rw [lookup_parsedEntry, if_neg (not_not.mpr hno)]
  unfold expectedValues
  simp only
  rw [if_pos hne, hsame]
  match hlast : (valued.filter fun f => lower f = lower r.1).getLast? with
  | none =>
    rw [List.getLast?_eq_none_iff, List.filter_eq_nil_iff] at hlast
    exact absurd (decide_eq_true rfl) (hlast r.1 ((hvalued r.1).mpr hname))
  | some g =>
    obtain ⟨hg, hlower⟩ := List.mem_filter.mp (List.mem_of_getLast? hlast)
    obtain ⟨q, hq, hqg⟩ := List.mem_map.mp ((hvalued g).mp hg)
    rw [hunique g (hqg ▸ hfields q hq) (of_decide_eq_true hlower)]
    rfl

include hvalues

omit hfields hvalued in
/-- Two spellings of a field, one of them with a value: a value is missing. -/
theorem lookup_ne_of_two_spellings {f g : Text} (hg : g ∈ fields) (hlower : lower f = lower g)
    (hne : f ≠ g) {r : Text × Text} (hr : r ∈ results) (hrf : r.1 = f) :
    (parsedEntry lower results valued others).lookup (lower f) ≠
      expectedValues lower results fields (lower f) := by
  have hmem : r ∈ results.filter fun q => lower q.1 = lower f :=
    List.mem_filter.mpr ⟨hr, decide_eq_true (hrf ▸ rfl)⟩
  have hvaluesNe : (results.filter fun q => lower q.1 = lower f).map Prod.snd ≠ [] :=
    List.ne_nil_of_mem (List.mem_map_of_mem hmem)
  rw [lookup_parsedEntry]
  unfold expectedValues
  simp only
  rw [if_pos hvaluesNe]
  by_cases hother : (others.filter fun f' => lower f' = lower f) = []
  · -- the other spelling has a value as well, and only one of the two is kept
    have hgname : g ∈ results.map Prod.fst := by
      by_contra hnot
      rw [List.filter_eq_nil_iff] at hother
      exact hother g ((hothers g).mpr ⟨hg, hnot⟩) (decide_eq_true hlower.symm)
    obtain ⟨q, hq, hqg⟩ := List.mem_map.mp hgname
    rw [if_neg (not_not.mpr hother)]
    intro heq
    obtain ⟨last, hlast, heq⟩ := Option.map_eq_some_iff.mp heq
    have hlastLower := of_decide_eq_true (List.mem_filter.mp (List.mem_of_getLast? hlast)).2
    have hlost : ∃ p ∈ results.filter (fun q => lower q.1 = lower f), ¬ p.1 = last := by
      by_cases hlastf : f = last
      · exact ⟨q, List.mem_filter.mpr ⟨hq, decide_eq_true (hqg ▸ hlower.symm)⟩, by
          rw [hqg, ← hlastf]
          exact hne.symm⟩
      · exact ⟨r, hmem, hrf ▸ hlastf⟩
    have hsub : (results.filter fun q => q.1 = last) =
        (results.filter fun q => lower q.1 = lower f).filter fun q => q.1 = last := by
      rw [List.filter_filter]
      refine List.filter_congr fun p _ => ?_
      by_cases hp : p.1 = last
      · rw [hp, decide_eq_true hlastLower, Bool.and_true]
      · rw [decide_eq_false hp, Bool.false_and]
    have hlength := congrArg List.length heq
    rw [List.length_map, List.length_map, hsub] at hlength
    obtain ⟨p, hp, hplast⟩ := hlost
    have hlt := (List.length_filter_lt_length_iff_exists
      (p := fun q : Text × Text => decide (q.1 = last))).mpr ⟨p, hp, by simpa using hplast⟩
    omega
  · -- the other spelling has none, so there is `NaN`
    rw [if_pos hother]
    intro heq
    have hnan : r.2 ∈ ["NaN".toList] := by
      rw [Option.some.inj heq]
      exact List.mem_map_of_mem hmem
    exact hvalues r hr (List.mem_singleton.mp hnan)

/-- The dictionary is right exactly if fields with a value have one spelling. -/
theorem lookup_parsedEntry_iff :
    (∀ k, (parsedEntry lower results valued others).lookup k =
      expectedValues lower results fields k) ↔ OneSpelling lower results fields := by
  constructor
  · intro h f hf g hg hlower hne
    constructor
    · intro hname
      obtain ⟨r, hr, hrf⟩ := List.mem_map.mp hname
      exact lookup_ne_of_two_spellings hvalues hothers hg hlower hne hr hrf
        (h (lower f))
    · intro hname
      obtain ⟨r, hr, hrg⟩ := List.mem_map.mp hname
      exact lookup_ne_of_two_spellings hvalues hothers hf hlower.symm hne.symm hr
        hrg (h (lower g))
  · intro h k
    by_cases hk : ∃ r ∈ results, lower r.1 = k
    · obtain ⟨r, hr, rfl⟩ := hk
      exact lookup_of_value hfields hvalued hothers h hr
    · exact lookup_of_no_value hvalued hothers fun r hr hlower => hk ⟨r, hr, hlower⟩

end

/-! ## The function -/

/-- What the function makes of an output whose matches are those of the well-formed lines. -/
theorem hostParseSingleResult_eq (h : py.Documented) {lines : List (OutputLine py)}
    (hnone : NoValueAfter lines) :
    hostParseSingleResult py (outputText lines) = parsedEntry py.lower
      (lines.filterMap OutputLine.result?) (py.listSet ((lines.filterMap OutputLine.result?).map
        Prod.fst)) ((py.listSet (lines.filterMap OutputLine.field?)).filter fun f =>
          !(py.listSet ((lines.filterMap OutputLine.result?).map Prod.fst)).contains f) := by
  have hresults := findall_resultRegex h hnone
  have hempty := findall_resultEmptyRegex h lines
  rw [findall_followingText resultRegex_anchored] at hresults
  rw [findall_followingText resultEmptyRegex_anchored] at hempty
  have hfields : (ownMatches lines).map ResultMatch.field =
      (lines.filterMap OutputLine.result?).map Prod.fst := by
    rw [ownMatches, List.map_map]
    rfl
  have hvalues : ∀ f, valuesOf (ownMatches lines) f =
      ((lines.filterMap OutputLine.result?).filter fun r => r.1 = f).map Prod.snd := by
    intro f
    rw [valuesOf, ownMatches, List.filter_map, List.map_map]
    rfl
  simp only [hostParseSingleResult, hresults, hempty, hfields, hvalues]
  rfl

/-- Each field has the values of its own well-formed lines, in their order, or `NaN`, and no value
is from another line. -/
structure LineFaithful (py : PyText) (lines : List (OutputLine py)) : Prop where
  entry : ∀ k, (hostParseSingleResult py (outputText lines)).lookup k =
    expectedValues py.lower (lines.filterMap OutputLine.result?)
      (lines.filterMap OutputLine.field?) k
  ownLine : ∀ m ∈ findall (resultRegex py) (outputText lines), '\n' ∉ m.blank

theorem field?_of_result? {l : OutputLine py} {r : Text × Text} (hr : l.result? = some r) :
    l.field? = some r.1 := by
  match l with
  | .noise t => cases hr
  | .malformed f => cases hr
  | .wellFormed f v unit =>
    obtain rfl := Option.some.inj hr
    rfl

theorem ne_nan_of_result? {l : OutputLine py} {r : Text × Text} (hr : l.result? = some r) :
    r.2 ≠ "NaN".toList := by
  match l with
  | .noise t => cases hr
  | .malformed f => cases hr
  | .wellFormed f v unit =>
    obtain rfl := Option.some.inj hr
    intro hnan
    have hN : 'N' ∈ v.text := by
      rw [show v.text = "NaN".toList from hnan]
      decide
    exact absurd (v.chars 'N' hN) (by decide)

/-- A line with a result has its field. -/
theorem mem_fields_of_mem_results {lines : List (OutputLine py)} {r : Text × Text}
    (hr : r ∈ lines.filterMap OutputLine.result?) : r.1 ∈ lines.filterMap OutputLine.field? := by
  obtain ⟨l, hl, hlr⟩ := List.mem_filterMap.mp hr
  exact List.mem_filterMap.mpr ⟨l, hl, field?_of_result? hlr⟩

/-- The fields of which no value was found. -/
theorem mem_fields_without_value (h : py.Documented) (lines : List (OutputLine py)) (f : Text) :
    f ∈ (py.listSet (lines.filterMap OutputLine.field?)).filter (fun f =>
        !(py.listSet ((lines.filterMap OutputLine.result?).map Prod.fst)).contains f) ↔
      f ∈ lines.filterMap OutputLine.field? ∧
        f ∉ (lines.filterMap OutputLine.result?).map Prod.fst := by
  rw [List.mem_filter, h.listSet_mem, Bool.not_eq_true', ← Bool.not_eq_true,
    List.contains_iff_mem, h.listSet_mem]

/-- The dictionary of the lines is right exactly if no line without a value is followed by a
number, and no field that has a value is spelled in two ways. -/
theorem hostParseSingleResult_lineFaithful_iff (h : py.Documented) (lines : List (OutputLine py)) :
    LineFaithful py lines ↔ NoValueAfter lines ∧ OneSpelling py.lower
      (lines.filterMap OutputLine.result?) (lines.filterMap OutputLine.field?) := by
  have hvalues : ∀ r ∈ lines.filterMap OutputLine.result?, r.2 ≠ "NaN".toList := by
    intro r hr
    obtain ⟨l, _, hlr⟩ := List.mem_filterMap.mp hr
    exact ne_nan_of_result? hlr
  have hentry : NoValueAfter lines → ((∀ k,
      (hostParseSingleResult py (outputText lines)).lookup k = expectedValues py.lower
        (lines.filterMap OutputLine.result?) (lines.filterMap OutputLine.field?) k) ↔
      OneSpelling py.lower (lines.filterMap OutputLine.result?)
        (lines.filterMap OutputLine.field?)) := by
    intro hnone
    rw [hostParseSingleResult_eq h hnone]
    exact lookup_parsedEntry_iff (fun _ => mem_fields_of_mem_results) hvalues (h.listSet_mem _)
      (mem_fields_without_value h lines)
  constructor
  · intro hfaithful
    -- a value of another line is matched across a line feed
    have hnone : NoValueAfter lines := by
      intro f rest hrest
      by_contra hnext
      obtain ⟨m, hm, hnewline⟩ := exists_newline_of_valueNext h hrest (by simpa using hnext)
      rw [findall_followingText resultRegex_anchored] at hm
      exact hfaithful.ownLine m hm hnewline
    exact ⟨hnone, (hentry hnone).mp hfaithful.entry⟩
  · intro ⟨hnone, hspelling⟩
    refine ⟨(hentry hnone).mpr hspelling, ?_⟩
    intro m hm
    rw [← findall_followingText resultRegex_anchored, findall_resultRegex h hnone] at hm
    obtain ⟨r, _, rfl⟩ := List.mem_map.mp hm
    show '\n' ∉ [' ']
    decide

/-! ## Two outputs -/

/-- The classes of ASCII characters. -/
def asciiText : PyText where
  isWord c := c.isAlphanum || c = '_'
  isDecimal := Char.isDigit
  lower := List.map Char.toLower
  listSet := List.dedup

theorem not_isSpace_of_isAlpha {c : Char} (h : c.isAlpha = true) : Text.isSpace c = false := by
  have hval : (decide (65 ≤ c.val ∧ c.val ≤ 90) ||
      decide (97 ≤ c.val) && decide (c.val ≤ 122)) = true := h
  have hb : (65 ≤ c.toNat ∧ c.toNat ≤ 90) ∨ (97 ≤ c.toNat ∧ c.toNat ≤ 122) := by
    simpa [UInt32.le_iff_toNat_le] using hval
  simp only [Text.isSpace, Bool.or_eq_false_iff, Bool.and_eq_false_iff, decide_eq_false_iff_not]
  omega

theorem asciiText_documented : asciiText.Documented where
  word_not_space := by
    intro c hc
    have hcases : (c.isAlpha = true ∨ c.isDigit = true) ∨ c = '_' := by
      simpa [asciiText, Char.isAlphanum] using hc
    match hcases with
    | .inl (.inl halpha) => exact not_isSpace_of_isAlpha halpha
    | .inl (.inr hdigit) => exact Text.not_isSpace_of_isDigit hdigit
    | .inr hlow => subst hlow; decide
  decimal_not_space := fun _ hc => Text.not_isSpace_of_isDigit hc
  decimal_ascii := fun _ _ => rfl
  listSet_mem := fun _ _ => List.mem_dedup

/-- The field `x`. -/
def fieldX : FieldName asciiText where
  text := ['x']
  nonempty := List.cons_ne_nil _ _
  chars := List.forall_mem_singleton.mpr rfl

/-- The value `5`. -/
def five : DecimalText where
  text := ['5']
  nonempty := List.cons_ne_nil _ _
  chars := List.forall_mem_singleton.mpr (Or.inl rfl)

/-- A line with a number. -/
def noiseFive : NoiseText where
  text := ['5']
  no_newline := fun h => absurd (List.mem_singleton.mp h) (by decide)
  no_result := fun h => absurd h.length_le (by decide)

/-- A line without a value before one with a value. -/
def missingFirst : List (OutputLine asciiText) :=
  [.malformed fieldX, .wellFormed fieldX five none]

theorem hostParseSingleResult_lineFaithful_iff_missingFirst :
    LineFaithful asciiText missingFirst ↔ NoValueAfter missingFirst ∧ OneSpelling asciiText.lower
      (missingFirst.filterMap OutputLine.result?) (missingFirst.filterMap OutputLine.field?) :=
  hostParseSingleResult_lineFaithful_iff asciiText_documented missingFirst

/-- The number on the next line is taken for the value that is missing. -/
theorem not_lineFaithful_nextLine :
    ¬ LineFaithful asciiText [.malformed fieldX, .noise noiseFive] := by
  intro h
  have hlookup : (hostParseSingleResult asciiText "RESULT-x \n5".toList).lookup ['x'] =
      some ["NaN".toList] := h.entry ['x']
  exact absurd hlookup (by decide +kernel)

end Autotest
end PamoRxpBench
