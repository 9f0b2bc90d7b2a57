import PamoRxpBench.Data.RuleSampler
import PamoRxpBench.Library.Brackets

/-!
# `data`: what the Hyperscan export does to a pattern

`to_hyperscan` puts a backslash before `^ { } $` in everything that looks like a bracket
expression, so that Hyperscan reads the same sets. It takes the `^` of a negated bracket
expression for an element, and a bracket with a backslash for the start of an expression.

* `subGroups_eq_mark`: the two nested substitutions are one pass;
* `glyphs_mark`: on the characters of the pattern that pass only adds backslashes;
* `exportPreserves_iff`: when the exported patterns are read as the given ones.
-/

namespace PamoRxpBench
namespace Data

open Brackets

/-- The characters `escape_chars` looks for. -/
def special : List Char := "^{}$".toList

theorem mem_special {c : Char} : c ∈ special ↔ c = '^' ∨ c = '{' ∨ c = '}' ∨ c = '$' := by
  rw [show special = ['^', '{', '}', '$'] from by decide]
  simp only [List.mem_cons, List.not_mem_nil, or_false]

theorem inert_of_special {c : Char} (h : c ∈ special) : Inert c := by
  rcases mem_special.mp h with rfl | rfl | rfl | rfl <;> decide

/-! ## One pass over a group -/

/-- All characters of `chars` that do not follow a backslash get one. -/
def escapeAll (chars : List Char) : Bool → Text → Text
  | _, [] => []
  | behind, c :: s =>
    (if c ∈ chars ∧ behind = false then ['\\', c] else [c]) ++ escapeAll chars (c = '\\') s

theorem escapeAll_nil (behind : Bool) (s : Text) : escapeAll [] behind s = s := by
  induction s generalizing behind with
  | nil => rfl
  | cons c s ih => simp [escapeAll, ih]

/-- One more substitution: the backslashes it finds are those of the text and its own. -/
theorem escapeChar_escapeAll {char : Char} {chars : List Char} (hnew : char ∉ chars)
    (hslash : '\\' ∉ char :: chars) (behind : Bool) (s : Text) :
    escapeChar char behind (escapeAll chars behind s) = escapeAll (char :: chars) behind s := by
  have hchar : char ≠ '\\' := fun h => hslash (h ▸ List.mem_cons_self)
  induction s generalizing behind with
  | nil => rfl
  | cons c s ih =>
    have hstep := ih (c = '\\')
    unfold escapeAll
    by_cases hc : c ∈ chars ∧ behind = false
    · -- escaped before: the new backslash is before `c`, and `c` is not `char`
      have hne : c ≠ char := fun h => hnew (h ▸ hc.1)
      have hcs : c ∈ char :: chars ∧ behind = false := ⟨List.mem_cons_of_mem _ hc.1, hc.2⟩
      rw [if_pos hc, if_pos hcs]
      simp [escapeChar, hne, hchar.symm, hstep]
    · rw [if_neg hc]
      by_cases heq : c = char ∧ behind = false
      · obtain ⟨rfl, hbehind⟩ := heq
        rw [if_pos ⟨List.mem_cons_self, hbehind⟩]
        simp [escapeChar, hbehind, ← hstep]
      · have hcs : ¬ (c ∈ char :: chars ∧ behind = false) := by
          rintro ⟨hmem, hb⟩
          rcases List.mem_cons.mp hmem with h | h
          · exact heq ⟨h, hb⟩
          · exact hc ⟨h, hb⟩
        rw [if_neg hcs]
        simp [escapeChar, heq, hstep]

theorem escapeAll_congr {chars chars' : List Char} (h : ∀ c, c ∈ chars ↔ c ∈ chars')
    (behind : Bool) (s : Text) : escapeAll chars behind s = escapeAll chars' behind s := by
  induction s generalizing behind with
  | nil => rfl
  | cons c s ih => simp only [escapeAll, h, ih]

/-- The four substitutions of `escape_chars` in one pass. -/
theorem escapeChars_eq (s : Text) : escapeChars s = escapeAll special false s := by
  calc escapeChars s
      = escapeChar '$' false (escapeChar '}' false (escapeChar '{' false
          (escapeChar '^' false (escapeAll [] false s)))) := by rw [escapeAll_nil]; rfl
    _ = escapeAll ['$', '}', '{', '^'] false s := by
        rw [escapeChar_escapeAll (by decide) (by decide),
          escapeChar_escapeAll (by decide) (by decide),
          escapeChar_escapeAll (by decide) (by decide),
          escapeChar_escapeAll (by decide) (by decide)]
    _ = escapeAll special false s := by
        apply escapeAll_congr
        intro c
        rw [mem_special]
        simp only [List.mem_cons, List.not_mem_nil, or_false]
        grind

/-- Whether a text, read after `behind`, ends in a backslash. -/
def endsBehind (behind : Bool) (s : Text) : Bool := s.foldl (fun _ c => c = '\\') behind

/-- The last character is escaped if it is special and no backslash stands before it. -/
theorem escapeAll_concat (chars : List Char) (behind : Bool) (s : Text) (c : Char) :
    escapeAll chars behind (s ++ [c]) = escapeAll chars behind s ++
      (if c ∈ chars ∧ endsBehind behind s = false then ['\\', c] else [c]) := by
  induction s generalizing behind with
  | nil =>
    simp only [escapeAll, List.nil_append, List.append_nil]
    rfl
  | cons d s ih =>
    rw [List.cons_append, escapeAll, ih, escapeAll, List.append_assoc]
    rfl

/-! ## One pass over a pattern -/

/-- Whether a group is open after `c`. -/
def opens (inGroup : Bool) (c : Char) : Bool :=
  if c = '[' then true else if c = ']' then false else inGroup

/-- The pass: inside a group that is closed later, the special characters that do not follow a
backslash get one. -/
def mark : Bool → Bool → Text → Text
  | _, _, [] => []
  | inGroup, behind, c :: s =>
    (if c ∈ special ∧ inGroup = true ∧ behind = false ∧ ']' ∈ s then ['\\', c] else [c]) ++
      mark (opens inGroup c) (c = '\\') s

/-- Without a closing bracket there is no group. -/
theorem mark_of_not_mem {s : Text} (h : ']' ∉ s) (inGroup behind : Bool) :
    mark inGroup behind s = s := by
  induction s generalizing inGroup behind with
  | nil => rfl
  | cons c s ih =>
    have hs : ']' ∉ s := fun hm => h (List.mem_cons_of_mem c hm)
    simp [mark, hs, ih hs]

/-- A bracket that is not closed is left as it is. -/
theorem subGroups_of_not_mem (repl : Text → Text) {s : Text} (h : ']' ∉ s) (group : Text) :
    subGroups repl (some group) s = group ++ s := by
  induction s generalizing group with
  | nil => simp [subGroups]
  | cons c s ih =>
    have hc : c ≠ ']' := fun heq => h (heq ▸ List.mem_cons_self)
    have hs : ']' ∉ s := fun hm => h (List.mem_cons_of_mem c hm)
    rw [subGroups, if_neg hc, ih hs, List.append_assoc]
    rfl

/-- Outside a group the substitution opens one at a bracket, and copies any other character. -/
theorem subGroups_none_cons {c : Char} {s : Text}
    (hout : ∀ behind, subGroups escapeChars none s = mark false behind s)
    (hin : ∀ group, ']' ∈ s → subGroups escapeChars (some group) s =
      escapeAll special false group ++ mark true (endsBehind false group) s) (behind : Bool) :
    subGroups escapeChars none (c :: s) = mark false behind (c :: s) := by
  have hplain : mark false behind (c :: s) = c :: mark (opens false c) (c = '\\') s := by
    simp [mark]
  rw [hplain]
  by_cases hc : c = '['
  · subst hc
    rw [subGroups, if_pos rfl]
    by_cases hclose : ']' ∈ s
    · rw [hin _ hclose]
      rfl
    · -- the group is never closed, so it is not one
      rw [subGroups_of_not_mem _ hclose, mark_of_not_mem hclose]
      rfl
  · have hopen : opens false c = false := by
      unfold opens
      rw [if_neg hc, ite_self]
    rw [subGroups, if_neg hc, hopen, hout]

/-- Inside a group it escapes the group at the closing bracket, and reads on before it. -/
theorem subGroups_some_cons {c : Char} {s : Text}
    (hout : ∀ behind, subGroups escapeChars none s = mark false behind s)
    (hin : ∀ group, ']' ∈ s → subGroups escapeChars (some group) s =
      escapeAll special false group ++ mark true (endsBehind false group) s)
    (group : Text) (hclose : ']' ∈ c :: s) :
    subGroups escapeChars (some group) (c :: s) =
      escapeAll special false group ++ mark true (endsBehind false group) (c :: s) := by
  by_cases hc : c = ']'
  · subst hc
    rw [subGroups, if_pos rfl, escapeChars_eq, escapeAll_concat, hout false]
    have hspecial : ']' ∉ special := by decide
    simp [mark, hspecial, opens]
  · have hs : ']' ∈ s := (List.mem_cons.mp hclose).resolve_left (Ne.symm hc)
    have hopen : opens true c = true := by
      unfold opens
      rw [if_neg hc, ite_self]
    have hends : endsBehind false (group ++ [c]) = decide (c = '\\') := by
      simp [endsBehind]
    rw [subGroups, if_neg hc, hin _ hs, escapeAll_concat, hends, mark, hopen,
      List.append_assoc]
    simp [hs]

/-- The substitution is the pass, from both of its states. -/
theorem subGroups_eq (s : Text) :
    (∀ behind, subGroups escapeChars none s = mark false behind s) ∧
    (∀ group, ']' ∈ s → subGroups escapeChars (some group) s =
      escapeAll special false group ++ mark true (endsBehind false group) s) := by
  induction s with
  | nil => exact ⟨fun _ => rfl, fun _ h => absurd h List.not_mem_nil⟩
  | cons c s ih => exact ⟨subGroups_none_cons ih.1 ih.2, subGroups_some_cons ih.1 ih.2⟩

/-- The substitution of `to_hyperscan` in one pass. -/
theorem subGroups_eq_mark (s : Text) : subGroups escapeChars none s = mark false false s :=
  (subGroups_eq s).1 false

/-! ## The pass on the characters of a pattern -/

/-- Whether a group that starts in `pre`, with or without a backslash before its bracket, is
open after it. -/
def groupOpen (pre : List Glyph) : Bool := (pre.map Glyph.char).foldl opens false

/-- The export puts a backslash before `c`, which stands between `pre` and `post`. -/
def Escaped (pre : List Glyph) (c : Char) (post : List Glyph) : Prop :=
  c ∈ special ∧ groupOpen pre = true ∧ pre.getLast? ≠ some (.escaped '\\') ∧
    ']' ∈ post.map Glyph.char

instance (pre : List Glyph) (c : Char) (post : List Glyph) : Decidable (Escaped pre c post) :=
  inferInstanceAs (Decidable (_ ∧ _ ∧ _ ∧ _))

/-- The characters of the exported pattern; those of `pre` come before. -/
def sweep : List Glyph → List Glyph → List Glyph
  | _, [] => []
  | pre, .plain c :: gs =>
    (if Escaped pre c gs then .escaped c else .plain c) :: sweep (pre ++ [.plain c]) gs
  | pre, .escaped c :: gs => .escaped c :: sweep (pre ++ [.escaped c]) gs

theorem groupOpen_concat (pre : List Glyph) (g : Glyph) :
    groupOpen (pre ++ [g]) = opens (groupOpen pre) g.char := by
  simp [groupOpen]

theorem mem_of_glyphs {behind : Bool} {s : Text} {gs : List Glyph}
    (h : glyphs behind s = some gs) : ']' ∈ s ↔ ']' ∈ gs.map Glyph.char := by
  induction s generalizing behind gs with
  | nil =>
    cases behind with
    | false => simp [← Option.some.inj h]
    | true => exact nomatch h
  | cons c s ih =>
    cases behind with
    | false =>
      unfold glyphs at h
      split at h
      · rename_i hc
        rw [← ih h, hc]
        simp
      · obtain ⟨gs, hgs, rfl⟩ := Option.map_eq_some_iff.mp h
        rw [List.mem_cons, ih hgs, List.map_cons, List.mem_cons, Glyph.char]
    | true =>
      unfold glyphs at h
      split at h
      · exact nomatch h
      · obtain ⟨gs, hgs, rfl⟩ := Option.map_eq_some_iff.mp h
        rw [List.mem_cons, ih hgs, List.map_cons, List.mem_cons, Glyph.char]

/-- Whether the last character of `pre` is a backslash that has one itself. -/
def lastBehind (pre : List Glyph) : Bool := pre.getLast? = some (.escaped '\\')

/-- A character without a backslash gets one just when it is `Escaped`. -/
theorem glyphs_mark_plain {pre gs : List Glyph} {c : Char} {s : Text} (hc : c ≠ '\\')
    (hgs : glyphs false s = some gs)
    (htail : glyphs false
        (mark (groupOpen (pre ++ [.plain c])) (lastBehind (pre ++ [.plain c])) s) =
      some (sweep (pre ++ [.plain c]) gs)) :
    glyphs false (mark (groupOpen pre) (lastBehind pre) (c :: s)) =
      some (sweep pre (.plain c :: gs)) := by
  have hbehind : decide (c = '\\') = lastBehind (pre ++ [.plain c]) := by
    simp [lastBehind, hc]
  have hmark : (c ∈ special ∧ groupOpen pre = true ∧ lastBehind pre = false ∧ ']' ∈ s) ↔
      Escaped pre c gs := by
    rw [Escaped, mem_of_glyphs hgs, lastBehind, decide_eq_false_iff_not]
  rw [groupOpen_concat] at htail
  rw [mark, hbehind, sweep]
  show glyphs false (_ ++ mark (opens (groupOpen pre) (Glyph.plain c).char) _ s) = _
  by_cases hescaped : Escaped pre c gs
  · have hkeep : ¬ (c = 'c' ∨ c = 'Q') := by
      rintro (rfl | rfl) <;> exact absurd hescaped.1 (by decide)
    rw [if_pos (hmark.mpr hescaped), if_pos hescaped]
    show glyphs false ('\\' :: c :: mark _ _ s) = _
    rw [glyphs, if_pos rfl, glyphs, if_neg hkeep, htail]
    rfl
  · rw [if_neg fun hm => hescaped (hmark.mp hm), if_neg hescaped]
    show glyphs false (c :: mark _ _ s) = _
    rw [glyphs, if_neg hc, htail]
    rfl

/-- A character after a backslash stays as it is. -/
theorem glyphs_mark_escaped {pre gs : List Glyph} {c : Char} {s : Text}
    (hc : ¬ (c = 'c' ∨ c = 'Q'))
    (htail : glyphs false
        (mark (groupOpen (pre ++ [.escaped c])) (lastBehind (pre ++ [.escaped c])) s) =
      some (sweep (pre ++ [.escaped c]) gs)) :
    glyphs true (mark (groupOpen pre) true (c :: s)) = some (sweep pre (.escaped c :: gs)) := by
  have hbehind : decide (c = '\\') = lastBehind (pre ++ [.escaped c]) := by
    simp [lastBehind]
  rw [groupOpen_concat] at htail
  rw [mark, if_neg fun hm => Bool.noConfusion hm.2.2.1, hbehind, sweep]
  show glyphs true (c :: mark (opens (groupOpen pre) (Glyph.escaped c).char) _ s) = _
  rw [glyphs, if_neg hc, htail]
  rfl

/-- The pass only adds backslashes to characters that have none. -/
theorem glyphs_mark (s : Text) :
    (∀ pre gs, glyphs false s = some gs →
      glyphs false (mark (groupOpen pre) (lastBehind pre) s) = some (sweep pre gs)) ∧
    (∀ pre gs, glyphs true s = some gs →
      glyphs true (mark (groupOpen pre) true s) = some (sweep pre gs)) := by
  induction s with
  | nil =>
    constructor
    · intro pre gs h
      rw [← Option.some.inj h]
      rfl
    · exact fun _ _ h => nomatch h
  | cons c s ih =>
    constructor
    · intro pre gs h
      rw [glyphs] at h
      by_cases hc : c = '\\'
      · -- the backslash itself is not special, and no bracket
        subst hc
        rw [if_pos rfl] at h
        have hspecial : '\\' ∉ special := by decide
        have hopen : opens (groupOpen pre) '\\' = groupOpen pre := rfl
        rw [mark, if_neg fun hm => hspecial hm.1, hopen]
        exact ih.2 pre gs h
      · rw [if_neg hc] at h
        obtain ⟨gs, hgs, rfl⟩ := Option.map_eq_some_iff.mp h
        exact glyphs_mark_plain hc hgs (ih.1 (pre ++ [.plain c]) gs hgs)
    · intro pre gs h
      rw [glyphs] at h
      -- these escapes have no glyph
      by_cases hc : c = 'c' ∨ c = 'Q'
      · rw [if_pos hc] at h
        exact nomatch h
      · rw [if_neg hc] at h
        obtain ⟨gs, hgs, rfl⟩ := Option.map_eq_some_iff.mp h
        exact glyphs_mark_escaped hc (ih.1 (pre ++ [.escaped c]) gs hgs)

theorem glyphs_fixedPattern {line : Text} {gs : List Glyph}
    (h : glyphs false (matchedPattern line) = some gs) :
    glyphs false (fixedPattern line) = some (sweep [] gs) := by
  rw [fixedPattern, subGroups_eq_mark]
  exact (glyphs_mark (matchedPattern line)).1 [] gs h

/-- Escaping changes inert characters to the same ones behind a backslash. -/
theorem alike_sweep (pre gs : List Glyph) : List.Forall₂ Alike gs (sweep pre gs) := by
  induction gs generalizing pre with
  | nil => exact .nil
  | cons g gs ih =>
    cases g with
    | plain c =>
      unfold sweep
      split
      · rename_i h
        exact .cons (.inr ⟨c, inert_of_special h.1, rfl, rfl⟩) (ih _)
      · exact .cons (.refl _) (ih _)
    | escaped c => exact .cons (.refl _) (ih _)

/-! ## When the meaning is kept -/

/-- A backslash at this place does no harm: it is in brackets, and not the negation sign. -/
def Spared (pre : List Glyph) (c : Char) : Prop :=
  openBody pre ≠ none ∧ ¬ (openBody pre = some [] ∧ c = '^')

/-- A place in `g :: gs` is that of `g` or a place in `gs`. -/
theorem forall_places_cons {P : List Glyph → Char → List Glyph → Prop} (pre : List Glyph)
    (g : Glyph) (gs : List Glyph) :
    (∀ xs c ys, g :: gs = xs ++ .plain c :: ys → P (pre ++ xs) c ys) ↔
      (∀ c, g = .plain c → P pre c gs) ∧
      ∀ xs c ys, gs = xs ++ .plain c :: ys → P (pre ++ [g] ++ xs) c ys := by
  constructor
  · intro h
    constructor
    · intro c hg
      have := h [] c gs (by rw [hg]; rfl)
      rwa [List.append_nil] at this
    · intro xs c ys hgs
      have := h (g :: xs) c ys (by rw [hgs]; rfl)
      rwa [List.append_cons] at this
  · rintro ⟨hhead, htail⟩ xs c ys hgs
    cases xs with
    | nil =>
      obtain ⟨hg, rfl⟩ := List.cons.inj hgs
      rw [List.append_nil]
      exact hhead c hg
    | cons x xs =>
      obtain ⟨rfl, hrest⟩ := List.cons.inj hgs
      rw [List.append_cons]
      exact htail xs c ys hrest

/-- Escapes are only made in brackets when every character that gets one is spared. -/
theorem inBrackets_sweep_iff (pre gs : List Glyph) :
    InBrackets (openBody pre) gs (sweep pre gs) ↔
      ∀ xs c ys, gs = xs ++ .plain c :: ys → Escaped (pre ++ xs) c ys → Spared (pre ++ xs) c := by
  induction gs generalizing pre with
  | nil =>
    constructor
    · intro _ xs c ys h
      exact absurd h (by simp)
    · exact fun _ => trivial
  | cons g gs ih =>
    rw [forall_places_cons (P := fun pre c ys => Escaped pre c ys → Spared pre c),
      ← ih (pre ++ [g]), openBody_concat]
    cases g with
    | plain c =>
      rw [sweep, InBrackets]
      apply and_congr_left
      intro _
      by_cases hescaped : Escaped pre c gs
      · simp [hescaped, KeptAt, Spared]
      · simp [hescaped, KeptAt]
    | escaped c =>
      rw [sweep, InBrackets]
      simp [KeptAt]

/-- A negation sign always gets a backslash: the bracket before it opens a group, and the one that
closes the expression closes it. -/
theorem escaped_negation {flavour : Flavour} {pre post : List Glyph} {ps : List Piece}
    (h : pieces flavour none (pre ++ .plain '^' :: post) = some ps)
    (hopen : openBody pre = some []) : Escaped pre '^' post := by
  obtain ⟨ps', hrest⟩ := pieces_append h
  have hpost : pieces flavour (some [.plain '^']) post = some ps' := by
    have hstate : pieces flavour (openBody pre) (.plain '^' :: post) = some ps' := hrest
    rw [hopen, pieces, if_neg (by decide)] at hstate
    exact hstate
  obtain ⟨pre', rfl⟩ := openBody_eq_some_nil hopen
  refine ⟨by decide, ?_, by simp, ?_⟩
  · rw [groupOpen_concat]
    rfl
  · exact List.mem_map_of_mem (pieces_of_open hpost).1

/-- The patterns the export leaves intact: no bracket expression is negated, and no special
character outside brackets stands in a group, that is between a bracket with a backslash and the
next closing bracket. -/
structure Harmless (gs : List Glyph) : Prop where
  not_negated : ∀ pre post, gs = pre ++ .plain '^' :: post → openBody pre ≠ some []
  outside : ∀ pre c post, gs = pre ++ .plain c :: post → openBody pre = none →
    ¬ Escaped pre c post

/-- Escaping is harmless exactly if it is so for each character that gets a backslash. -/
theorem harmless_iff {flavour : Flavour} {gs : List Glyph} {ps : List Piece}
    (h : pieces flavour none gs = some ps) :
    Harmless gs ↔ ∀ xs c ys, gs = xs ++ .plain c :: ys → Escaped xs c ys → Spared xs c := by
  constructor
  · intro hharmless xs c ys hgs hescaped
    refine ⟨fun hout => hharmless.outside xs c ys hgs hout hescaped, ?_⟩
    rintro ⟨hopen, rfl⟩
    exact hharmless.not_negated xs ys hgs hopen
  · intro hspared
    constructor
    · intro pre post hgs hopen
      have hescaped := escaped_negation (hgs ▸ h) hopen
      exact (hspared pre '^' post hgs hescaped).2 ⟨hopen, rfl⟩
    · intro pre c post hgs hout hescaped
      exact (hspared pre c post hgs hescaped).1 hout

/-- The export of one pattern. -/
theorem parse_fixedPattern_iff {flavour : Flavour} {line : Text} {gs : List Glyph}
    {ps : List Piece} (hgs : glyphs false (matchedPattern line) = some gs)
    (hps : pieces flavour none gs = some ps) :
    parse flavour (fixedPattern line) = parse flavour (matchedPattern line) ↔ Harmless gs := by
  rw [harmless_iff hps, parse, parse, glyphs_fixedPattern hgs, hgs, Option.bind_some,
    Option.bind_some, hps, pieces_eq_iff (alike_sweep [] gs) .outside hps]
  exact inBrackets_sweep_iff [] gs

/-! ## The exported file -/

/-- A bare pattern is exported as it stands, but for the backslashes. -/
theorem matchedPattern_bare {line : Text} (h : line.head? ≠ some '/') :
    matchedPattern line = line := by
  have hnone : searchBody line = none := by
    unfold searchBody
    split
    · exact absurd rfl h
    · rfl
  rw [matchedPattern, hnone, Option.getD_none]

/-- In `/body/flags` the body is found. -/
theorem searchBody_delimited {body flags : Text} (hbody : '\n' ∉ body ++ flags)
    (hflags : '/' ∉ flags) : searchBody ('/' :: body ++ '/' :: flags) = some body := by
  have hrun : (body ++ '/' :: flags).takeWhile (· ≠ '\n') = body ++ '/' :: flags := by
    rw [List.takeWhile_eq_self_iff]
    intro c hc
    have : c ≠ '\n' := by
      rintro rfl
      rcases List.mem_append.mp hc with hm | hm
      · exact hbody (List.mem_append_left _ hm)
      · rcases List.mem_cons.mp hm with heq | hm
        · exact absurd heq (by decide)
        · exact hbody (List.mem_append_right _ hm)
    simpa using this
  have hdrop : (body ++ '/' :: flags).rdropWhile (· ≠ '/') = body ++ ['/'] := by
    rw [List.append_cons, List.rdropWhile, List.reverse_append, List.dropWhile_append_of_pos,
      ← List.rdropWhile, List.rdropWhile_concat_neg]
    · simp
    · intro c hc
      have : c ≠ '/' := fun heq => hflags (heq ▸ List.mem_reverse.mp hc)
      simpa using this
  rw [List.cons_append, searchBody, hrun, if_pos (by simp), hdrop, List.dropLast_concat]

/-- Of `/body/flags` the body is exported. -/
theorem matchedPattern_delimited {body flags : Text} (hbody : '\n' ∉ body ++ flags)
    (hflags : '/' ∉ flags) : matchedPattern ('/' :: body ++ '/' :: flags) = body := by
  rw [matchedPattern, searchBody_delimited hbody hflags, Option.getD_some]

theorem exportLines_fixedPattern (i : ℕ) (lines : List Text) :
    exportLines false i lines = .ok (lines.map fixedPattern) := by
  induction lines generalizing i with
  | nil => rfl
  | cons line lines ih =>
    rw [exportLines, exportLine, if_neg (by simp), ih]
    rfl

/-- What the export is for: every pattern is read as the one it is made from, the same
characters outside brackets and the same sets. -/
def ExportPreserves (flavour : Flavour) (parseRule : Text → Option Rule) (file : List Text) :
    Prop :=
  ∃ out, toHyperscan parseRule true false file = .ok (out, none) ∧
    List.Forall₂ (fun line exported =>
      parse flavour exported = parse flavour (matchedPattern line)) (filterWhitespace file) out

/-- The export of a file of patterns keeps their meaning just when it leaves each intact. -/
theorem exportPreserves_iff (flavour : Flavour) (parseRule : Text → Option Rule)
    (file : List Text)
    (hparse : ∀ line ∈ filterWhitespace file, (parse flavour (matchedPattern line)).isSome) :
    ExportPreserves flavour parseRule file ↔
      ∀ line ∈ filterWhitespace file, ∀ gs,
        glyphs false (matchedPattern line) = some gs → Harmless gs := by
  have hexport : toHyperscan parseRule true false file =
      .ok ((filterWhitespace file).map fixedPattern, none) := by
    rw [toHyperscan, if_pos rfl, exportLines_fixedPattern]
    rfl
  have hline : ∀ line ∈ filterWhitespace file,
      (parse flavour (fixedPattern line) = parse flavour (matchedPattern line) ↔
        ∀ gs, glyphs false (matchedPattern line) = some gs → Harmless gs) := by
    intro line hmem
    obtain ⟨ps, hps⟩ := Option.isSome_iff_exists.mp (hparse line hmem)
    obtain ⟨gs, hgs, hpieces⟩ := Option.bind_eq_some_iff.mp hps
    rw [parse_fixedPattern_iff hgs hpieces]
    constructor
    · intro h gs' hgs'
      rwa [Option.some.inj (hgs'.symm.trans hgs)]
    · exact fun h => h gs hgs
  rw [← forall₂_congr hline, ExportPreserves, hexport]
  constructor
  · rintro ⟨out, hout, hall⟩ line hmem
    obtain ⟨rfl, _⟩ := Prod.mk.inj (Except.ok.inj hout)
    exact List.forall₂_same.mp (List.forall₂_map_right_iff.mp hall) line hmem
  · intro hall
    exact ⟨_, rfl, List.forall₂_map_right_iff.mpr (List.forall₂_same.mpr hall)⟩

/-- A bracket that is not the start of an expression starts a group. -/
example : fixedPattern "\\[^a]".toList = "\\[\\^a]".toList := by decide +kernel

/-! ## A negated bracket expression -/

/-- A file with the one pattern `[^a]`. -/
def negatedFile : List Text := ["[^a]\n".toList]

/-- Whether a piece is a bracket expression with the character. -/
def hasMember (c : Char) : Piece → Bool
  | .outside _ => false
  | .bracket _ set => set c

/-- `[^a]` is exported as `[\^a]`, which does not contain `b`. -/
theorem exportPreserves_negated :
    (∀ line ∈ filterWhitespace negatedFile, (parse perl (matchedPattern line)).isSome) ∧
    toHyperscan (fun _ => none) true false negatedFile = .ok (["[\\^a]".toList], none) ∧
    ¬ ExportPreserves perl (fun _ => none) negatedFile := by
  have hexport : toHyperscan (fun _ => none) true false negatedFile =
      .ok (["[\\^a]".toList], none) := by rfl
  refine ⟨by decide +kernel, hexport, ?_⟩
  rintro ⟨out, hout, hall⟩
  rw [hexport] at hout
  obtain ⟨rfl, _⟩ := Prod.mk.inj (Except.ok.inj hout)
  have hlines : filterWhitespace negatedFile = ["[^a]".toList] := by decide +kernel
  rw [hlines] at hall
  obtain ⟨hsame, -⟩ := List.forall₂_cons.mp hall
  have hb := congrArg (fun ps => ps.map fun ps => ps.map (hasMember 'b')) hsame
  revert hb
  decide +kernel

theorem exportPreserves_iff_negated :
    ExportPreserves perl (fun _ => none) negatedFile ↔
      ∀ line ∈ filterWhitespace negatedFile, ∀ gs,
        glyphs false (matchedPattern line) = some gs → Harmless gs :=
  exportPreserves_iff perl (fun _ => none) negatedFile (by decide +kernel)

end Data
end PamoRxpBench
