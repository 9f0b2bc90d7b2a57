import PamoRxpBench.Data.ContentRegex
import PamoRxpBench.Data.ExportTheorems
import PamoRxpBench.Library.Csv

/-!
# `data`: the export of files of patterns

`to_hyperscan` reads a file with one pattern a line. A pattern that was made from a content has
no slash at its front and no special character without a backslash, so it is exported as it
stands. Of a pattern `/body/flags` the export for the tools looks for the delimiters behind the
places where the body occurs in the line, and takes flags that contain the body for another one.

* `toHyperscan_contents`: the patterns made from contents reach Hyperscan as they are;
* `keepsDelimiters_iff`: when delimiters and flags are kept for the tools.
-/

namespace PamoRxpBench
namespace Data

open Brackets (hexDigit)

/-! ## The lines of a file -/

theorem strip_ne_lineFeed (s : Text) : Text.strip s ≠ ['\n'] := by
  intro h
  have hagain := Text.strip_strip s
  rw [h] at hagain
  exact absurd hagain (by decide)

/-- Blank lines are left out, with or without their line feed. -/
theorem filterWhitespace_of_forall₂ {rs ls : List Text}
    (h : List.Forall₂ (fun r l => r = l ∨ r = l ++ ['\n']) rs ls) (hls : ∀ l ∈ ls, '\n' ∉ l) :
    filterWhitespace rs = ls.filter fun l => ¬ Text.strip l = [] := by
  induction h with
  | nil => rfl
  | @cons r l rs ls hrl _ ih =>
    have hl : '\n' ∉ l := hls l List.mem_cons_self
    have htail := ih fun l hmem => hls l (List.mem_cons_of_mem _ hmem)
    have hstrip : Text.strip r = Text.strip l := by
      rcases hrl with rfl | rfl
      · rfl
      · exact Text.strip_concat_of_isSpace (by decide) l
    have hself : l.filter (· ≠ '\n') = l := by
      rw [List.filter_eq_self]
      intro c hc
      exact decide_eq_true fun heq => hl (heq ▸ hc)
    have hfilter : r.filter (· ≠ '\n') = l := by
      rcases hrl with rfl | rfl
      · exact hself
      · rw [List.filter_append, hself]
        exact List.append_nil l
    unfold filterWhitespace at htail ⊢
    rw [List.filter_cons, List.filter_cons, hstrip, ← htail]
    by_cases hblank : Text.strip l = []
    · rw [if_neg (by simp [hblank]), if_neg (by simp [hblank])]
    · have hkeep : ¬ Text.strip l = ['\n'] ∧ ¬ (Text.strip l).length = 0 :=
        ⟨strip_ne_lineFeed l, fun hlen => hblank (List.length_eq_zero_iff.mp hlen)⟩
      rw [if_pos (decide_eq_true hkeep), if_pos (decide_eq_true hblank), List.map_cons, hfilter]

/-- The patterns of a file are its lines that are not blank. -/
theorem filterWhitespace_readlines (file : Text) :
    filterWhitespace (Csv.readlines file) = (Csv.lines file).filter fun l => ¬ Text.strip l = [] :=
  filterWhitespace_of_forall₂ (Csv.readlines_forall₂ file) fun _ hl =>
    (Csv.isLine_of_mem_lines hl).1

/-! ## Shielded characters -/

/-- Every character of `chars` in a text follows a backslash; `behind` says whether one stands
before the text. -/
def Shielded (chars : List Char) : Bool → Text → Prop
  | _, [] => True
  | behind, c :: s => (c ∈ chars → behind = true) ∧ Shielded chars (c = '\\') s

theorem shielded_of_not_mem {chars : List Char} {s : Text} (h : ∀ c ∈ s, c ∉ chars)
    (behind : Bool) : Shielded chars behind s := by
  induction s generalizing behind with
  | nil => trivial
  | cons c s ih =>
    refine ⟨fun hc => absurd hc (h c List.mem_cons_self), ?_⟩
    exact ih (fun d hd => h d (List.mem_cons_of_mem c hd)) _

theorem Shielded.append {chars : List Char} {behind : Bool} {s t : Text}
    (hs : Shielded chars behind s) (ht : ∀ behind, Shielded chars behind t) :
    Shielded chars behind (s ++ t) := by
  induction s generalizing behind with
  | nil => exact ht behind
  | cons c s ih => exact ⟨hs.1, ih hs.2⟩

/-- In a text whose special characters follow a backslash the export finds nothing to do. -/
theorem mark_of_shielded {chars s : Text} (hchars : special ⊆ chars) {behind : Bool}
    (h : Shielded chars behind s) (inGroup : Bool) : mark inGroup behind s = s := by
  induction s generalizing inGroup behind with
  | nil => rfl
  | cons c s ih =>
    have hkeep : ¬ (c ∈ special ∧ inGroup = true ∧ behind = false ∧ ']' ∈ s) := by
      rintro ⟨hc, -, hbehind, -⟩
      rw [h.1 (hchars hc)] at hbehind
      exact Bool.noConfusion hbehind
    rw [mark, if_neg hkeep, ih h.2]
    rfl

theorem head?_of_shielded {chars s : Text} {c : Char} (h : Shielded chars false s)
    (hc : c ∈ chars) : s.head? ≠ some c := by
  match s, h with
  | [], _ => exact fun heq => nomatch heq
  | d :: s, h =>
    intro heq
    exact Bool.noConfusion (h.1 (Option.some.inj heq ▸ hc))

/-! ## Patterns made from contents -/

/-- The characters that change the export of a pattern: a slash at the front, and the special
characters. -/
def guarded : List Char := '/' :: special

theorem mem_guarded {c : Char} :
    c ∈ guarded ↔ c = '/' ∨ c = '^' ∨ c = '{' ∨ c = '}' ∨ c = '$' := by
  rw [guarded, List.mem_cons, mem_special]

/-- Escaped text has a backslash before each guarded character. -/
theorem shielded_escapeSpecial (part : Text) (behind : Bool) :
    Shielded guarded behind (escapeSpecial part) := by
  induction part generalizing behind with
  | nil => trivial
  | cons c part ih =>
    show Shielded guarded behind
      ((if c ∈ ",.^$*+?{}[]\\|()/".toList then ['\\', c] else [c]) ++ escapeSpecial part)
    apply Shielded.append _ ih
    by_cases hc : c ∈ ",.^$*+?{}[]\\|()/".toList
    · rw [if_pos hc]
      exact ⟨fun h => absurd h (by decide), fun _ => rfl, trivial⟩
    · -- a character that needs a backslash is escaped above
      have hplain : c ∉ guarded := by
        intro hmem
        apply hc
        rcases mem_guarded.mp hmem with rfl | rfl | rfl | rfl | rfl <;> decide
      rw [if_neg hc]
      exact ⟨fun h => absurd h hplain, trivial⟩

theorem mem_hexEscapes {c : Char} {s : Text} (h : c ∈ hexEscapes s) :
    c = '\\' ∨ c = 'x' ∨ c ∈ s := by
  fun_induction hexEscapes s with
  | case1 => exact absurd h List.not_mem_nil
  | case2 a => simpa using h
  | case3 a b s ih =>
    simp only [List.mem_cons] at h ih ⊢
    grind

/-- The blocks of a content hold hexadecimal digits and blanks only. -/
def HexParts : Bool → List Text → Prop
  | _, [] => True
  | inHexBlock, part :: parts =>
    (inHexBlock = true → ∀ c ∈ part, (hexDigit c).isSome ∨ c = ' ') ∧ HexParts (!inHexBlock) parts

/-- A content string without line breaks: any text, with blocks of hexadecimal digits and blanks
between bars. -/
structure ContentString where
  text : Text
  line : Csv.IsLine text
  blocks : HexParts false (text.splitOn '|')

/-- Hexadecimal escapes have no guarded character. -/
theorem shielded_hexEscapes {part : Text} (h : ∀ c ∈ part, (hexDigit c).isSome ∨ c = ' ')
    (behind : Bool) : Shielded guarded behind (hexEscapes (part.filter (· ≠ ' '))) := by
  apply shielded_of_not_mem
  intro c hc hmem
  rcases mem_hexEscapes hc with rfl | rfl | hc
  · exact absurd hmem (by decide)
  · exact absurd hmem (by decide)
  · have hdigit : (hexDigit c).isSome := by
      refine (h c (List.mem_of_mem_filter hc)).resolve_right ?_
      exact of_decide_eq_true (List.mem_filter.mp hc).2
    rcases mem_guarded.mp hmem with rfl | rfl | rfl | rfl | rfl <;> exact absurd hdigit (by decide)

theorem shielded_regexParts {inHexBlock : Bool} {parts : List Text} (h : HexParts inHexBlock parts)
    (behind : Bool) : Shielded guarded behind (regexParts inHexBlock parts) := by
  induction parts generalizing inHexBlock behind with
  | nil => trivial
  | cons part parts ih =>
    rw [regexParts]
    apply Shielded.append _ (ih h.2)
    cases inHexBlock with
    | false => exact shielded_escapeSpecial part behind
    | true => exact shielded_hexEscapes (h.1 rfl) behind

/-- The regex has backslashes, the `x` of an escape, and characters of the content. -/
theorem mem_regexParts {inHexBlock : Bool} {parts : List Text} {c : Char}
    (h : c ∈ regexParts inHexBlock parts) : c = '\\' ∨ c = 'x' ∨ ∃ part ∈ parts, c ∈ part := by
  induction parts generalizing inHexBlock with
  | nil => exact absurd h List.not_mem_nil
  | cons part parts ih =>
    rw [regexParts] at h
    rcases List.mem_append.mp h with h | h
    · cases inHexBlock with
      | false =>
        obtain ⟨d, hd, hc⟩ := List.mem_flatMap.mp h
        split at hc
        · rcases List.mem_cons.mp hc with rfl | hc
          · exact .inl rfl
          · exact .inr (.inr ⟨part, List.mem_cons_self, List.mem_singleton.mp hc ▸ hd⟩)
        · exact .inr (.inr ⟨part, List.mem_cons_self, List.mem_singleton.mp hc ▸ hd⟩)
      | true =>
        rcases mem_hexEscapes h with h | h | h
        · exact .inl h
        · exact .inr (.inl h)
        · exact .inr (.inr ⟨part, List.mem_cons_self, List.mem_of_mem_filter h⟩)
    · rcases ih h with h | h | ⟨p, hp, hc⟩
      · exact .inl h
      · exact .inr (.inl h)
      · exact .inr (.inr ⟨p, List.mem_cons_of_mem _ hp, hc⟩)

/-- The pattern made from a content is one line. -/
theorem ContentString.isLine_regex (content : ContentString) :
    Csv.IsLine (suricataContentToRegex content.text) := by
  have hmem : ∀ c, c ≠ '\\' → c ≠ 'x' → c ∈ suricataContentToRegex content.text →
      c ∈ content.text := by
    intro c hslash hx hc
    rcases mem_regexParts hc with h | h | ⟨part, hpart, hc⟩
    · exact absurd h hslash
    · exact absurd h hx
    · exact (Text.of_mem_splitOn hpart hc).1
  exact ⟨fun h => content.line.1 (hmem _ (by decide) (by decide) h),
    fun h => content.line.2 (hmem _ (by decide) (by decide) h)⟩

theorem ContentString.matchedPattern_regex (content : ContentString) :
    matchedPattern (suricataContentToRegex content.text) = suricataContentToRegex content.text :=
  matchedPattern_bare (head?_of_shielded (shielded_regexParts content.blocks false)
    List.mem_cons_self)

theorem ContentString.fixedPattern_regex (content : ContentString) :
    fixedPattern (suricataContentToRegex content.text) = suricataContentToRegex content.text := by
  rw [fixedPattern, content.matchedPattern_regex, subGroups_eq_mark]
  exact mark_of_shielded (List.subset_cons_self '/' special)
    (shielded_regexParts content.blocks false) false

/-- The patterns made from contents reach Hyperscan as they are, without the blank ones: neither
the delimiters nor the bracket expressions that the export looks for occur in one. -/
theorem toHyperscan_contents (parseRule : Text → Option Rule) (contents : List ContentString) :
    toHyperscan parseRule true false
        (Csv.readlines (Csv.unlines (contents.map fun content =>
          suricataContentToRegex content.text))) =
      .ok ((contents.map fun content => suricataContentToRegex content.text).filter fun regex =>
        !regex.all Text.isSpace, none) ∧
    ∀ content ∈ contents,
      matchedPattern (suricataContentToRegex content.text) = suricataContentToRegex content.text ∧
      subGroups escapeChars none (suricataContentToRegex content.text) =
        suricataContentToRegex content.text := by
  constructor
  · have hlines : ∀ l ∈ contents.map fun content => suricataContentToRegex content.text,
        Csv.IsLine l := by
      intro l hl
      obtain ⟨content, -, rfl⟩ := List.mem_map.mp hl
      exact content.isLine_regex
    have hfixed : ∀ l ∈ (contents.map fun content => suricataContentToRegex content.text).filter
        (fun regex => !regex.all Text.isSpace), fixedPattern l = l := by
      intro l hl
      obtain ⟨content, -, rfl⟩ := List.mem_map.mp (List.mem_of_mem_filter hl)
      exact content.fixedPattern_regex
    have hblank : (fun l : Text => decide (¬ Text.strip l = [])) =
        fun regex => !regex.all Text.isSpace := by
      funext l
      rw [Bool.eq_iff_iff, decide_eq_true_eq, Bool.not_eq_true', Text.strip_eq_nil_iff,
        ← List.all_eq_true, Bool.not_eq_true]
    rw [toHyperscan, if_pos rfl, filterWhitespace_readlines, Csv.lines_unlines hlines,
      exportLines_fixedPattern, hblank, List.map_congr_left hfixed, List.map_id']
    rfl
  · intro content _
    have hfixed := content.fixedPattern_regex
    rw [fixedPattern, content.matchedPattern_regex] at hfixed
    exact ⟨content.matchedPattern_regex, hfixed⟩

/-- A content with a block between two characters that are escaped. -/
def blockContent : ContentString where
  text := "[a|0d 0A|$".toList
  line := ⟨by decide, by decide⟩
  blocks := by
    have hsplit : "[a|0d 0A|$".toList.splitOn '|' = ["[a".toList, "0d 0A".toList, ['$']] := by
      decide
    have hhex : "0d 0A".toList.all fun c => (hexDigit c).isSome || c == ' ' := by decide
    rw [hsplit]
    refine ⟨fun h => Bool.noConfusion h, fun _ c hc => ?_, fun h => Bool.noConfusion h, trivial⟩
    simpa using List.all_eq_true.mp hhex c hc

theorem toHyperscan_contents_block :
    toHyperscan (fun _ => none) true false (Csv.readlines (Csv.unlines
        ([blockContent].map fun content => suricataContentToRegex content.text))) =
      .ok (["\\[a\\x0d\\x0A\\$".toList], none) :=
  (toHyperscan_contents (fun _ => none) [blockContent]).1

/-! ## Patterns with delimiters and flags -/

/-- A line `/body/flags`; the last slash is the closing one. -/
structure DelimitedPattern where
  body : Text
  flags : Text
  closing : '/' ∉ flags

def DelimitedPattern.line (p : DelimitedPattern) : Text := '/' :: p.body ++ '/' :: p.flags

/-- What the tools are to read: the number, and the pattern with its delimiters and flags. -/
def DelimitedPattern.toolLine (k : ℕ) (p : DelimitedPattern) : Text :=
  Text.decimal k ++ ':' :: '/' :: subGroups escapeChars none p.body ++ '/' :: p.flags

/-- The export for the tools keeps the delimiters and flags of every pattern of a file. -/
def KeepsDelimiters (parseRule : Text → Option Rule) (file : Text) (ps : List DelimitedPattern) :
    Prop :=
  toHyperscan parseRule true true (Csv.readlines file) =
    .ok ((ps.zipIdx 1).map fun x => x.1.toolLine x.2, none)

/-- The delimiters and flags can be told from the body. A body of slashes only is found at the
front of the line, and from three slashes on the export happens to be right. -/
def DelimitedPattern.Recoverable (p : DelimitedPattern) : Prop :=
  p.body ≠ [] ∧ p.body ≠ ['/', '/'] ∧ ¬ p.body <:+: '/' :: p.flags

/-- The export of a line with a body that is not empty: the text before the body, and the text
from there to the next occurrence of the body. -/
theorem exportLine_split {p : DelimitedPattern} (hline : '\n' ∉ p.body ++ p.flags)
    {a b : Text} {rest : List Text} (hbody : p.body ≠ [])
    (hsplit : Text.splitFrom p.body 0 [] p.line = a :: b :: rest) (i : ℕ) :
    exportLine true i p.line = .ok (p.toolLine (i + 1)) ↔
      a ++ subGroups escapeChars none p.body ++ b =
        '/' :: subGroups escapeChars none p.body ++ '/' :: p.flags := by
  have hsearch : searchBody p.line = some p.body := searchBody_delimited hline p.closing
  have hmatched : matchedPattern p.line = p.body := matchedPattern_delimited hline p.closing
  have hparts : Text.split (matchedPattern p.line) p.line = some (a :: b :: rest) := by
    rw [hmatched, Text.split, if_neg hbody, hsplit]
  rw [exportLine, if_pos ⟨by rw [hsearch]; rfl, rfl⟩, hparts]
  show Except.ok (Text.decimal (i + 1) ++ ':' :: a ++ fixedPattern p.line ++ b) = _ ↔ _
  rw [fixedPattern, hmatched, Except.ok.injEq, DelimitedPattern.toolLine, List.append_assoc,
    List.append_assoc, List.append_assoc, List.append_cancel_left_eq, List.cons_append,
    List.cons_append, List.cons_inj_right, ← List.append_assoc]

/-- A body that starts at the front of the line is made of slashes. -/
theorem eq_replicate_of_prefix {c : Char} {s t : Text} (h : s <+: c :: (s ++ t)) :
    s = List.replicate s.length c := by
  induction s with
  | nil => rfl
  | cons d s ih =>
    obtain ⟨rfl, htail⟩ := List.cons_prefix_cons.mp h
    rw [List.length_cons, List.replicate_succ, ← ih htail]

/-- A body of slashes: the export is right from three slashes on. -/
theorem exportLine_slashes {p : DelimitedPattern} (hline : '\n' ∉ p.body ++ p.flags) {n : ℕ}
    (hbody : p.body = List.replicate (n + 1) '/') (i : ℕ) :
    exportLine true i p.line = .ok (p.toolLine (i + 1)) ↔ 2 ≤ n := by
  have hne : p.body ≠ [] := by
    rw [hbody]
    exact List.cons_ne_nil _ _
  have hfront : p.line = p.body ++ '/' :: '/' :: p.flags := by
    rw [DelimitedPattern.line, hbody, List.cons_append, ← List.cons_append, ← List.replicate_succ,
      List.replicate_succ', List.append_assoc]
    rfl
  have hsplit : Text.splitFrom p.body 0 [] p.line =
      [] :: Text.splitFrom p.body 0 [] ('/' :: '/' :: p.flags) := by
    rw [hfront, Text.splitFrom_append hne]
  have hcount : p.flags.count '/' = 0 := List.count_eq_zero.mpr p.closing
  by_cases hn : 2 ≤ n
  · -- the rest of the line has two slashes, so the body is not found again
    have hrest : ¬ p.body <:+: '/' :: '/' :: p.flags := by
      intro h
      have hle := h.sublist.count_le '/'
      rw [hbody, List.count_replicate_self, List.count_cons_self, List.count_cons_self] at hle
      omega
    have hclose : ']' ∉ p.body := by
      rw [hbody]
      intro hmem
      exact absurd (List.eq_of_mem_replicate hmem) (by decide)
    rw [Text.splitFrom_of_not_infix hrest] at hsplit
    rw [exportLine_split hline hne hsplit, subGroups_eq_mark, mark_of_not_mem hclose]
    refine iff_of_true ?_ hn
    rw [List.nil_append, List.nil_append, ← hfront]
    rfl
  · -- the body is found again behind itself, and the flags are lost
    have hagain : ∃ post, '/' :: '/' :: p.flags = p.body ++ post := by
      rcases (show n = 0 ∨ n = 1 by omega) with rfl | rfl
      · exact ⟨'/' :: p.flags, by rw [hbody]; rfl⟩
      · exact ⟨p.flags, by rw [hbody]; rfl⟩
    obtain ⟨post, hpost⟩ := hagain
    rw [hpost, Text.splitFrom_append hne] at hsplit
    match hrest : Text.splitFrom p.body 0 [] post with
    | [] => exact absurd hrest (Text.splitFrom_ne_nil _ _ _ _)
    | c :: rest =>
      rw [exportLine_split hline hne hsplit]
      refine iff_of_false ?_ hn
      intro heq
      have hlen := congrArg List.length heq
      simp only [List.nil_append, List.append_nil, List.length_append, List.length_cons] at hlen
      omega

/-- A body of slashes is cut out of its line if there are at least three. -/
theorem two_le_iff_recoverable {p : DelimitedPattern} {n : ℕ}
    (hbody : p.body = List.replicate (n + 1) '/') : 2 ≤ n ↔ p.Recoverable := by
  have hcount : p.flags.count '/' = 0 := List.count_eq_zero.mpr p.closing
  have hlen : p.body.length = n + 1 := by rw [hbody, List.length_replicate]
  constructor
  · intro hn
    refine ⟨?_, ?_, ?_⟩
    · intro heq
      rw [heq, List.length_nil] at hlen
      omega
    · intro heq
      rw [heq, List.length_cons, List.length_cons, List.length_nil] at hlen
      omega
    · intro h
      have hle := h.sublist.count_le '/'
      rw [hbody, List.count_replicate_self, List.count_cons_self] at hle
      omega
  · intro h
    by_contra hn
    rcases (show n = 0 ∨ n = 1 by omega) with rfl | rfl
    · -- the one slash is the closing one
      exact h.2.2 ⟨[], p.flags, by rw [hbody]; rfl⟩
    · exact h.2.1 hbody

/-- The export of one line. -/
theorem exportLine_delimited_iff {p : DelimitedPattern} (hline : '\n' ∉ p.body ++ p.flags)
    (i : ℕ) : exportLine true i p.line = .ok (p.toolLine (i + 1)) ↔ p.Recoverable := by
  by_cases hbody : p.body = []
  · -- an empty separator is an error
    have hsearch : searchBody p.line = some p.body := searchBody_delimited hline p.closing
    have hmatched : matchedPattern p.line = [] := by
      rw [← hbody]
      exact matchedPattern_delimited hline p.closing
    have herror : exportLine true i p.line = .error .valueError := by
      rw [exportLine, if_pos ⟨by rw [hsearch]; rfl, rfl⟩, hmatched]
      rfl
    rw [herror]
    refine iff_of_false ?_ fun h => h.1 hbody
    intro h
    cases h
  · by_cases hfront : p.body <+: p.line
    · obtain ⟨n, hlen⟩ := Nat.exists_eq_succ_of_ne_zero
        (fun hzero => hbody (List.length_eq_zero_iff.mp hzero) : p.body.length ≠ 0)
      have hslashes := eq_replicate_of_prefix hfront
      rw [hlen] at hslashes
      rw [exportLine_slashes hline hslashes]
      exact two_le_iff_recoverable hslashes
    · -- the first occurrence of the body is behind the slash
      have hsplit : Text.splitFrom p.body 0 [] p.line =
          ['/'] :: Text.splitFrom p.body 0 [] ('/' :: p.flags) := by
        have hhere : ¬ p.body.isPrefixOf ('/' :: (p.body ++ '/' :: p.flags)) = true := fun h =>
          hfront (List.isPrefixOf_iff_prefix.mp h)
        rw [DelimitedPattern.line, List.cons_append, Text.splitFrom, if_neg hhere,
          Text.splitFrom_append hbody]
        rfl
      have htwo : p.body ≠ ['/', '/'] := by
        intro heq
        apply hfront
        rw [DelimitedPattern.line, heq]
        exact ⟨'/' :: '/' :: p.flags, rfl⟩
      by_cases hinfix : p.body <:+: '/' :: p.flags
      · obtain ⟨pre, post, hflags, hrest⟩ := Text.splitFrom_of_infix hbody hinfix []
        rw [hrest] at hsplit
        rw [exportLine_split hline hbody hsplit]
        refine iff_of_false ?_ fun h => h.2.2 hinfix
        intro heq
        have hlen := congrArg List.length heq
        have hpos := List.length_pos_of_ne_nil hbody
        simp only [hflags, List.nil_append, List.length_append, List.length_cons,
          List.length_nil] at hlen
        omega
      · rw [Text.splitFrom_of_not_infix hinfix] at hsplit
        rw [exportLine_split hline hbody hsplit]
        exact iff_of_true rfl ⟨hbody, htwo, hinfix⟩

theorem exportLines_delimited_iff {ps : List DelimitedPattern}
    (hline : ∀ p ∈ ps, '\n' ∉ p.body ++ p.flags) (i : ℕ) :
    exportLines true i (ps.map DelimitedPattern.line) =
        .ok ((ps.zipIdx (i + 1)).map fun x => x.1.toolLine x.2) ↔
      ∀ p ∈ ps, p.Recoverable := by
  induction ps generalizing i with
  | nil => exact iff_of_true rfl fun _ h => absurd h List.not_mem_nil
  | cons p ps ih =>
    have hp := exportLine_delimited_iff (hline p List.mem_cons_self) i
    have hps := ih (fun q hq => hline q (List.mem_cons_of_mem _ hq)) (i + 1)
    rw [List.forall_mem_cons, ← hp, ← hps, List.map_cons, exportLines, List.zipIdx_cons,
      List.map_cons]
    constructor
    · intro h
      obtain ⟨out, hout, h⟩ := bind_eq_ok h
      obtain ⟨outs, houts, h⟩ := bind_eq_ok h
      obtain ⟨rfl, rfl⟩ := List.cons.inj (Except.ok.inj h)
      exact ⟨hout, houts⟩
    · rintro ⟨hout, houts⟩
      rw [hout, houts]
      rfl

/-- The export for the tools keeps delimiters and flags just when no body occurs among its own
flags and their slash, and no body is empty or two slashes. -/
theorem keepsDelimiters_iff (parseRule : Text → Option Rule) {file : Text}
    {ps : List DelimitedPattern} (hfile : Csv.lines file = ps.map DelimitedPattern.line) :
    KeepsDelimiters parseRule file ps ↔ ∀ p ∈ ps, p.Recoverable := by
  have hline : ∀ p ∈ ps, '\n' ∉ p.body ++ p.flags := by
    intro p hp hmem
    have hlf : '\n' ∉ p.line := by
      have := List.mem_map_of_mem hp (f := DelimitedPattern.line)
      rw [← hfile] at this
      exact (Csv.isLine_of_mem_lines this).1
    apply hlf
    rw [DelimitedPattern.line, List.cons_append]
    apply List.mem_cons_of_mem
    rcases List.mem_append.mp hmem with h | h
    · exact List.mem_append_left _ h
    · exact List.mem_append_right _ (List.mem_cons_of_mem _ h)
  -- no line is blank
  have hkept : (Csv.lines file).filter (fun l => ¬ Text.strip l = []) = Csv.lines file := by
    rw [List.filter_eq_self, hfile]
    intro l hl
    obtain ⟨p, -, rfl⟩ := List.mem_map.mp hl
    have hslash : ¬ Text.isSpace '/' = true := by decide
    exact decide_eq_true fun h => hslash (Text.strip_eq_nil_iff.mp h '/' List.mem_cons_self)
  rw [KeepsDelimiters, toHyperscan, if_pos rfl, filterWhitespace_readlines, hkept, hfile,
    ← exportLines_delimited_iff hline 0]
  constructor
  · intro h
    obtain ⟨outs, houts, h⟩ := bind_eq_ok h
    rw [houts]
    exact congrArg _ (Prod.mk.inj (Except.ok.inj h)).1
  · intro h
    rw [h]
    rfl

/-! ## A body among its flags -/

/-- The pattern `/i/i`. -/
def letterPattern : DelimitedPattern where
  body := ['i']
  flags := ['i']
  closing := by decide

/-- The file with the one line `/i/i`. -/
def letterFile : Text := "/i/i\n".toList

/-- The flag of `/i/i` is taken for a second body, and lost. -/
theorem keepsDelimiters_letter :
    Csv.lines letterFile = [letterPattern].map DelimitedPattern.line ∧
    toHyperscan (fun _ => none) true true (Csv.readlines letterFile) =
      .ok (["1:/i/".toList], none) ∧
    ¬ KeepsDelimiters (fun _ => none) letterFile [letterPattern] := by
  have hexport : toHyperscan (fun _ => none) true true (Csv.readlines letterFile) =
      .ok (["1:/i/".toList], none) := by decide +kernel
  refine ⟨by decide +kernel, hexport, ?_⟩
  intro hkept
  have heq := (Prod.mk.inj (Except.ok.inj (hexport.symm.trans hkept))).1
  exact absurd heq (by decide +kernel)

theorem keepsDelimiters_iff_letter :
    KeepsDelimiters (fun _ => none) letterFile [letterPattern] ↔
      ∀ p ∈ [letterPattern], p.Recoverable :=
  keepsDelimiters_iff (fun _ => none) (by decide +kernel)

end Data
end PamoRxpBench
