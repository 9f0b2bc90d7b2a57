import PamoRxpBench.Data.Content
import PamoRxpBench.Data.ContentRegex
import Mathlib.Algebra.GroupWithZero.Nat

/-!
# The regex of a content

`suricata_content_to_regex` converts an escape character by character, so its regex also matches
the backslash, and takes only the spaces out of a block. Both make the matched string longer
(`length_read_ge`), so the regex matches exactly the bytes of the content just when it has neither
(`contentExact_iff`).
-/

namespace PamoRxpBench
namespace Data

open Brackets (hexDigit)
open Pcre (readPlain metacharacters)

/-! ## Reading what the conversion emits -/

/-- A converted character stands for itself. -/
theorem read_escapeSpecial (c : Char) (p : Text) :
    Pcre.read .text (escapeSpecial [c] ++ p) =
      (Pcre.read .text p).map (String.utf8EncodeChar c ++ ·) := by
  rw [escapeSpecial, List.flatMap_cons, List.flatMap_nil, List.append_nil]
  by_cases hspecial : c ∈ ",.^$*+?{}[]\\|()/".toList
  · rw [if_pos hspecial]
    have hall : ∀ d ∈ ",.^$*+?{}[]\\|()/".toList, d ≠ 'x' ∧ d.isAlphanum = false :=
      List.forall_iff_forall_mem.mp (by decide)
    obtain ⟨hx, halnum⟩ := hall c hspecial
    show readPlain '\\' (Pcre.read .escape (c :: p)) _ = _
    rw [readPlain, if_pos rfl, Pcre.read, if_neg hx, halnum]
    rfl
  · rw [if_neg hspecial]
    have hsubset : ∀ d ∈ metacharacters, d ∈ ",.^$*+?{}[]\\|()/".toList :=
      List.forall_iff_forall_mem.mp (by decide)
    have hmeta : c ∉ metacharacters := fun hmem => hspecial (hsubset c hmem)
    have hbackslash : c ≠ '\\' := by
      rintro rfl
      exact hspecial (by decide)
    show readPlain c (Pcre.read .escape p) (Pcre.read .text p) = _
    rw [readPlain, if_neg hbackslash, if_neg hmeta]

/-- The characters of a block without its spaces. -/
def BlockChar (c : Char) : Prop := (hexDigit c).isSome ∨ Text.isSpace c = true

/-- A character of a block that is not read as a digit of an escape. -/
theorem read_blockChar {c : Char} (hc : BlockChar c) {p : Text} {w : List UInt8}
    (h : Pcre.read .text (c :: p) = some w) :
    ∃ w', Pcre.read .text p = some w' ∧ w'.length + 1 ≤ w.length := by
  have hplain : readPlain c (Pcre.read .escape p) (Pcre.read .text p) =
      (Pcre.read .text p).map (String.utf8EncodeChar c ++ ·) := by
    have hspace : ∀ d ∈ metacharacters, (hexDigit d).isSome = false ∧ Text.isSpace d = false :=
      List.forall_iff_forall_mem.mp (by decide)
    have hmeta : c ∉ metacharacters := by
      intro hmem
      obtain ⟨hdigit, hblank⟩ := hspace c hmem
      rcases hc with hc | hc
      · rw [hdigit] at hc
        cases hc
      · rw [hblank] at hc
        cases hc
    have hbackslash : c ≠ '\\' := by
      rintro rfl
      exact hmeta (by decide)
    rw [readPlain, if_neg hbackslash, if_neg hmeta]
  rw [Pcre.read, hplain] at h
  obtain ⟨w', hw', rfl⟩ := Option.map_eq_some_iff.mp h
  have hpos : 0 < (String.utf8EncodeChar c).length :=
    List.length_pos_of_ne_nil String.utf8EncodeChar_ne_nil
  refine ⟨w', hw', ?_⟩
  rw [List.length_append]
  omega

/-- The two characters of a chunk are read as one byte, and as one more for each that is no
digit. -/
theorem read_chunk {a b : Char} (ha : BlockChar a) (hb : BlockChar b) {p : Text} {w : List UInt8}
    (h : Pcre.read (.hex 0 0) (a :: b :: p) = some w) :
    ∃ w', Pcre.read .text p = some w' ∧
      w'.length + 1 + [a, b].countP (fun c => (hexDigit c).isNone) ≤ w.length := by
  match hdigit : hexDigit a with
  | some d =>
    rw [Pcre.read_hex_first hdigit] at h
    match hdigit' : hexDigit b with
    | some e =>
      rw [Pcre.read_hex_second hdigit'] at h
      obtain ⟨w₁, hw₁, rfl⟩ := Option.map_eq_some_iff.mp h
      exact ⟨w₁, hw₁, by simp [hdigit, hdigit']⟩
    | none =>
      rw [Pcre.read_hex_none hdigit'] at h
      obtain ⟨w₂, hw₂, rfl⟩ := Option.map_eq_some_iff.mp h
      obtain ⟨w₁, hw₁, hlen⟩ := read_blockChar hb hw₂
      refine ⟨w₁, hw₁, ?_⟩
      simp [hdigit, hdigit']
      omega
  | none =>
    -- the escape has no digit, and both characters are read after it
    rw [Pcre.read_hex_none hdigit] at h
    obtain ⟨w₃, hw₃, rfl⟩ := Option.map_eq_some_iff.mp h
    obtain ⟨w₂, hw₂, hlen₂⟩ := read_blockChar ha hw₃
    obtain ⟨w₁, hw₁, hlen₁⟩ := read_blockChar hb hw₂
    have hcount : [a, b].countP (fun c => (hexDigit c).isNone) ≤ 2 := List.countP_le_length
    refine ⟨w₁, hw₁, ?_⟩
    rw [List.length_cons]
    omega

/-- The digits of a block are read as at least half as many bytes, and each blank as one more. -/
theorem length_read_hexEscapes (s : Text) (hs : ∀ c ∈ s, BlockChar c) {p : Text} {w : List UInt8}
    (h : Pcre.read .text (hexEscapes s ++ p) = some w) :
    ∃ w', Pcre.read .text p = some w' ∧
      2 * w'.length + s.length + 2 * s.countP (fun c => (hexDigit c).isNone) ≤
        2 * w.length + 1 := by
  fun_induction hexEscapes s generalizing w with
  | case1 =>
    refine ⟨w, h, ?_⟩
    simp
  | case2 a =>
    have ha := hs a (by simp)
    rw [List.cons_append, List.cons_append, List.cons_append, Pcre.read_hexEscape] at h
    cases hdigit : hexDigit a with
    | some d =>
      -- a single digit, and the text behind the block may add another
      have hone : Pcre.read (.hex 1 d) p = some w := by
        rw [← h, List.nil_append, Pcre.read_hex_first hdigit]
      obtain ⟨w', hw', hlen⟩ := Pcre.read_hex_one hone
      refine ⟨w', hw', ?_⟩
      simp [hdigit]
      omega
    | none =>
      rw [List.nil_append, Pcre.read_hex_none hdigit] at h
      obtain ⟨w₁, hw₁, rfl⟩ := Option.map_eq_some_iff.mp h
      obtain ⟨w', hw', hlen⟩ := read_blockChar ha hw₁
      refine ⟨w', hw', ?_⟩
      simp [hdigit]
      omega
  | case3 a b s ih =>
    have ha := hs a (by simp)
    have hb := hs b (by simp)
    have hs' : ∀ c ∈ s, BlockChar c := fun c hc => hs c (by simp [hc])
    simp only [List.cons_append] at h
    rw [Pcre.read_hexEscape] at h
    obtain ⟨w₁, hw₁, hlen⟩ := read_chunk ha hb h
    obtain ⟨w', hw', hlen'⟩ := ih hs' hw₁
    refine ⟨w', hw', ?_⟩
    have hcount : (a :: b :: s).countP (fun c => (hexDigit c).isNone) =
        [a, b].countP (fun c => (hexDigit c).isNone) + s.countP fun c => (hexDigit c).isNone := by
      rw [← List.countP_append]
      rfl
    rw [hcount, List.length_cons, List.length_cons]
    omega

/-! ## One token -/

namespace ContentToken

/-- What the conversion makes of a token. -/
def regex : ContentToken → Text
  | .char c => escapeSpecial [c]
  | .escape c => escapeSpecial ['\\'] ++ escapeSpecial [c]
  | .block pairs trailing => hexEscapes ((blockBody pairs trailing).filter (· ≠ ' '))

theorem ne_of_isSpace {c d : Char} (h : Text.isSpace c = true) (hd : Text.isSpace d = false) :
    c ≠ d := by
  rintro rfl
  rw [h] at hd
  cases hd

theorem ne_of_isSome {c d : Char} (h : (hexDigit c).isSome) (hd : hexDigit d = none) : c ≠ d := by
  rintro rfl
  rw [hd] at h
  cases h

theorem mem_blockBody {pairs : List HexPair} {trailing : Text}
    (hvalid : (ContentToken.block pairs trailing).Valid) {c : Char}
    (hc : c ∈ blockBody pairs trailing) : BlockChar c := by
  rcases List.mem_append.mp hc with hc | hc
  · obtain ⟨p, hp, hc⟩ := List.mem_flatMap.mp hc
    have hpair := hvalid.1 p hp
    rcases List.mem_append.mp hc with hc | hc
    · exact Or.inr (hpair.blanks c hc)
    · rcases List.mem_pair.mp hc with rfl | rfl
      · exact Or.inl hpair.hi
      · exact Or.inl hpair.lo
  · exact Or.inr (hvalid.2 c hc)

/-- The conversion goes token by token. -/
theorem contentRegex_render {t : ContentToken} (hvalid : t.Valid) (rest : Text) :
    contentRegex false (t.render ++ rest) = t.regex ++ contentRegex false rest := by
  cases t with
  | char c => exact contentRegex_cons hvalid.1 rest
  | escape c =>
    have hbar : c ≠ '|' := by
      have hall : ∀ d ∈ ['"', ';', ':', '\\'], d ≠ '|' :=
        List.forall_iff_forall_mem.mp (by decide)
      exact hall c hvalid
    show contentRegex false ('\\' :: c :: rest) = _
    rw [contentRegex_cons (by decide), contentRegex_cons hbar, regex, List.append_assoc]
  | block pairs trailing =>
    have hbar : '|' ∉ blockBody pairs trailing := by
      intro hmem
      rcases mem_blockBody hvalid hmem with hdigit | hblank
      · exact ne_of_isSome hdigit (by decide : hexDigit '|' = none) rfl
      · exact ne_of_isSpace hblank (by decide : Text.isSpace '|' = false) rfl
    have hopen := contentRegex_bar false (List.not_mem_nil : '|' ∉ [])
      (blockBody pairs trailing ++ '|' :: rest)
    have hclose := contentRegex_bar true hbar rest
    show contentRegex false ('|' :: (blockBody pairs trailing ++ ['|']) ++ rest) = _
    rw [List.cons_append, List.append_assoc]
    exact hopen.trans hclose

/-- How many characters of a token the conversion does not take as what they stand for. -/
def defects : ContentToken → ℕ
  | .char _ => 0
  | .escape _ => 1
  | .block pairs trailing => (blockBlanks pairs trailing).countP (· ≠ ' ')

theorem defects_eq_zero_iff (t : ContentToken) : t.defects = 0 ↔ t.Plain := by
  cases t with
  | char c => exact iff_of_true rfl trivial
  | escape c => exact iff_of_false Nat.one_ne_zero id
  | block pairs trailing =>
    rw [defects, List.countP_eq_zero, Plain]
    simp

theorem hexDigit_of_isSpace {c : Char} (h : Text.isSpace c = true) : hexDigit c = none := by
  cases hdigit : hexDigit c with
  | none => rfl
  | some d =>
    have hrange := Pcre.hexDigit_spec hdigit
    simp only [Text.isSpace, Bool.or_eq_true, Bool.and_eq_true, decide_eq_true_eq] at h
    omega

/-- Of blanks, all but the spaces are left, and none is a digit. -/
theorem blanks_counts {blanks : Text} (h : ∀ c ∈ blanks, Text.isSpace c = true) :
    (blanks.filter (· ≠ ' ')).length = blanks.countP (· ≠ ' ') ∧
      (blanks.filter (· ≠ ' ')).countP (fun c => (hexDigit c).isNone) =
        blanks.countP (· ≠ ' ') := by
  refine ⟨List.countP_eq_length_filter.symm, ?_⟩
  rw [List.countP_filter]
  apply List.countP_congr
  intro c hc
  simp [hexDigit_of_isSpace (h c hc)]

/-- A pair has two digits, whatever blanks are in it. -/
theorem pair_counts {p : HexPair} (h : p.Valid) :
    ([p.hi, p.lo].filter (· ≠ ' ')).length = 2 ∧
      ([p.hi, p.lo].filter (· ≠ ' ')).countP (fun c => (hexDigit c).isNone) = 0 := by
  have hhi : p.hi ≠ ' ' := ne_of_isSome h.hi (by decide)
  have hlo : p.lo ≠ ' ' := ne_of_isSome h.lo (by decide)
  have hfilter : [p.hi, p.lo].filter (· ≠ ' ') = [p.hi, p.lo] := by simp [hhi, hlo]
  rw [hfilter]
  refine ⟨rfl, List.countP_eq_zero.mpr fun c hc => ?_⟩
  rcases List.mem_pair.mp hc with rfl | rfl
  · simpa using Option.isSome_iff_ne_none.mp h.hi
  · simpa using Option.isSome_iff_ne_none.mp h.lo

/-- The spaces of a block are dropped, its other blanks stay between the digits. -/
theorem blockBody_counts {pairs : List HexPair} {trailing : Text}
    (hvalid : (ContentToken.block pairs trailing).Valid) :
    ((blockBody pairs trailing).filter (· ≠ ' ')).length =
        2 * pairs.length + (blockBlanks pairs trailing).countP (· ≠ ' ') ∧
      ((blockBody pairs trailing).filter (· ≠ ' ')).countP (fun c => (hexDigit c).isNone) =
        (blockBlanks pairs trailing).countP (· ≠ ' ') := by
  have htrailing := blanks_counts hvalid.2
  have hpairs := hvalid.1
  clear hvalid
  rw [blockBody, blockBlanks, List.filter_append, List.length_append, List.countP_append,
    List.countP_append, htrailing.1, htrailing.2]
  induction pairs with
  | nil => simp
  | cons p pairs ih =>
    have hblanks := blanks_counts (hpairs p List.mem_cons_self).blanks
    have hpair := pair_counts (hpairs p List.mem_cons_self)
    have hrest := ih fun q hq => hpairs q (List.mem_cons_of_mem _ hq)
    simp only [List.flatMap_cons, List.filter_append, List.length_append, List.countP_append,
      hblanks.1, hblanks.2, hpair.1, hpair.2, List.length_cons]
    omega

/-- A token is read as at least its bytes, and each defect as one more. -/
theorem length_read_regex {t : ContentToken} (hvalid : t.Valid) {p : Text} {w : List UInt8}
    (h : Pcre.read .text (t.regex ++ p) = some w) :
    ∃ w', Pcre.read .text p = some w' ∧ w'.length + t.denote.length + t.defects ≤ w.length := by
  cases t with
  | char c =>
    rw [regex, read_escapeSpecial] at h
    obtain ⟨w', hw', rfl⟩ := Option.map_eq_some_iff.mp h
    refine ⟨w', hw', ?_⟩
    simp only [denote, defects, List.length_append]
    omega
  | escape c =>
    -- the backslash is read as a byte of its own
    rw [regex, List.append_assoc, read_escapeSpecial, read_escapeSpecial] at h
    obtain ⟨w₁, hw₁, rfl⟩ := Option.map_eq_some_iff.mp h
    obtain ⟨w', hw', rfl⟩ := Option.map_eq_some_iff.mp hw₁
    have hone : (String.utf8EncodeChar '\\').length = 1 := by decide
    refine ⟨w', hw', ?_⟩
    simp only [denote, defects, List.length_append]
    omega
  | block pairs trailing =>
    have hchars : ∀ c ∈ (blockBody pairs trailing).filter (· ≠ ' '), BlockChar c :=
      fun c hc => mem_blockBody hvalid (List.mem_filter.mp hc).1
    obtain ⟨w', hw', hlen⟩ := length_read_hexEscapes _ hchars h
    obtain ⟨hlength, hcount⟩ := blockBody_counts hvalid
    refine ⟨w', hw', ?_⟩
    rw [hlength, hcount] at hlen
    simp only [denote, defects, List.length_map]
    omega

/-- The digits of a block without other blanks than spaces. -/
theorem read_hexEscapes_pairs {pairs : List HexPair} (hpairs : ∀ p ∈ pairs, p.Valid) (q : Text) :
    Pcre.read .text (hexEscapes (pairs.flatMap fun p => [p.hi, p.lo]) ++ q) =
      (Pcre.read .text q).map (pairs.map HexPair.byte ++ ·) := by
  induction pairs with
  | nil =>
    show Pcre.read .text q = _
    simp
  | cons p pairs ih =>
    have hp := hpairs p List.mem_cons_self
    obtain ⟨hi, hhi⟩ := Option.isSome_iff_exists.mp hp.hi
    obtain ⟨lo, hlo⟩ := Option.isSome_iff_exists.mp hp.lo
    have hbyte : UInt8.ofNat (16 * hi + lo) = p.byte := by
      rw [HexPair.byte, hhi, hlo]
      rfl
    show Pcre.read .text ('\\' :: 'x' :: p.hi :: p.lo ::
      (hexEscapes (pairs.flatMap fun p => [p.hi, p.lo]) ++ q)) = _
    rw [Pcre.read_hexEscape, Pcre.read_hex_first hhi, Pcre.read_hex_second hlo, hbyte,
      ih fun r hr => hpairs r (List.mem_cons_of_mem _ hr), Option.map_map]
    rfl

/-- A token without defects is read as its bytes. -/
theorem read_regex {t : ContentToken} (hvalid : t.Valid) (hplain : t.Plain) (p : Text) :
    Pcre.read .text (t.regex ++ p) = (Pcre.read .text p).map (t.denote ++ ·) := by
  cases t with
  | char c => exact read_escapeSpecial c p
  | escape c => exact absurd hplain id
  | block pairs trailing =>
    have hbody : (blockBody pairs trailing).filter (· ≠ ' ') =
        pairs.flatMap fun p => [p.hi, p.lo] := by
      have hspaces : ∀ blanks : Text, (∀ c ∈ blanks, c = ' ') → blanks.filter (· ≠ ' ') = [] :=
        fun blanks h => List.filter_eq_nil_iff.mpr fun c hc => by simp [h c hc]
      rw [blockBody, List.filter_append,
        hspaces trailing fun c hc => hplain c (List.mem_append_right _ hc), List.append_nil,
        List.filter_flatMap]
      apply List.flatMap_congr
      intro p hp
      have hpair := hvalid.1 p hp
      have hhi : p.hi ≠ ' ' := ne_of_isSome hpair.hi (by decide)
      have hlo : p.lo ≠ ' ' := ne_of_isSome hpair.lo (by decide)
      rw [List.filter_append, hspaces p.blanks fun c hc =>
        hplain c (List.mem_append_left _ (List.mem_flatMap.mpr ⟨p, hp, hc⟩))]
      simp [hhi, hlo]
    rw [regex, hbody]
    exact read_hexEscapes_pairs hvalid.1 p

end ContentToken

/-! ## Whole contents -/

/-- The regex is read as at least the bytes of the content, and each defect as one more. -/
theorem length_read_ge {tokens : List ContentToken} (hvalid : ∀ t ∈ tokens, t.Valid)
    {w : List UInt8}
    (h : Pcre.read .text (contentRegex false (tokens.flatMap ContentToken.render)) = some w) :
    (tokens.flatMap ContentToken.denote).length + (tokens.map ContentToken.defects).sum
      ≤ w.length := by
  induction tokens generalizing w with
  | nil => exact Nat.zero_le _
  | cons t tokens ih =>
    rw [List.flatMap_cons, ContentToken.contentRegex_render (hvalid t List.mem_cons_self)] at h
    obtain ⟨w', hw', hlen⟩ :=
      ContentToken.length_read_regex (hvalid t List.mem_cons_self) h
    have hrest := ih (fun u hu => hvalid u (List.mem_cons_of_mem _ hu)) hw'
    rw [List.flatMap_cons, List.length_append, List.map_cons, List.sum_cons]
    omega

/-- Without defects it is read as the bytes of the content. -/
theorem read_of_plain {tokens : List ContentToken} (hvalid : ∀ t ∈ tokens, t.Valid)
    (hplain : ∀ t ∈ tokens, t.Plain) :
    Pcre.read .text (contentRegex false (tokens.flatMap ContentToken.render)) =
      some (tokens.flatMap ContentToken.denote) := by
  induction tokens with
  | nil => rfl
  | cons t tokens ih =>
    have hrest := ih (fun u hu => hvalid u (List.mem_cons_of_mem _ hu))
      fun u hu => hplain u (List.mem_cons_of_mem _ hu)
    rw [List.flatMap_cons, ContentToken.contentRegex_render (hvalid t List.mem_cons_self),
      ContentToken.read_regex (hvalid t List.mem_cons_self) (hplain t List.mem_cons_self), hrest]
    rfl

/-- The regex matches exactly one string, the bytes of the content. -/
def ContentExact (content : Content) : Prop :=
  Pcre.language (suricataContentToRegex content.render) = {content.denote}

/-- The conversion is exact for the contents that have no escape, and no blanks but spaces in their
blocks. -/
theorem contentExact_iff (content : Content) :
    ContentExact content ↔ ∀ t ∈ content.tokens, t.Plain := by
  rw [ContentExact, Pcre.language_eq_singleton_iff, suricataContentToRegex_eq, Content.render]
  constructor
  · intro h t ht
    have hlen := length_read_ge content.valid h
    have hsum : (content.tokens.map ContentToken.defects).sum = 0 := by
      have hdenote : content.denote.length = (content.tokens.flatMap ContentToken.denote).length :=
        rfl
      omega
    rw [← ContentToken.defects_eq_zero_iff]
    exact List.sum_eq_zero_iff_forall_eq_nat.mp hsum _ (List.mem_map_of_mem ht)
  · intro h
    exact read_of_plain content.valid h

/-- The content `a\"b`. -/
def escapedQuote : Content where
  tokens := [.char 'a', .escape '"', .char 'b']
  valid := by
    simp [ContentToken.Valid]

/-- Its regex `a\\"b` matches four bytes. -/
theorem not_contentExact_escapedQuote : ¬ ContentExact escapedQuote := by
  rw [ContentExact, Pcre.language_eq_singleton_iff]
  decide

end Data
end PamoRxpBench
