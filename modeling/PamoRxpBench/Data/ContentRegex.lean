import PamoRxpBench.Data.RuleLib

/-!
# The parts of a content string

`suricata_content_to_regex` converts the parts between the bars one by one. `contentRegex b s` is
what it makes of `s` when it is inside (`b`) or outside a hexadecimal block: its equations take a
text apart at its first bar, or at its first character outside a block.
-/

namespace PamoRxpBench
namespace Data

/-- A part between two bars, inside or outside a hexadecimal block. -/
def convertPart (inHexBlock : Bool) (part : Text) : Text :=
  if inHexBlock then hexEscapes (part.filter (· ≠ ' ')) else escapeSpecial part

/-- What `suricata_content_to_regex` makes of the rest of a content. -/
def contentRegex (inHexBlock : Bool) (s : Text) : Text := regexParts inHexBlock (s.splitOn '|')

theorem suricataContentToRegex_eq (s : Text) : suricataContentToRegex s = contentRegex false s :=
  rfl

/-! ## Equations -/

theorem contentRegex_of_not_mem (b : Bool) {part : Text} (h : '|' ∉ part) :
    contentRegex b part = convertPart b part := by
  rw [contentRegex, List.splitOn_eq_singleton h, regexParts, regexParts, List.append_nil]
  rfl

theorem contentRegex_bar (b : Bool) {part : Text} (h : '|' ∉ part) (s : Text) :
    contentRegex b (part ++ '|' :: s) = convertPart b part ++ contentRegex (!b) s := by
  rw [contentRegex, List.splitOn_append_cons_self_of_not_mem h]
  rfl

theorem escapeSpecial_append (s t : Text) :
    escapeSpecial (s ++ t) = escapeSpecial s ++ escapeSpecial t := List.flatMap_append

/-- One character outside the hexadecimal blocks. -/
theorem contentRegex_cons {c : Char} (hc : c ≠ '|') (s : Text) :
    contentRegex false (c :: s) = escapeSpecial [c] ++ contentRegex false s := by
  obtain ⟨part, parts, hparts⟩ := List.exists_cons_of_ne_nil (List.splitOn_ne_nil '|' s)
  have hsplit : (c :: s).splitOn '|' = (c :: part) :: parts := by
    rw [List.splitOn_cons_eq_if_modifyHead, if_neg (by simpa using hc), hparts]
    rfl
  rw [contentRegex, contentRegex, hsplit, hparts]
  show escapeSpecial ([c] ++ part) ++ _ = escapeSpecial [c] ++ (escapeSpecial part ++ _)
  rw [escapeSpecial_append, List.append_assoc]

/-! ## Lengths -/

theorem length_hexEscapes (s : Text) :
    (hexEscapes s).length = s.length + 2 * ((s.length + 1) / 2) := by
  fun_induction hexEscapes s with
  | case1 => rfl
  | case2 a => simp
  | case3 a b s ih =>
    simp only [List.length_cons, ih]
    omega

theorem length_escapeSpecial_singleton (c : Char) : 1 ≤ (escapeSpecial [c]).length := by
  simp only [escapeSpecial, List.flatMap_cons, List.flatMap_nil, List.append_nil]
  split <;> simp

/-- One more character makes the converted part longer, unless it is a blank. -/
theorem length_convertPart_concat (b : Bool) (part : Text) {q : Char} (hq : q ≠ ' ') :
    (convertPart b part).length < (convertPart b (part ++ [q])).length := by
  cases b with
  | false =>
    have hone := length_escapeSpecial_singleton q
    show (escapeSpecial part).length < (escapeSpecial (part ++ [q])).length
    rw [escapeSpecial_append, List.length_append]
    omega
  | true =>
    have hfilter : (part ++ [q]).filter (· ≠ ' ') = part.filter (· ≠ ' ') ++ [q] := by
      simp [List.filter_append, hq]
    show (hexEscapes (part.filter _)).length < (hexEscapes ((part ++ [q]).filter _)).length
    rw [hfilter, length_hexEscapes, length_hexEscapes, List.length_append, List.length_singleton]
    omega

/-- A further character makes the regex longer, also in a block that is still open. -/
theorem length_contentRegex_concat (b : Bool) (s : Text) {q : Char} (hq : q ≠ ' ')
    (hbar : q ≠ '|') : (contentRegex b s).length < (contentRegex b (s ++ [q])).length := by
  induction hn : s.length using Nat.strong_induction_on generalizing b s with
  | _ n ih =>
    by_cases hmem : '|' ∈ s
    · -- the last part is behind the first bar
      obtain ⟨part, rest, rfl, hpart⟩ := List.eq_append_cons_of_mem hmem
      have hshort : rest.length < n := by
        rw [← hn, List.length_append, List.length_cons]
        omega
      have hrest := ih _ hshort (!b) rest rfl
      rw [List.append_assoc, List.cons_append, contentRegex_bar b hpart, contentRegex_bar b hpart,
        List.length_append, List.length_append]
      omega
    · have hmem' : '|' ∉ s ++ [q] := by
        rw [List.mem_append, List.mem_singleton]
        exact not_or.mpr ⟨hmem, fun heq => hbar heq.symm⟩
      rw [contentRegex_of_not_mem b hmem, contentRegex_of_not_mem b hmem']
      exact length_convertPart_concat b s hq

/-! ## Character by character -/

/-- What `suricata_content_to_regex` makes of the rest of a content; `half` says whether the first
character of a pair of the block was read. -/
def contentChars : Bool → Bool → Text → Text
  | _, _, [] => []
  | inHexBlock, half, c :: s =>
    if c = '|' then contentChars (!inHexBlock) false s
    else if inHexBlock = false then escapeSpecial [c] ++ contentChars false false s
    else if c = ' ' then contentChars true half s
    else (if half then [c] else ['\\', 'x', c]) ++ contentChars true (!half) s

theorem contentChars_cons_text (half : Bool) {c : Char} (hbar : c ≠ '|') (s : Text) :
    contentChars false half (c :: s) = escapeSpecial [c] ++ contentChars false false s := by
  rw [contentChars, if_neg hbar, if_pos rfl]

theorem contentChars_space (half : Bool) (s : Text) :
    contentChars true half (' ' :: s) = contentChars true half s := rfl

theorem contentChars_cons_block (half : Bool) {c : Char} (hbar : c ≠ '|') (hspace : c ≠ ' ')
    (s : Text) :
    contentChars true half (c :: s) =
      (if half then [c] else ['\\', 'x', c]) ++ contentChars true (!half) s := by
  rw [contentChars, if_neg hbar, if_neg Bool.noConfusion, if_neg hspace]

/-- A block, from the start and behind the first character `a` of a pair. -/
theorem contentChars_block {part : Text} (h : '|' ∉ part) :
    contentChars true false part = hexEscapes (part.filter (· ≠ ' ')) ∧
      ∀ a, '\\' :: 'x' :: a :: contentChars true true part =
        hexEscapes (a :: part.filter (· ≠ ' ')) := by
  induction part with
  | nil => exact ⟨rfl, fun a => rfl⟩
  | cons c part ih =>
    obtain ⟨hstart, hhalf⟩ := ih (List.not_mem_of_not_mem_cons h)
    have hbar : c ≠ '|' := fun heq => h (heq ▸ List.mem_cons_self)
    by_cases hspace : c = ' '
    · rw [hspace]
      exact ⟨hstart, hhalf⟩
    · rw [contentChars_cons_block _ hbar hspace, contentChars_cons_block _ hbar hspace,
        List.filter_cons_of_pos (by simpa using hspace)]
      exact ⟨hhalf c, fun a => congrArg (['\\', 'x', a, c] ++ ·) hstart⟩

/-- Outside of a block the characters are escaped. -/
theorem contentChars_text {part : Text} (h : '|' ∉ part) (half : Bool) :
    contentChars false half part = escapeSpecial part := by
  induction part generalizing half with
  | nil => rfl
  | cons c part ih =>
    have hbar : c ≠ '|' := fun heq => h (heq ▸ List.mem_cons_self)
    rw [contentChars_cons_text half hbar, ih (List.not_mem_of_not_mem_cons h),
      ← escapeSpecial_append]
    rfl

/-- A bar goes from a block to the text, or back. -/
theorem contentChars_bar (b half : Bool) {part : Text} (h : '|' ∉ part) (s : Text) :
    contentChars b half (part ++ '|' :: s) =
      contentChars b half part ++ contentChars (!b) false s := by
  induction part generalizing half with
  | nil => rfl
  | cons c part ih =>
    have hbar : c ≠ '|' := fun heq => h (heq ▸ List.mem_cons_self)
    have hrest := fun half => ih half (List.not_mem_of_not_mem_cons h)
    rw [List.cons_append]
    cases b with
    | false =>
      rw [contentChars_cons_text half hbar, contentChars_cons_text half hbar, hrest,
        List.append_assoc]
    | true =>
      by_cases hspace : c = ' '
      · rw [hspace]
        exact hrest half
      · rw [contentChars_cons_block half hbar hspace, contentChars_cons_block half hbar hspace,
          hrest, List.append_assoc]

/-- The conversion goes through a content once. -/
theorem contentRegex_eq_contentChars (b : Bool) (s : Text) :
    contentRegex b s = contentChars b false s := by
  have hpart : ∀ b part, '|' ∉ part → convertPart b part = contentChars b false part := by
    intro b part h
    cases b with
    | false => exact (contentChars_text h false).symm
    | true => exact (contentChars_block h).1.symm
  induction hn : s.length using Nat.strong_induction_on generalizing b s with
  | _ n ih =>
    by_cases hmem : '|' ∈ s
    · obtain ⟨part, rest, rfl, hfirst⟩ := List.eq_append_cons_of_mem hmem
      have hshort : rest.length < n := by
        rw [← hn, List.length_append, List.length_cons]
        omega
      rw [contentRegex_bar b hfirst, contentChars_bar b false hfirst, hpart b part hfirst,
        ih _ hshort (!b) rest rfl]
    · rw [contentRegex_of_not_mem b hmem, hpart b s hmem]

end Data
end PamoRxpBench
