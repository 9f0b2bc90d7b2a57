import PamoRxpBench.Data.ContentTheorems
import PamoRxpBench.Data.Prefixes
import PamoRxpBench.Data.SamplerCommandsTheorems

/-!
# Which prefixes are generated

The generated prefixes are distinct, and as many as were asked for if there are enough
(`genPrefixes_count`, `prefixesGenerate_rules`). The rules that are made from a file of contents are
extracted to regexes that match these contents (`rulesFromPatterns_extracted`).
-/

namespace PamoRxpBench
namespace Data

open Combinations

/-! ## `gen_prefixes` -/

/-- A letter stands before another one in the alphabet. -/
def Before (a b : Char) : Prop := alphabet.idxOf a < alphabet.idxOf b

theorem pairwise_alphabet : alphabet.Pairwise Before := by
  unfold Before
  decide +kernel

/-- A prefix that the function looks for: letters in the order of the alphabet. -/
structure IsPrefix (prefixSize : ℤ) (p : Text) : Prop where
  sublist : p.Sublist alphabet
  length : p.length = prefixSize

/-- **`gen_prefixes` finds the first combinations.** For every size and number, negative ones too:
it raises if and only if the size is negative. Else it returns as many prefixes as are asked for, or
all there are; they are in increasing order, so distinct, and every other combination of this size
is greater than each of them. The message is printed if and only if there are not enough. -/
theorem genPrefixes_count (prefixSize maxPrefixes : ℤ) :
    (genPrefixes prefixSize maxPrefixes = none ↔ prefixSize < 0) ∧
      ∀ prefixes message, genPrefixes prefixSize maxPrefixes = some (prefixes, message) →
        prefixes.length = min maxPrefixes.toNat (Nat.choose 52 prefixSize.toNat) ∧
        prefixes.Pairwise (List.Lex Before) ∧
        (∀ p ∈ prefixes, IsPrefix prefixSize p) ∧
        (∀ q, IsPrefix prefixSize q → q ∉ prefixes → ∀ p ∈ prefixes, List.Lex Before p q) ∧
        (message.isSome ↔ Nat.choose 52 prefixSize.toNat < maxPrefixes) := by
  unfold genPrefixes
  by_cases hneg : prefixSize < 0
  · rw [if_pos hneg]
    exact ⟨iff_of_true rfl hneg, fun _ _ h => (by cases h)⟩
  · rw [if_neg hneg]
    refine ⟨iff_of_false (Option.some_ne_none _) hneg, fun prefixes message h => ?_⟩
    obtain ⟨rfl, rfl⟩ := Prod.mk.inj (Option.some.inj h)
    have hlength : ((combinations alphabet prefixSize.toNat).take maxPrefixes.toNat).length =
        min maxPrefixes.toNat (Nat.choose 52 prefixSize.toNat) := by
      rw [List.length_take, length_combinations]
      rfl
    have hordered := pairwise_lex_combinations pairwise_alphabet prefixSize.toNat
    refine ⟨hlength, hordered.sublist (List.take_sublist _ _), fun p hp => ?_,
      fun q hq hnot p hp => ?_, ?_⟩
    · obtain ⟨hsub, hsize⟩ := mem_combinations.mp (List.mem_of_mem_take hp)
      exact ⟨hsub, by omega⟩
    · -- what is not taken stands behind what is
      have hall : q ∈ combinations alphabet prefixSize.toNat :=
        mem_combinations.mpr ⟨hq.sublist, by have := hq.length; omega⟩
      rw [← List.take_append_drop maxPrefixes.toNat (combinations alphabet prefixSize.toNat)]
        at hordered hall
      have hdrop := (List.mem_append.mp hall).resolve_left hnot
      exact (List.pairwise_append.mp hordered).2.2 p hp q hdrop
    · rw [hlength]
      split
      · exact iff_of_true rfl (by omega)
      · exact iff_of_false Bool.false_ne_true (by omega)

/-! ## The script -/

/-- The scan of neighbours compares all pairs. -/
theorem isAlphabetical_iff {s : Text} :
    isAlphabetical s = true ↔ s.Pairwise fun a b => a.toNat ≤ b.toNat := by
  unfold isAlphabetical
  rw [decide_eq_true_eq]
  constructor
  · intro h
    rw [h]
    refine (List.pairwise_mergeSort ?_ ?_ s).imp fun {a b} hab => of_decide_eq_true hab
    · intro a b c hab hbc
      exact decide_eq_true (Nat.le_trans (of_decide_eq_true hab) (of_decide_eq_true hbc))
    · intro a b
      have := Nat.le_total a.toNat b.toNat
      simpa using this
  · intro h
    exact (List.mergeSort_of_pairwise (h.imp fun hab => decide_eq_true hab)).symm

/-- The combinations that are not alphabetical. -/
def unsorted (combinations : List Text) : List Text :=
  combinations.filter fun combination => !isAlphabetical combination

/-- The rules for some combinations, from a number on. -/
def rulesFrom (sid : ℕ) (combinations : List Text) : Text :=
  (combinations.mapIdx fun i combination => generatedRule combination (sid + i)).flatten

theorem rulesFrom_cons (sid : ℕ) (combination : Text) (combinations : List Text) :
    rulesFrom sid (combination :: combinations) =
      generatedRule combination sid ++ rulesFrom (sid + 1) combinations := by
  unfold rulesFrom
  rw [List.mapIdx_cons, List.flatten_cons]
  congr 2
  apply congrArg (fun f => combinations.mapIdx f)
  funext i w
  rw [Nat.add_right_comm, Nat.add_assoc]

/-- The set never rejects a combination, as none comes twice. -/
theorem generate_eq {desired : ℕ} {combinations : List Text} (hnodup : combinations.Nodup)
    {s : Generated} (hnew : ∀ w ∈ combinations, w ∉ s.uniqueCombinations)
    (hmore : s.uniqueCombinations.length < desired) :
    (generate desired s combinations).file = s.file ++ rulesFrom s.sid
      ((unsorted combinations).take (desired - s.uniqueCombinations.length)) := by
  induction combinations generalizing s with
  | nil =>
    unfold unsorted
    rw [List.filter_nil, List.take_nil]
    exact (List.append_nil _).symm
  | cons w ws ih =>
    obtain ⟨hw, hws⟩ := List.nodup_cons.mp hnodup
    have hnot : s.uniqueCombinations.elem w = false :=
      Bool.eq_false_iff.mpr fun h => hnew w List.mem_cons_self (List.elem_iff.mp h)
    unfold generate unsorted
    rw [hnot]
    cases halpha : isAlphabetical w with
    | true =>
      rw [List.filter_cons_of_neg (by rw [halpha]; decide)]
      exact ih hws (fun v hv => hnew v (List.mem_cons_of_mem w hv)) hmore
    | false =>
      rw [List.filter_cons_of_pos (by rw [halpha]; decide)]
      obtain ⟨left, hleft⟩ : ∃ left, desired - s.uniqueCombinations.length = left + 1 :=
        ⟨desired - s.uniqueCombinations.length - 1, by omega⟩
      rw [hleft, List.take_succ_cons, rulesFrom_cons, ← List.append_assoc]
      show (if desired ≤ s.uniqueCombinations.length + 1 then (_ : Generated) else _).file = _
      -- the loop breaks with the last rule that is asked for
      by_cases hlast : desired ≤ s.uniqueCombinations.length + 1
      · rw [if_pos hlast]
        obtain rfl : left = 0 := by omega
        exact (List.append_nil _).symm
      · rw [if_neg hlast]
        refine (ih hws ?_ ?_).trans ?_
        · intro v hv hmem
          rcases List.mem_cons.mp hmem with rfl | hmem
          · exact hw hv
          · exact hnew v (List.mem_cons_of_mem w hv) hmem
        · show s.uniqueCombinations.length + 1 < desired
          omega
        · show _ ++ rulesFrom _ (List.take (desired - (s.uniqueCombinations.length + 1)) _) = _
          rw [show desired - (s.uniqueCombinations.length + 1) = left by omega]
          rfl

/-- A letter has a smaller number than another one. -/
def Below (a b : Char) : Prop := a.toNat < b.toNat

/-- A word over the letters that the script looks for. -/
structure Wanted (letters : Text) (repeats : ℕ) (w : Text) : Prop where
  length : w.length = repeats
  letters : ∀ c ∈ w, c ∈ letters
  unsorted : ¬ w.Pairwise fun a b => a.toNat ≤ b.toNat

theorem mem_unsorted_product {letters : Text} {repeats : ℕ} {w : Text} :
    w ∈ unsorted (product letters repeats) ↔ Wanted letters repeats w := by
  unfold unsorted
  rw [List.mem_filter, mem_product, Bool.not_eq_true', ← Bool.not_eq_true, isAlphabetical_iff]
  exact ⟨fun ⟨⟨hlength, hletters⟩, h⟩ => ⟨hlength, hletters, h⟩,
    fun h => ⟨⟨h.length, h.letters⟩, h.unsorted⟩⟩

/-- Sorted words are as many as multisets of letters. -/
theorem length_unsorted_product {letters : Text} (h : letters.Pairwise Below) (repeats : ℕ) :
    (unsorted (product letters repeats)).length =
      letters.length ^ repeats - Nat.multichoose letters.length repeats := by
  have hsorted := length_filter_product (fun c => Nat.le_refl c.toNat)
    (fun w => isAlphabetical_iff)
    (h.imp fun {a b} (hab : a.toNat < b.toNat) => ⟨Nat.le_of_lt hab, Nat.not_le_of_gt hab⟩) repeats
  have htotal := List.length_eq_length_filter_add isAlphabetical (l := product letters repeats)
  rw [length_product, hsorted] at htotal
  rw [htotal]
  exact (Nat.add_sub_cancel_left _ _).symm

theorem pairwise_unsorted_product {letters : Text} (h : letters.Pairwise Below) (repeats : ℕ) :
    (unsorted (product letters repeats)).Pairwise (List.Lex Below) :=
  (pairwise_lex_product h repeats).filter _

/-- **The rules of the script are those of the first unsorted words.** For letters in increasing
order, any length and any positive number: the file has one rule for each of some words, numbered
from 1 on, which are in increasing order, so distinct. Every one has the length and the letters that
are asked for and is not sorted, and every such word that has no rule is greater than those that
have one. They are as many as are asked for, or all there are: all words but one for each multiset
of letters. -/
theorem prefixesGenerate_rules {letters : Text} (hletters : letters.Pairwise Below) (repeats : ℕ)
    {desired : ℕ} (hdesired : 0 < desired) :
    ∃ words, prefixesGenerate letters repeats desired = rulesFrom 1 words ∧
      words.length =
        min desired (letters.length ^ repeats - Nat.multichoose letters.length repeats) ∧
      words.Pairwise (List.Lex Below) ∧
      (∀ w ∈ words, Wanted letters repeats w) ∧
      ∀ v, Wanted letters repeats v → v ∉ words → ∀ w ∈ words, List.Lex Below w v := by
  have hordered := pairwise_unsorted_product hletters repeats
  refine ⟨(unsorted (product letters repeats)).take desired, ?_, ?_, ?_, ?_, ?_⟩
  · have hnodup := nodup_of_pairwise_lex (fun c => Nat.lt_irrefl c.toNat)
      (pairwise_lex_product hletters repeats)
    exact generate_eq hnodup (fun w _ => List.not_mem_nil) hdesired
  · rw [List.length_take, length_unsorted_product hletters]
  · exact hordered.sublist (List.take_sublist _ _)
  · exact fun w hw => mem_unsorted_product.mp (List.mem_of_mem_take hw)
  · intro v hv hnot w hw
    rw [← List.take_append_drop desired (unsorted (product letters repeats)),
      List.pairwise_append] at hordered
    have hsplit := mem_unsorted_product.mpr hv
    rw [← List.take_append_drop desired (unsorted (product letters repeats)),
      List.mem_append] at hsplit
    exact hordered.2.2 w hw v (hsplit.resolve_left hnot)

/-- The script writes a million rules. -/
theorem prefixesGenerate_rules_million :
    ∃ words, prefixesGenerate "abcdefghijklmnopqrstuvwxyz".toList 8 1000000 = rulesFrom 1 words ∧
      words.length = 1000000 ∧ words.Pairwise (List.Lex Below) := by
  have hletters : "abcdefghijklmnopqrstuvwxyz".toList.Pairwise Below := by
    unfold Below
    decide +kernel
  obtain ⟨words, hfile, hlength, hordered, -⟩ :=
    prefixesGenerate_rules hletters 8 (show 0 < 1000000 by omega)
  refine ⟨words, hfile, hlength.trans ?_, hordered⟩
  show min 1000000 (26 ^ 8 - Nat.multichoose 26 8) = 1000000
  rw [Nat.multichoose_eq, Nat.choose_eq_descFactorial_div_factorial]
  rfl

/-! ## `rules_from_patterns` and `extract_content` -/

variable {showRule : Rule → Text} {parseRule : Text → Option Rule}

/-- A rule that is written on a line of its own, where its contents are read. -/
structure Written (showRule : Rule → Text) (parseRule : Text → Option Rule) (r : Rule) : Prop where
  isLine : Csv.IsLine (showRule r)
  stripped : Text.strip (showRule r) = showRule r
  isRule : ¬ (showRule r = [] ∨ ['#'].isPrefixOf (showRule r) = true)
  parsed : ∃ r', parseRule (showRule r) = some r' ∧ r'.getOption "content" = r.getOption "content"

/-- What is extracted of written rules are their contents. -/
theorem extractContentStrings_written {rules : List Rule}
    (h : ∀ r ∈ rules, Written showRule parseRule r) :
    extractContentStrings parseRule ((rules.map showRule).map (· ++ ['\n'])) =
      .ok (rules.flatMap Rule.contentStrings) := by
  induction rules with
  | nil => rfl
  | cons r rules ih =>
    obtain ⟨hr, hrules⟩ := List.forall_mem_cons.mp h
    obtain ⟨r', hparsed, hcontent⟩ := hr.parsed
    have hstrip : Text.strip (showRule r ++ ['\n']) = showRule r :=
      (Text.strip_concat_of_isSpace (by decide) _).trans hr.stripped
    have hstrings : r'.contentStrings = r.contentStrings := congrArg (List.map _) hcontent
    rw [List.map_cons, List.map_cons, extractContentStrings, hstrip, if_neg hr.isRule, parsedRule,
      hparsed, ih hrules, List.flatMap_cons, ← hstrings]
    rfl

/-- The lines of an empty message hold no rule. -/
theorem extractContentStrings_printedLines (lines : List Text) :
    extractContentStrings parseRule ((printedLines lines).map (· ++ ['\n'])) =
      extractContentStrings parseRule (lines.map (· ++ ['\n'])) := by
  unfold printedLines
  split
  · next h =>
    rw [h]
    rfl
  · rfl

/-- Whatever number its rule gets, a pattern is extracted once. -/
theorem contentStrings_mapIdx {f : ℕ → Text → Rule}
    (hf : ∀ i p, (f i p).contentStrings = [suricataContentToRegex (stripQuotes p)])
    (patterns : List Text) :
    (patterns.mapIdx f).flatMap Rule.contentStrings =
      patterns.map fun p => suricataContentToRegex (stripQuotes p) := by
  induction patterns generalizing f with
  | nil => rfl
  | cons p patterns ih =>
    rw [List.mapIdx_cons, List.flatMap_cons, hf, ih fun i => hf (i + 1)]
    rfl

/-- **Rules that are made from contents are extracted to regexes that match them.** For any file
whose lines, but for blank ones and comments, are contents without escapes and without quotes around
them: if the rules made for them are written so that their contents can be read, then what
`extract_content` makes of the file of rules is one regex for each content, in their order, that
matches the bytes of the content and nothing else. -/
theorem rulesFromPatterns_extracted {file : Text} {contents : List Content}
    (hfile : ruleLines (Csv.readlines file) = contents.map Content.render)
    (hplain : ∀ content ∈ contents,
      stripQuotes content.render = content.render ∧ ∀ t ∈ content.tokens, t.Plain)
    (hwritten : ∀ r ∈ (contents.map Content.render).mapIdx patternRule,
      Written showRule parseRule r) :
    ∃ regexes, (rulesFromPatternsCommand showRule (Utf8.encode file)).bind
        (extractContentCommand parseRule) = some (writeLines regexes) ∧
      List.Forall₂ (fun regex content => Pcre.language regex = {content.denote}) regexes
        contents := by
  have hmade : rulesFromPatterns showRule (Csv.readlines file) =
      ((contents.map Content.render).mapIdx patternRule).map showRule := by
    rw [rulesFromPatterns, hfile]
    apply List.ext_getElem
    · simp
    · simp
  refine ⟨contents.map fun content => suricataContentToRegex content.render, ?_, ?_⟩
  · -- the file between the two scripts
    have hrulesFile : rulesFromPatternsCommand showRule (Utf8.encode file) =
        some (writeLines (rulesFromPatterns showRule (Csv.readlines file))) :=
      command_of_decode (Utf8.decode_encode file) rfl
    rw [hrulesFile, Option.bind_some, writeLines_eq]
    refine command_of_decode (Utf8.decode_encode _) ?_
    have hlines : ∀ l ∈ printedLines (rulesFromPatterns showRule (Csv.readlines file)),
        Csv.IsLine l := by
      refine forall_mem_printedLines ⟨List.not_mem_nil, List.not_mem_nil⟩ fun l hl => ?_
      rw [hmade] at hl
      obtain ⟨r, hr, rfl⟩ := List.mem_map.mp hl
      exact (hwritten r hr).isLine
    rw [Csv.readlines_unlines hlines, extractContentStrings_printedLines, hmade,
      extractContentStrings_written hwritten, contentStrings_mapIdx fun _ _ => rfl, List.map_map]
    refine congrArg _ (List.map_congr_left fun content hcontent => ?_)
    exact congrArg _ (hplain content hcontent).1
  · rw [List.forall₂_map_left_iff, List.forall₂_same]
    intro content hcontent
    rw [Pcre.language_eq_singleton_iff]
    exact read_of_plain content.valid (hplain content hcontent).2

/-- `0D 0A`. -/
def lineEndPairs : List HexPair := [⟨[], '0', 'D'⟩, ⟨[' '], '0', 'A'⟩]

theorem valid_lineEndPairs : ∀ p ∈ lineEndPairs, p.Valid :=
  List.forall_mem_cons.mpr ⟨⟨fun _ h => absurd h List.not_mem_nil, rfl, rfl⟩,
    List.forall_mem_singleton.mpr ⟨fun _ h => List.mem_singleton.mp h ▸ rfl, rfl, rfl⟩⟩

/-- `a.|0D 0A|`. -/
def lineEnd : Content where
  tokens := [.char 'a', .char '.', .block lineEndPairs []]
  valid := List.forall_mem_cons.mpr ⟨⟨by decide, by decide⟩,
    List.forall_mem_cons.mpr ⟨⟨by decide, by decide⟩,
      List.forall_mem_singleton.mpr ⟨valid_lineEndPairs, fun _ h => absurd h List.not_mem_nil⟩⟩⟩

/-- The rule that is written for it. -/
def lineEndRule : Text := "alert tcp any any -> any any (content:a.|0D 0A|; sid:0;)".toList

/-- Its regex matches the four bytes. -/
theorem rulesFromPatterns_extracted_lineEnd :
    ∃ regexes, (rulesFromPatternsCommand (fun _ => lineEndRule)
          (Utf8.encode "# patterns\n\na.|0D 0A|\n".toList)).bind
        (extractContentCommand fun l =>
          if l = lineEndRule then some (patternRule 0 lineEnd.render) else none) =
          some (writeLines regexes) ∧
      List.Forall₂ (fun regex content => Pcre.language regex = {content.denote}) regexes
        [lineEnd] := by
  refine rulesFromPatterns_extracted (by decide) ?_ ?_
  · intro content hcontent
    rw [List.mem_singleton.mp hcontent]
    refine ⟨by decide, List.forall_mem_cons.mpr ⟨trivial, List.forall_mem_cons.mpr ⟨trivial, ?_⟩⟩⟩
    exact List.forall_mem_singleton.mpr fun c hc => List.mem_singleton.mp hc
  · intro r hr
    rw [List.mem_singleton.mp hr]
    exact ⟨⟨by decide, by decide⟩, by decide, by decide, _, if_pos rfl, rfl⟩

end Data
end PamoRxpBench
