import PamoRxpBench.Data.PatternExportTheorems
import PamoRxpBench.Data.RxpcFilterTheorems
import PamoRxpBench.Data.SamplerCommands

/-!
# `data`: what the commands read and write

The files of patterns between two commands hold lines: a pcre that is extracted is a part of one
line of the rules (`mem_of_mem_extractPcres`), and the export puts nothing but backslashes into a
pattern (`mem_fixedPattern`). So a file that one command has written is read by the next one as it
was meant (`toHyperscanCommand_unlines`).
-/

namespace PamoRxpBench
namespace Data

/-! ## Commands -/

variable {parseRule : Text → Option Rule}

/-- The lines that are written: an empty message is one empty line. -/
def printedLines (lines : List Text) : List Text := if lines = [] then [[]] else lines

theorem forall_mem_printedLines {P : Text → Prop} {lines : List Text} (hnil : P [])
    (h : ∀ l ∈ lines, P l) : ∀ l ∈ printedLines lines, P l := by
  intro l hl
  unfold printedLines at hl
  split at hl
  · rw [List.mem_singleton.mp hl]
    exact hnil
  · exact h l hl

/-- What a command writes is a file of lines. -/
theorem writeLines_eq (lines : List Text) :
    writeLines lines = Utf8.encode (Csv.unlines (printedLines lines)) := by
  have hunlines : ∀ (l : Text) (lines : List Text),
      ['\n'].intercalate (l :: lines) ++ ['\n'] = Csv.unlines (l :: lines) := by
    intro l lines
    induction lines generalizing l with
    | nil => simp [Csv.unlines]
    | cons l' lines ih =>
      rw [List.intercalate_cons_cons, List.append_assoc, ih]
      simp [Csv.unlines]
  unfold writeLines printedLines
  cases lines with
  | nil => rfl
  | cons l lines => rw [if_neg (List.cons_ne_nil l lines), hunlines]

/-- What a command computes from a file of lines. -/
theorem command_of_decode {action : List Text → Except Error (List Text)} {input : List UInt8}
    {file : Text} {lines : List Text} (hfile : Utf8.decode input = some file)
    (haction : action (Csv.readlines file) = .ok lines) :
    command action input = some (writeLines lines) := by
  rw [command, hfile, Option.bind_some, haction]
  rfl

/-- Every value of an option is a part of the line that was parsed. -/
def ValuesOfLines (parseRule : Text → Option Rule) : Prop :=
  ∀ l r, parseRule l = some r → ∀ o ∈ r.options, ∀ c ∈ o.value, c ∈ l

theorem exists_line_of_mem_pcreStrings {lines pcres : List Text}
    (h : pcreStrings parseRule lines = .ok pcres) {p : Text} (hp : p ∈ pcres) :
    ∃ l ∈ lines, ∃ r, parseRule l = some r ∧ p ∈ r.pcres := by
  induction lines generalizing pcres with
  | nil =>
    cases h
    exact absurd hp List.not_mem_nil
  | cons l lines ih =>
    obtain ⟨r, hr, h⟩ := bind_eq_ok h
    obtain ⟨rest, hrest, h⟩ := bind_eq_ok h
    cases h
    rcases List.mem_append.mp hp with hp | hp
    · exact ⟨l, List.mem_cons_self, r, parsedRule_eq_ok hr, hp⟩
    · obtain ⟨l', hl', hrule⟩ := ih hrest hp
      exact ⟨l', List.mem_cons_of_mem l hl', hrule⟩

/-- A pcre that is extracted is a part of one line of the file. -/
theorem mem_of_mem_extractPcres (hvalues : ValuesOfLines parseRule) {file : Text}
    {pcres : List Text} (h : extractPcres parseRule false (Csv.readlines file) = .ok pcres)
    {p : Text} (hp : p ∈ pcres) {c : Char} (hc : c ∈ p) : c ∈ file ∧ c ≠ '\n' ∧ c ≠ '\r' := by
  obtain ⟨ret, hret, h⟩ := bind_eq_ok h
  cases h
  obtain ⟨l, hl, r, hparse, hmem⟩ := exists_line_of_mem_pcreStrings hret hp
  obtain ⟨o, ho, rfl⟩ := List.mem_map.mp hmem
  have hcl := hvalues l r hparse o (List.mem_of_mem_filter ho) c (mem_of_mem_unquote hc)
  obtain ⟨l', hl', rfl⟩ := List.mem_map.mp hl
  obtain ⟨l'', hl'', rfl⟩ := List.mem_map.mp (List.mem_of_mem_filter hl')
  rw [filterWhitespace_readlines] at hl''
  exact Csv.mem_of_mem_lines (List.mem_of_mem_filter (List.mem_of_mem_filter hl''))
    (Text.mem_of_mem_strip (List.mem_of_mem_filter hcl))

theorem mem_of_mem_stripQuotes {s : Text} {c : Char} (h : c ∈ stripQuotes s) : c ∈ s :=
  (List.dropWhile_suffix _).subset ((List.rdropWhile_prefix _ _).subset h)

theorem exists_line_of_mem_extractContentStrings {file contents : List Text}
    (h : extractContentStrings parseRule file = .ok contents) {e : Text} (he : e ∈ contents) :
    ∃ l ∈ file, ∃ r, parseRule (Text.strip l) = some r ∧ e ∈ r.contentStrings := by
  induction file generalizing contents with
  | nil =>
    cases h
    exact absurd he List.not_mem_nil
  | cons l file ih =>
    unfold extractContentStrings at h
    split at h
    · obtain ⟨l', hl', hrule⟩ := ih h he
      exact ⟨l', List.mem_cons_of_mem l hl', hrule⟩
    · obtain ⟨r, hr, h⟩ := bind_eq_ok h
      obtain ⟨rest, hrest, h⟩ := bind_eq_ok h
      cases h
      rcases List.mem_append.mp he with he | he
      · exact ⟨l, List.mem_cons_self, r, parsedRule_eq_ok hr, he⟩
      · obtain ⟨l', hl', hrule⟩ := ih hrest he
        exact ⟨l', List.mem_cons_of_mem l hl', hrule⟩

/-- The conversion of a content puts nothing but escapes into it. -/
theorem mem_of_mem_extractContentStrings (hvalues : ValuesOfLines parseRule) {file : Text}
    {contents : List Text} (h : extractContentStrings parseRule (Csv.readlines file) = .ok contents)
    {e : Text} (he : e ∈ contents) {c : Char} (hc : c ∈ e) :
    c = '\\' ∨ c = 'x' ∨ c ∈ file ∧ c ≠ '\n' ∧ c ≠ '\r' := by
  obtain ⟨l, hl, r, hparse, hmem⟩ := exists_line_of_mem_extractContentStrings h he
  obtain ⟨o, ho, rfl⟩ := List.mem_map.mp hmem
  rcases mem_regexParts hc with hc | hc | ⟨part, hpart, hc⟩
  · exact Or.inl hc
  · exact Or.inr (Or.inl hc)
  · have hvalue := mem_of_mem_stripQuotes (Text.of_mem_splitOn hpart hc).1
    have hcl := hvalues _ r hparse o (List.mem_of_mem_filter ho) c hvalue
    exact Or.inr (Or.inr (Csv.mem_of_mem_strip_readlines hl hcl))

/-! ## The patterns of the export -/

/-- The export adds backslashes only. -/
theorem mem_mark {inGroup behind : Bool} {s : Text} {c : Char} (h : c ∈ mark inGroup behind s) :
    c ∈ s ∨ c = '\\' := by
  induction s generalizing inGroup behind with
  | nil => exact absurd h List.not_mem_nil
  | cons d s ih =>
    unfold mark at h
    rcases List.mem_append.mp h with h | h
    · split at h
      · rcases List.mem_pair.mp h with h | h
        · exact Or.inr h
        · exact Or.inl (h ▸ List.mem_cons_self)
      · exact Or.inl (List.mem_singleton.mp h ▸ List.mem_cons_self)
    · exact (ih h).imp_left (List.mem_cons_of_mem d)

theorem mem_of_mem_matchedPattern {line : Text} {c : Char} (h : c ∈ matchedPattern line) :
    c ∈ line := by
  unfold matchedPattern searchBody at h
  split at h
  · rename_i rest
    dsimp only at h
    split at h
    · have hrun := (List.rdropWhile_prefix _ _).subset ((List.dropLast_prefix _).subset h)
      exact List.mem_cons_of_mem '/' ((List.takeWhile_prefix _).subset hrun)
    · exact h
  · exact h

theorem mem_fixedPattern {line : Text} {c : Char} (h : c ∈ fixedPattern line) :
    c ∈ line ∨ c = '\\' := by
  rw [fixedPattern, subGroups_eq_mark] at h
  exact (mem_mark h).imp_left mem_of_mem_matchedPattern

theorem isLine_fixedPattern {line : Text} (h : Csv.IsLine line) : Csv.IsLine (fixedPattern line) :=
  ⟨fun hc => (mem_fixedPattern hc).elim h.1 (by decide),
    fun hc => (mem_fixedPattern hc).elim h.2 (by decide)⟩

/-- The lines that are not blank. -/
def notBlank (l : Text) : Bool := !l.all Text.isSpace

/-- `to_hyperscan` on a file of patterns. -/
theorem toHyperscanCommand_unlines {lines : List Text} (hlines : ∀ l ∈ lines, Csv.IsLine l) :
    toHyperscanCommand parseRule (Utf8.encode (Csv.unlines lines)) =
      some (writeLines ((lines.filter notBlank).map fixedPattern)) := by
  refine command_of_decode (Utf8.decode_encode _) ?_
  have hblank : (fun l : Text => decide (¬ Text.strip l = [])) = notBlank := by
    funext l
    rw [Bool.eq_iff_iff, decide_eq_true_eq, notBlank, Bool.not_eq_true', Text.strip_eq_nil_iff,
      ← List.all_eq_true, Bool.not_eq_true]
  rw [toHyperscan, if_pos rfl, filterWhitespace_readlines, Csv.lines_unlines hlines,
    exportLines_fixedPattern, hblank]
  rfl

end Data
end PamoRxpBench
