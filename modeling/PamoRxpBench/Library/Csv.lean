import PamoRxpBench.Library.Text

/-!
# Files of comma-separated values

Text files as lines, and the rows that `csv.DictReader` makes of them when the lines are split
at the commas and the text of a field is kept as it is.

* `lines_unlines`: lines without line breaks are read back;
* `readlines_forall₂`: `readlines` returns the same lines with their ends;
* `record_joinFields`: fields without commas are read back;
* `isCell_of_dictReader`: what is read has neither.
-/

namespace PamoRxpBench
namespace Csv

/-! ## Lines -/

/-- Universal newlines: a carriage return ends a line, alone or before a line feed. -/
def universalNewlines : Text → Text
  | [] => []
  | c :: s =>
    if c = '\r' then
      if s.head? = some '\n' then universalNewlines s else '\n' :: universalNewlines s
    else c :: universalNewlines s

/-- The lines of a text, without their ends; `cur` is the line read so far. -/
def linesFrom (cur : Text) : Text → List Text
  | [] => if cur = [] then [] else [cur]
  | c :: s => if c = '\n' then cur :: linesFrom [] s else linesFrom (cur ++ [c]) s

/-- The lines of a file opened for reading. -/
def lines (file : Text) : List Text := linesFrom [] (universalNewlines file)

/-- The lines of a text with their ends; `cur` is the line read so far. -/
def readlinesFrom (cur : Text) : Text → List Text
  | [] => if cur = [] then [] else [cur]
  | c :: s =>
    if c = '\n' then (cur ++ [c]) :: readlinesFrom [] s else readlinesFrom (cur ++ [c]) s

/-- `readlines` of a file opened for reading. -/
def readlines (file : Text) : List Text := readlinesFrom [] (universalNewlines file)

/-- The file with the given lines. -/
def unlines (ls : List Text) : Text := ls.flatMap fun l => l ++ ['\n']

/-- A text that is read as one line. -/
def IsLine (l : Text) : Prop := '\n' ∉ l ∧ '\r' ∉ l

theorem IsLine.append {s t : Text} (hs : IsLine s) (ht : IsLine t) : IsLine (s ++ t) :=
  ⟨fun h => (List.mem_append.mp h).elim hs.1 ht.1, fun h => (List.mem_append.mp h).elim hs.2 ht.2⟩

/-- With universal newlines no carriage return is left. -/
theorem not_mem_universalNewlines (s : Text) : '\r' ∉ universalNewlines s := by
  induction s with
  | nil => exact List.not_mem_nil
  | cons c s ih =>
    unfold universalNewlines
    by_cases hc : c = '\r'
    · rw [if_pos hc]
      split
      · exact ih
      · exact List.not_mem_cons_of_ne_of_not_mem (by decide) ih
    · rw [if_neg hc]
      exact List.not_mem_cons_of_ne_of_not_mem (Ne.symm hc) ih

theorem isLine_of_mem_linesFrom {cur s : Text} (hcur : IsLine cur) (hs : '\r' ∉ s) :
    ∀ l ∈ linesFrom cur s, IsLine l := by
  induction s generalizing cur with
  | nil =>
    intro l hl
    unfold linesFrom at hl
    split at hl
    · exact absurd hl List.not_mem_nil
    · rw [List.mem_singleton.mp hl]
      exact hcur
  | cons c s ih =>
    have hcr : '\r' ≠ c := List.ne_of_not_mem_cons hs
    have htail : '\r' ∉ s := List.not_mem_of_not_mem_cons hs
    intro l hl
    unfold linesFrom at hl
    by_cases hc : c = '\n'
    · rw [if_pos hc] at hl
      rcases List.mem_cons.mp hl with rfl | hl
      · exact hcur
      · exact ih ⟨List.not_mem_nil, List.not_mem_nil⟩ htail l hl
    · rw [if_neg hc] at hl
      refine ih ⟨?_, ?_⟩ htail l hl
      · simpa using ⟨hcur.1, Ne.symm hc⟩
      · simpa using ⟨hcur.2, hcr⟩

theorem isLine_of_mem_lines {file l : Text} (h : l ∈ lines file) : IsLine l :=
  isLine_of_mem_linesFrom ⟨List.not_mem_nil, List.not_mem_nil⟩ (not_mem_universalNewlines file) l h

/-- `readlines` has the lines of the text, each with its line feed but maybe the last one. -/
theorem readlinesFrom_forall₂ (cur s : Text) :
    List.Forall₂ (fun r l => r = l ∨ r = l ++ ['\n']) (readlinesFrom cur s) (linesFrom cur s) := by
  induction s generalizing cur with
  | nil =>
    unfold readlinesFrom linesFrom
    by_cases hcur : cur = []
    · rw [if_pos hcur]
      exact .nil
    · rw [if_neg hcur]
      exact .cons (.inl rfl) .nil
  | cons c s ih =>
    unfold readlinesFrom linesFrom
    by_cases hc : c = '\n'
    · rw [if_pos hc, if_pos hc, hc]
      exact .cons (.inr rfl) (ih [])
    · rw [if_neg hc, if_neg hc]
      exact ih (cur ++ [c])

/-- `readlines` returns the lines; only the last one can be without its end. -/
theorem readlines_forall₂ (file : Text) :
    List.Forall₂ (fun r l => r = l ∨ r = l ++ ['\n']) (readlines file) (lines file) :=
  readlinesFrom_forall₂ [] (universalNewlines file)

theorem universalNewlines_of_not_mem {s : Text} (h : '\r' ∉ s) : universalNewlines s = s := by
  induction s with
  | nil => rfl
  | cons c s ih =>
    have hc : c ≠ '\r' := Ne.symm (List.ne_of_not_mem_cons h)
    rw [universalNewlines, if_neg hc, ih (List.not_mem_of_not_mem_cons h)]

/-- The text up to a line feed goes to the line read so far. -/
theorem linesFrom_append {l : Text} (h : '\n' ∉ l) (cur s : Text) :
    linesFrom cur (l ++ '\n' :: s) = (cur ++ l) :: linesFrom [] s := by
  induction l generalizing cur with
  | nil => rw [List.nil_append, List.append_nil, linesFrom, if_pos rfl]
  | cons c l ih =>
    have hc : c ≠ '\n' := Ne.symm (List.ne_of_not_mem_cons h)
    rw [List.cons_append, linesFrom, if_neg hc, ih (List.not_mem_of_not_mem_cons h),
      List.append_assoc, List.singleton_append]

/-- Written lines are read as they are. -/
theorem universalNewlines_unlines {ls : List Text} (h : ∀ l ∈ ls, IsLine l) :
    universalNewlines (unlines ls) = unlines ls := by
  apply universalNewlines_of_not_mem
  intro hmem
  obtain ⟨l, hl, hmem⟩ := List.mem_flatMap.mp hmem
  rcases List.mem_append.mp hmem with hmem | hmem
  · exact (h l hl).2 hmem
  · exact absurd (List.mem_singleton.mp hmem) (by decide)

/-- Lines are read back. -/
theorem lines_unlines {ls : List Text} (h : ∀ l ∈ ls, IsLine l) : lines (unlines ls) = ls := by
  rw [lines, universalNewlines_unlines h]
  induction ls with
  | nil => rfl
  | cons l ls ih =>
    have hl : '\n' ∉ l := (h l List.mem_cons_self).1
    rw [unlines, List.flatMap_cons, List.append_assoc, List.singleton_append,
      linesFrom_append hl, List.nil_append]
    exact congrArg _ (ih fun l hl => h l (List.mem_cons_of_mem _ hl))

/-- A line ends at its line feed. -/
theorem readlinesFrom_append {l : Text} (h : '\n' ∉ l) (cur s : Text) :
    readlinesFrom cur (l ++ '\n' :: s) = (cur ++ l ++ ['\n']) :: readlinesFrom [] s := by
  induction l generalizing cur with
  | nil => rw [List.nil_append, List.append_nil, readlinesFrom, if_pos rfl]
  | cons c l ih =>
    have hc : c ≠ '\n' := Ne.symm (List.ne_of_not_mem_cons h)
    rw [List.cons_append, readlinesFrom, if_neg hc, ih (List.not_mem_of_not_mem_cons h),
      List.append_assoc cur, List.singleton_append]

/-- Lines are read back with their ends. -/
theorem readlines_unlines {ls : List Text} (h : ∀ l ∈ ls, IsLine l) :
    readlines (unlines ls) = ls.map (· ++ ['\n']) := by
  rw [readlines, universalNewlines_unlines h]
  induction ls with
  | nil => rfl
  | cons l ls ih =>
    have hl : '\n' ∉ l := (h l List.mem_cons_self).1
    rw [unlines, List.flatMap_cons, List.append_assoc, List.singleton_append,
      readlinesFrom_append hl, List.nil_append]
    exact congrArg _ (ih fun l hl => h l (List.mem_cons_of_mem _ hl))

/-- The characters of the lines are those of the text. -/
theorem mem_of_mem_linesFrom {cur s l : Text} (hl : l ∈ linesFrom cur s) {c : Char} (hc : c ∈ l) :
    c ∈ cur ∨ c ∈ s := by
  induction s generalizing cur with
  | nil =>
    unfold linesFrom at hl
    split at hl
    · exact absurd hl List.not_mem_nil
    · exact Or.inl (List.mem_singleton.mp hl ▸ hc)
  | cons d s ih =>
    unfold linesFrom at hl
    split at hl
    · rcases List.mem_cons.mp hl with rfl | hl
      · exact Or.inl hc
      · exact Or.inr (List.mem_cons_of_mem d ((ih hl).resolve_left List.not_mem_nil))
    · rcases ih hl with hcur | hs
      · rcases List.mem_append.mp hcur with hcur | hd
        · exact Or.inl hcur
        · exact Or.inr (List.mem_singleton.mp hd ▸ List.mem_cons_self)
      · exact Or.inr (List.mem_cons_of_mem d hs)

theorem mem_universalNewlines {s : Text} {c : Char} (h : c ∈ universalNewlines s) :
    c ∈ s ∨ c = '\n' := by
  induction s with
  | nil => exact absurd h List.not_mem_nil
  | cons d s ih =>
    unfold universalNewlines at h
    have hrest : c ∈ universalNewlines s → c ∈ d :: s ∨ c = '\n' := fun hc =>
      (ih hc).imp_left (List.mem_cons_of_mem d)
    split at h
    · split at h
      · exact hrest h
      · rcases List.mem_cons.mp h with h | h
        · exact Or.inr h
        · exact hrest h
    · rcases List.mem_cons.mp h with h | h
      · exact Or.inl (h ▸ List.mem_cons_self)
      · exact hrest h

/-- The characters of a line. -/
theorem mem_of_mem_lines {file l : Text} (hl : l ∈ lines file) {c : Char} (hc : c ∈ l) :
    c ∈ file ∧ c ≠ '\n' ∧ c ≠ '\r' := by
  have hline := isLine_of_mem_lines hl
  have hfeed : c ≠ '\n' := fun heq => hline.1 (heq ▸ hc)
  have hmem := (mem_of_mem_linesFrom hl hc).resolve_left List.not_mem_nil
  exact ⟨(mem_universalNewlines hmem).resolve_right hfeed, hfeed, fun heq => hline.2 (heq ▸ hc)⟩

/-- A line that is read, with or without its end. -/
theorem exists_line_of_mem_readlines {file r : Text} (h : r ∈ readlines file) :
    ∃ l ∈ lines file, r = l ∨ r = l ++ ['\n'] := by
  have hboth := readlines_forall₂ file
  generalize readlines file = rs at h hboth
  generalize lines file = ls at hboth ⊢
  induction hboth with
  | nil => exact absurd h List.not_mem_nil
  | @cons r' l rs ls hrl _ ih =>
    rcases List.mem_cons.mp h with rfl | h
    · exact ⟨l, List.mem_cons_self, hrl⟩
    · obtain ⟨l', hl', hr⟩ := ih h
      exact ⟨l', List.mem_cons_of_mem l hl', hr⟩

/-- The characters of a line that is read and stripped. -/
theorem mem_of_mem_strip_readlines {file r : Text} (hr : r ∈ readlines file) {c : Char}
    (hc : c ∈ Text.strip r) : c ∈ file ∧ c ≠ '\n' ∧ c ≠ '\r' := by
  obtain ⟨l, hl, hrl⟩ := exists_line_of_mem_readlines hr
  have hstrip : Text.strip r = Text.strip l := by
    rcases hrl with rfl | rfl
    · rfl
    · exact Text.strip_concat_of_isSpace (by decide) l
  rw [hstrip] at hc
  exact mem_of_mem_lines hl (Text.mem_of_mem_strip hc)

/-- The first line of a file. -/
theorem head_eq_of_unlines {l l' : Text} {ls ls' : List Text} (hl : IsLine l) (hl' : IsLine l')
    (h : unlines (l :: ls) = unlines (l' :: ls')) : l = l' := by
  have hfirst : ∀ {l : Text} (ls : List Text), IsLine l →
      linesFrom [] (unlines (l :: ls)) = l :: linesFrom [] (unlines ls) := by
    intro l ls hl
    rw [unlines, List.flatMap_cons, List.append_assoc, List.singleton_append,
      linesFrom_append hl.1, List.nil_append]
    rfl
  have hlines := congrArg (linesFrom []) h
  rw [hfirst ls hl, hfirst ls' hl'] at hlines
  exact (List.cons.inj hlines).1

/-! ## Fields -/

/-- The fields of a line. A blank line has none. -/
def record (line : Text) : List Text := if line = [] then [] else line.splitOn ','

/-- The line with the given fields. -/
def joinFields (fields : List Text) : Text := [','].intercalate fields

/-- A text that is read as one field. -/
def IsCell (s : Text) : Prop := ',' ∉ s ∧ IsLine s

theorem IsCell.cons_blank {s : Text} (h : IsCell s) : IsCell (' ' :: s) := by
  refine ⟨?_, ?_, ?_⟩
  · exact List.not_mem_cons_of_ne_of_not_mem (by decide) h.1
  · exact List.not_mem_cons_of_ne_of_not_mem (by decide) h.2.1
  · exact List.not_mem_cons_of_ne_of_not_mem (by decide) h.2.2

theorem isCell_of_mem_record {line f : Text} (hline : IsLine line) (hf : f ∈ record line) :
    IsCell f := by
  unfold record at hf
  split at hf
  · exact absurd hf List.not_mem_nil
  · exact ⟨fun hc => (Text.of_mem_splitOn hf hc).2 rfl,
      fun hc => hline.1 (Text.of_mem_splitOn hf hc).1,
      fun hc => hline.2 (Text.of_mem_splitOn hf hc).1⟩

/-- Fields are read back, except where they make up a blank line. -/
theorem record_joinFields {fields : List Text} (h : ∀ f ∈ fields, ',' ∉ f)
    (hne : joinFields fields ≠ []) : record (joinFields fields) = fields := by
  have hfields : fields ≠ [] := by
    rintro rfl
    exact hne rfl
  rw [record, if_neg hne]
  exact List.splitOn_intercalate ',' h hfields

theorem length_le_joinFields {f : Text} {fields : List Text} (h : f ∈ fields) :
    f.length ≤ (joinFields fields).length := by
  induction fields with
  | nil => exact absurd h List.not_mem_nil
  | cons g fields ih =>
    unfold joinFields at ih ⊢
    by_cases hnil : fields = []
    · rw [hnil, List.mem_singleton] at h
      rw [hnil, h, List.intercalate_singleton]
    · rw [List.intercalate_cons_of_ne_nil hnil, List.length_append, List.length_append]
      rcases List.mem_cons.mp h with rfl | h
      · omega
      · have := ih h
        omega

/-- Lines with the same fields; a line with one empty field is a line with none. -/
theorem mem_of_joinFields_eq {fields fields' : List Text} (h : ∀ f ∈ fields, ',' ∉ f)
    (h' : ∀ f ∈ fields', ',' ∉ f) (heq : joinFields fields = joinFields fields') {f : Text}
    (hf : f ∈ fields) (hne : f ≠ []) : f ∈ fields' := by
  have hsplit : (joinFields fields).splitOn ',' = fields :=
    List.splitOn_intercalate ',' h (List.ne_nil_of_mem hf)
  rw [← hsplit, heq] at hf
  by_cases hnil : fields' = []
  · rw [hnil] at hf
    exact absurd (List.mem_singleton.mp hf) hne
  · rw [joinFields, List.splitOn_intercalate ',' h' hnil] at hf
    exact hf

/-- The row of some fields is one line. -/
theorem isLine_joinFields {fields : List Text} (h : ∀ f ∈ fields, IsLine f) :
    IsLine (joinFields fields) := by
  induction fields with
  | nil => exact ⟨List.not_mem_nil, List.not_mem_nil⟩
  | cons f fields ih =>
    have hf : IsLine f := h f List.mem_cons_self
    have htail := ih fun g hg => h g (List.mem_cons_of_mem _ hg)
    by_cases hnil : fields = []
    · rw [hnil]
      simpa [joinFields] using hf
    · unfold joinFields at htail ⊢
      rw [List.intercalate_cons_of_ne_nil hnil]
      exact ⟨by simpa using ⟨hf.1, htail.1⟩, by simpa using ⟨hf.2, htail.2⟩⟩

/-- A blank after every comma stands before every field but the first. -/
theorem intercalate_blank (f : Text) (fields : List Text) :
    [',', ' '].intercalate (f :: fields) = joinFields (f :: fields.map (' ' :: ·)) := by
  induction fields generalizing f with
  | nil => rfl
  | cons g fields ih =>
    rw [List.intercalate_cons_cons, ih, List.map_cons, joinFields, joinFields,
      List.intercalate_cons_cons, List.intercalate_cons_cons_left, List.append_assoc,
      List.append_assoc]
    rfl

/-! ## `csv.DictReader` -/

/-- The rows of `csv.DictReader(file)`: the first line is the header, and blank lines are
skipped. `none` stands for a row of another length than the header, which gets a key or a value
that is not a text. -/
def dictReader (file : Text) : Option (List (List (Text × Text))) :=
  match (lines file).map record with
  | [] => some []
  | fieldnames :: rows =>
    let rows := rows.filter fun row => row ≠ []
    if ∀ row ∈ rows, row.length = fieldnames.length then some (rows.map fieldnames.zip) else none

theorem dictReader_of_records {file : Text} {fieldnames : List Text} {records : List (List Text)}
    (h : (lines file).map record = fieldnames :: records) :
    dictReader file =
      if ∀ row ∈ records.filter fun row => row ≠ [], row.length = fieldnames.length then
        some ((records.filter fun row => row ≠ []).map fieldnames.zip)
      else none := by
  unfold dictReader
  rw [h]

/-- What is read has neither commas nor line breaks. -/
theorem isCell_of_dictReader {file : Text} {rows : List (List (Text × Text))}
    (h : dictReader file = some rows) :
    ∀ row ∈ rows, ∀ p ∈ row, IsCell p.1 ∧ IsCell p.2 := by
  have hfields : ∀ r ∈ (lines file).map record, ∀ f ∈ r, IsCell f := by
    intro r hr f hf
    obtain ⟨line, hline, rfl⟩ := List.mem_map.mp hr
    exact isCell_of_mem_record (isLine_of_mem_lines hline) hf
  intro row hrow p hp
  match hrecords : (lines file).map record with
  | [] =>
    rw [dictReader, hrecords] at h
    rw [← Option.some.inj h] at hrow
    exact absurd hrow List.not_mem_nil
  | fieldnames :: records =>
    rw [hrecords] at hfields
    rw [dictReader_of_records hrecords] at h
    split at h
    · rw [← Option.some.inj h] at hrow
      obtain ⟨r, hr, rfl⟩ := List.mem_map.mp hrow
      obtain ⟨hname, hvalue⟩ := List.of_mem_zip hp
      have hr : r ∈ fieldnames :: records := List.mem_cons_of_mem _ (List.mem_of_mem_filter hr)
      exact ⟨hfields _ List.mem_cons_self _ hname, hfields _ hr _ hvalue⟩
    · cases h

end Csv
end PamoRxpBench
