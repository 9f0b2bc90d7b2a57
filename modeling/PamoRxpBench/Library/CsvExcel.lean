import Mathlib.Data.List.Monad
import PamoRxpBench.Library.Csv

/-!
# `csv` with its default dialect

`csv.reader` and `csv.writer` for files opened with `newline=''`: a field with a comma, a quote or a
line break is quoted, so a row can go over several lines of the file.

* `reader_writer`: rows are read back;
* `length_le_of_reader`: what is read has no fields longer than `field_size_limit`.
-/

namespace PamoRxpBench
namespace CsvExcel

/-- `csv.field_size_limit()`. -/
def fieldSizeLimit : ℕ := 131072

/-- A carriage return or a line feed. -/
def isBreak (c : Char) : Bool := c = '\n' || c = '\r'

/-! ## Reading -/

/-- A line ends behind `c`, when `s` is what follows. -/
def endsLine (c : Char) (s : Text) : Bool := c = '\n' || (c = '\r' && s.head? ≠ some '\n')

/-- The lines of a file opened with `newline=''`, with their ends; `cur` is the line read so far. -/
def rawLinesFrom (cur : Text) : Text → List Text
  | [] => if cur = [] then [] else [cur]
  | c :: s =>
    if endsLine c s then (cur ++ [c]) :: rawLinesFrom [] s else rawLinesFrom (cur ++ [c]) s

/-- The states of the parser. -/
inductive State
  | startRecord
  | startField
  | inField
  | inQuotedField
  | quoteInQuotedField
  | eatCrnl
deriving DecidableEq, Repr

/-- The parser: its state, the field and the row read so far, and the rows that it returned. -/
structure Reader where
  state : State
  field : Text
  fields : List Text
  rows : List (List Text)

/-- The parser before the first line. -/
def Reader.init : Reader := ⟨.startRecord, [], [], []⟩

/-- `parse_add_char`. -/
def Reader.addChar (r : Reader) (c : Char) : Option Reader :=
  if r.field.length < fieldSizeLimit then some { r with field := r.field ++ [c] } else none

/-- `parse_save_field`. -/
def Reader.saveField (r : Reader) : Reader :=
  { r with field := [], fields := r.fields ++ [r.field] }

def Reader.goTo (r : Reader) (state : State) : Reader := { r with state := state }

/-- A character at the start of a field. -/
def Reader.startChar (r : Reader) (c : Char) : Option Reader :=
  if isBreak c then some (r.saveField.goTo .eatCrnl)
  else if c = '"' then some (r.goTo .inQuotedField)
  else if c = ',' then some (r.saveField.goTo .startField)
  else (r.addChar c).map (·.goTo .inField)

/-- `parse_process_char`; `none` is an error. -/
def Reader.processChar (r : Reader) (c : Char) : Option Reader :=
  match r.state with
  | .startRecord => if isBreak c then some (r.goTo .eatCrnl) else r.startChar c
  | .startField => r.startChar c
  | .inField =>
    if isBreak c then some (r.saveField.goTo .eatCrnl)
    else if c = ',' then some (r.saveField.goTo .startField)
    else r.addChar c
  | .inQuotedField => if c = '"' then some (r.goTo .quoteInQuotedField) else r.addChar c
  | .quoteInQuotedField =>
    if c = '"' then (r.addChar c).map (·.goTo .inQuotedField)
    else if c = ',' then some (r.saveField.goTo .startField)
    else if isBreak c then some (r.saveField.goTo .eatCrnl)
    else (r.addChar c).map (·.goTo .inField)
  | .eatCrnl => if isBreak c then some r else none

/-- A row is returned. -/
def Reader.emit (r : Reader) : Reader := ⟨.startRecord, [], [], r.rows ++ [r.fields]⟩

/-- `parse_process_char` at the end of a line. -/
def Reader.endOfLine (r : Reader) : Reader :=
  match r.state with
  | .startRecord => r.emit
  | .startField => r.saveField.emit
  | .inField => r.saveField.emit
  | .inQuotedField => r
  | .quoteInQuotedField => r.saveField.emit
  | .eatCrnl => r.emit

/-- One line of the file. -/
def Reader.line (r : Reader) (line : Text) : Option Reader :=
  (line.foldlM Reader.processChar r).map Reader.endOfLine

/-- The rows at the end of the file: a field may still be open. -/
def Reader.finish (r : Reader) : List (List Text) :=
  if r.field ≠ [] ∨ r.state = .inQuotedField then r.rows ++ [r.fields ++ [r.field]] else r.rows

/-- `list(csv.reader(file))`; `none` is an error. -/
def reader (file : Text) : Option (List (List Text)) :=
  ((rawLinesFrom [] file).foldlM Reader.line .init).map Reader.finish

/-! ## Writing -/

/-- A field that is quoted. -/
def needsQuotes (field : Text) : Bool := field.any fun c => c = ',' || c = '"' || isBreak c

/-- The text in the quotes. -/
def doubled (field : Text) : Text := field.flatMap fun c => if c = '"' then ['"', '"'] else [c]

def writeField (field : Text) : Text :=
  if needsQuotes field then '"' :: doubled field ++ ['"'] else field

/-- The text of a row; a single empty field is quoted. -/
def rowText (row : List Text) : Text :=
  if row = [[]] then ['"', '"'] else Csv.joinFields (row.map writeField)

/-- `csv.writer(file).writerow(row)`. -/
def writeRow (row : List Text) : Text := rowText row ++ ['\r', '\n']

/-- `csv.writer(file).writerows(rows)`. -/
def writer (rows : List (List Text)) : Text := rows.flatMap writeRow

/-! ## A file as one text -/

/-- The parser on the rest of a file; `opened` says whether a line is open. -/
def Reader.text : Bool → Reader → Text → Option Reader
  | opened, r, [] => some (if opened then r.endOfLine else r)
  | _, r, c :: s =>
    (r.processChar c).bind fun r =>
      if endsLine c s then Reader.text false r.endOfLine s else Reader.text true r s

/-- Reading a file line by line is reading its characters, with the ends of its lines. -/
theorem foldlM_rawLinesFrom (r : Reader) (cur s : Text) :
    (rawLinesFrom cur s).foldlM Reader.line r =
      (cur.foldlM Reader.processChar r).bind fun r => r.text (cur ≠ []) s := by
  induction s generalizing r cur with
  | nil =>
    rw [rawLinesFrom]
    by_cases hcur : cur = []
    · rw [if_pos hcur, hcur]
      rfl
    · rw [if_neg hcur, List.foldlM_cons, Reader.line, decide_eq_true hcur]
      cases cur.foldlM Reader.processChar r <;> rfl
  | cons c s ih =>
    have hconcat : (cur ++ [c]).foldlM Reader.processChar r =
        (cur.foldlM Reader.processChar r).bind fun r => r.processChar c := by
      rw [List.foldlM_append]
      show ((cur.foldlM Reader.processChar r).bind fun r => (r.processChar c).bind some) = _
      simp only [Option.bind_fun_some]
    rw [rawLinesFrom]
    by_cases hends : endsLine c s = true
    · rw [if_pos hends, List.foldlM_cons, Reader.line, hconcat]
      cases cur.foldlM Reader.processChar r with
      | none => rfl
      | some u =>
        simp only [Reader.text, if_pos hends, Option.bind_some]
        cases u.processChar c with
        | none => rfl
        | some v => exact ih v.endOfLine []
    · rw [if_neg hends, ih, hconcat]
      cases cur.foldlM Reader.processChar r with
      | none => rfl
      | some u =>
        simp only [Reader.text, if_neg hends, Option.bind_some]
        have hne : cur ++ [c] ≠ [] := List.append_ne_nil_of_right_ne_nil _ (List.cons_ne_nil _ _)
        rw [decide_eq_true hne]

theorem reader_eq (file : Text) :
    reader file = (Reader.init.text false file).map Reader.finish := by
  rw [reader, foldlM_rawLinesFrom]
  rfl

theorem text_cons (opened : Bool) (r : Reader) (c : Char) (s : Text) :
    r.text opened (c :: s) = (r.processChar c).bind fun r =>
      if endsLine c s then r.endOfLine.text false s else r.text true s := rfl

theorem endsLine_of_not_isBreak {c : Char} (hc : isBreak c = false) (s : Text) :
    endsLine c s = false := by
  rw [isBreak, Bool.or_eq_false_iff] at hc
  rw [endsLine, hc.1, hc.2]
  rfl

/-! ## Reading back a field -/

theorem processChar_inField {r : Reader} (h : r.state = .inField) (c : Char) :
    r.processChar c =
      if isBreak c then some (r.saveField.goTo .eatCrnl)
      else if c = ',' then some (r.saveField.goTo .startField)
      else r.addChar c := by
  rw [Reader.processChar, h]

theorem processChar_inQuotedField {r : Reader} (h : r.state = .inQuotedField) (c : Char) :
    r.processChar c = if c = '"' then some (r.goTo .quoteInQuotedField) else r.addChar c := by
  rw [Reader.processChar, h]

theorem processChar_startField {r : Reader} (h : r.state = .startField) (c : Char) :
    r.processChar c = r.startChar c := by
  rw [Reader.processChar, h]

theorem addChar_eq {r : Reader} {c : Char} {rest : Text}
    (h : (r.field ++ c :: rest).length ≤ fieldSizeLimit) :
    r.addChar c = some { r with field := r.field ++ [c] } := by
  rw [List.length_append, List.length_cons] at h
  rw [Reader.addChar, if_pos (by omega)]

theorem length_le_rest {field rest : Text} {c : Char}
    (h : (field ++ c :: rest).length ≤ fieldSizeLimit) :
    ((field ++ [c]) ++ rest).length ≤ fieldSizeLimit := by
  rwa [List.append_assoc, List.singleton_append]

/-- A field without quotes. -/
theorem text_inField {f : Text} (hf : needsQuotes f = false) {r : Reader} (opened : Bool)
    (hstate : r.state = .inField) (hlen : (r.field ++ f).length ≤ fieldSizeLimit) (c : Char)
    (s : Text) :
    r.text opened (f ++ c :: s) = { r with field := r.field ++ f }.text true (c :: s) := by
  induction f generalizing r opened with
  | nil =>
    rw [List.append_nil, List.nil_append]
    rfl
  | cons d f ih =>
    rw [needsQuotes, List.any_cons, Bool.or_eq_false_iff] at hf
    simp only [Bool.or_eq_false_iff, decide_eq_false_iff_not] at hf
    obtain ⟨⟨⟨hcomma, -⟩, hbreak⟩, hf⟩ := hf
    have hstep : r.processChar d = some { r with field := r.field ++ [d] } := by
      rw [processChar_inField hstate, if_neg (by rw [hbreak]; exact Bool.false_ne_true),
        if_neg hcomma, addChar_eq hlen]
    rw [List.cons_append, text_cons, hstep, Option.bind_some, endsLine_of_not_isBreak hbreak,
      if_neg Bool.false_ne_true,
      ih hf (r := { r with field := r.field ++ [d] }) true hstate (length_le_rest hlen)]
    simp only [List.append_assoc, List.singleton_append]

/-- A field in quotes, with its line breaks. -/
theorem text_inQuotedField (f : Text) {r : Reader} (opened : Bool)
    (hstate : r.state = .inQuotedField) (hlen : (r.field ++ f).length ≤ fieldSizeLimit) (c : Char)
    (s : Text) :
    r.text opened (doubled f ++ '"' :: c :: s) =
      { r with state := .quoteInQuotedField, field := r.field ++ f }.text true (c :: s) := by
  induction f generalizing r opened with
  | nil =>
    have hstep : r.processChar '"' = some (r.goTo .quoteInQuotedField) := by
      rw [Reader.processChar, hstate]
      rfl
    show r.text opened ('"' :: c :: s) = _
    rw [text_cons, hstep, List.append_nil]
    rfl
  | cons d f ih =>
    have hrest (opened : Bool) :=
      ih (r := { r with field := r.field ++ [d] }) opened hstate (length_le_rest hlen)
    have hadd : { r with state := State.quoteInQuotedField }.addChar d =
        some { r with state := .quoteInQuotedField, field := r.field ++ [d] } := addChar_eq hlen
    rw [doubled, List.flatMap_cons]
    -- a quote is doubled, so it takes two steps
    by_cases hquote : d = '"'
    · have hfirst : r.processChar '"' = some { r with state := .quoteInQuotedField } := by
        rw [Reader.processChar, hstate]
        rfl
      have hsecond : { r with state := State.quoteInQuotedField }.processChar '"' =
          some { r with field := r.field ++ [d] } := by
        rw [Reader.processChar]
        simp only [if_true]
        rw [← hquote, hadd, ← hstate]
        rfl
      rw [if_pos hquote]
      show r.text opened ('"' :: '"' :: (doubled f ++ '"' :: c :: s)) = _
      rw [text_cons, hfirst, Option.bind_some, endsLine_of_not_isBreak (by decide),
        if_neg Bool.false_ne_true, text_cons, hsecond, Option.bind_some,
        endsLine_of_not_isBreak (by decide), if_neg Bool.false_ne_true, hrest]
      simp only [List.append_assoc, List.singleton_append]
    · have hstep : r.processChar d = some { r with field := r.field ++ [d] } := by
        rw [processChar_inQuotedField hstate, if_neg hquote, addChar_eq hlen]
      have hend : { r with field := r.field ++ [d] }.endOfLine =
          { r with field := r.field ++ [d] } := by
        rw [Reader.endOfLine, hstate]
      rw [if_neg hquote]
      show r.text opened (d :: (doubled f ++ '"' :: c :: s)) = _
      rw [text_cons, hstep, Option.bind_some, hend, hrest, hrest, ite_self]
      simp only [List.append_assoc, List.singleton_append]

/-- The states behind a field. -/
def State.isFieldEnd (state : State) : Bool :=
  state = .startField || state = .inField || state = .quoteInQuotedField

/-- A written field is read back, with or without quotes, when a separator follows. -/
theorem text_writeField {f : Text} {r : Reader} (opened : Bool) (hstate : r.state = .startField)
    (hfield : r.field = []) (hlen : f.length ≤ fieldSizeLimit) (c : Char) (s : Text) :
    ∃ state, state.isFieldEnd = true ∧ r.text opened (writeField f ++ c :: s) =
      { r with state := state, field := f }.text true (c :: s) := by
  unfold writeField
  -- with quotes the field ends behind the second one
  cases hquotes : needsQuotes f with
  | true =>
    have hstep : r.processChar '"' = some (r.goTo .inQuotedField) := by
      rw [Reader.processChar, hstate]
      rfl
    refine ⟨.quoteInQuotedField, rfl, ?_⟩
    rw [if_pos rfl]
    show r.text opened ('"' :: (doubled f ++ ['"']) ++ c :: s) = _
    rw [List.cons_append, List.append_assoc, text_cons, hstep, Option.bind_some,
      endsLine_of_not_isBreak (by decide), if_neg Bool.false_ne_true]
    show (r.goTo .inQuotedField).text true (doubled f ++ '"' :: c :: s) = _
    rw [text_inQuotedField f true rfl (by show (r.field ++ f).length ≤ _; rwa [hfield])]
    show { r with state := _, field := r.field ++ f }.text true _ = _
    rw [hfield, List.nil_append]
  | false =>
    rw [if_neg Bool.false_ne_true]
    -- an empty field leaves the reader where it is
    cases f with
    | nil =>
      refine ⟨.startField, rfl, ?_⟩
      rw [List.nil_append, ← hstate, ← hfield]
      rfl
    | cons d f =>
      rw [needsQuotes, List.any_cons, Bool.or_eq_false_iff] at hquotes
      have hhead := hquotes.1
      simp only [Bool.or_eq_false_iff, decide_eq_false_iff_not] at hhead
      obtain ⟨⟨hcomma, hquote⟩, hbreak⟩ := hhead
      have hlen' : (r.field ++ d :: f).length ≤ fieldSizeLimit := by rwa [hfield]
      have hstep : r.processChar d = some { r with state := .inField, field := [d] } := by
        rw [processChar_startField hstate, Reader.startChar,
          if_neg (by rw [hbreak]; exact Bool.false_ne_true), if_neg hquote, if_neg hcomma,
          addChar_eq hlen', hfield]
        rfl
      refine ⟨.inField, rfl, ?_⟩
      rw [List.cons_append, text_cons, hstep, Option.bind_some, endsLine_of_not_isBreak hbreak,
        if_neg Bool.false_ne_true]
      exact text_inField hquotes.2 (r := { r with state := .inField, field := [d] }) true rfl
        hlen c s

/-! ## Reading back a row -/

theorem text_comma {r : Reader} (opened : Bool) (hstate : r.state.isFieldEnd = true) (s : Text) :
    r.text opened (',' :: s) = (r.saveField.goTo .startField).text true s := by
  have hstep : r.processChar ',' = some (r.saveField.goTo .startField) := by
    rw [Reader.processChar]
    cases h : r.state with
    | startField => rfl
    | inField => rfl
    | quoteInQuotedField => rfl
    | startRecord => rw [h] at hstate; cases hstate
    | inQuotedField => rw [h] at hstate; cases hstate
    | eatCrnl => rw [h] at hstate; cases hstate
  rw [text_cons, hstep]
  rfl

/-- The end of a line, where `u` is what the parser makes of the carriage return. -/
theorem text_crlf {r u : Reader} (opened : Bool) (hcr : r.processChar '\r' = some u)
    (hstate : u.state = .eatCrnl) (s : Text) :
    r.text opened ('\r' :: '\n' :: s) = u.emit.text false s := by
  have hlf : u.processChar '\n' = some u := by
    rw [Reader.processChar, hstate]
    rfl
  have hend : u.endOfLine = u.emit := by rw [Reader.endOfLine, hstate]
  rw [text_cons, hcr, Option.bind_some]
  show u.text true ('\n' :: s) = _
  rw [text_cons, hlf, Option.bind_some, hend]
  rfl

/-- The end of a line ends the field and the row. -/
theorem text_endOfRow {r : Reader} (opened : Bool) (hstate : r.state.isFieldEnd = true) (s : Text) :
    r.text opened ('\r' :: '\n' :: s) = r.saveField.emit.text false s := by
  have hstep : r.processChar '\r' = some (r.saveField.goTo .eatCrnl) := by
    rw [Reader.processChar]
    cases h : r.state with
    | startField => rfl
    | inField => rfl
    | quoteInQuotedField => rfl
    | startRecord => rw [h] at hstate; cases hstate
    | inQuotedField => rw [h] at hstate; cases hstate
    | eatCrnl => rw [h] at hstate; cases hstate
  exact text_crlf opened hstep rfl s

/-- The fields of a row from one on. -/
theorem text_fields {f : Text} {row : List Text} {r : Reader} (opened : Bool)
    (hstate : r.state = .startField) (hfield : r.field = [])
    (hlen : ∀ g ∈ f :: row, g.length ≤ fieldSizeLimit) (s : Text) :
    r.text opened (Csv.joinFields ((f :: row).map writeField) ++ '\r' :: '\n' :: s) =
      Reader.text false ⟨.startRecord, [], [], r.rows ++ [r.fields ++ f :: row]⟩ s := by
  induction row generalizing f r opened with
  | nil =>
    obtain ⟨state, hend, htext⟩ :=
      text_writeField opened hstate hfield (hlen f List.mem_cons_self) '\r' ('\n' :: s)
    show r.text opened (Csv.joinFields [writeField f] ++ _) = _
    rw [Csv.joinFields, List.intercalate_singleton, htext, text_endOfRow true hend]
    rfl
  | cons g row ih =>
    have hjoin : Csv.joinFields ((f :: g :: row).map writeField) =
        writeField f ++ ',' :: Csv.joinFields ((g :: row).map writeField) := by
      show [','].intercalate (writeField f :: writeField g :: row.map writeField) = _
      rw [List.intercalate_cons_cons, List.append_assoc]
      rfl
    rw [hjoin, List.append_assoc, List.cons_append]
    obtain ⟨state, hend, htext⟩ := text_writeField opened hstate hfield
      (hlen f List.mem_cons_self) ','
      (Csv.joinFields ((g :: row).map writeField) ++ '\r' :: '\n' :: s)
    rw [htext, text_comma true hend, ih true rfl rfl fun h hh => hlen h (List.mem_cons_of_mem _ hh)]
    show Reader.text false ⟨_, _, _, r.rows ++ [(r.fields ++ [f]) ++ g :: row]⟩ s = _
    rw [List.append_assoc, List.singleton_append]

/-- The first character of a row. -/
theorem head_rowText (f : Text) (row : List Text) :
    ∃ c s, rowText (f :: row) = c :: s ∧ isBreak c = false := by
  by_cases hempty : f :: row = [[]]
  · exact ⟨'"', ['"'], by rw [rowText, if_pos hempty], rfl⟩
  · rw [rowText, if_neg hempty, List.map_cons]
    have hhead : f = [] ∨ ∃ c s, writeField f = c :: s ∧ isBreak c = false := by
      unfold writeField
      cases hquotes : needsQuotes f with
      | true => exact Or.inr ⟨'"', _, rfl, rfl⟩
      | false =>
        cases f with
        | nil => exact Or.inl rfl
        | cons d f =>
          rw [needsQuotes, List.any_cons, Bool.or_eq_false_iff, Bool.or_eq_false_iff] at hquotes
          exact Or.inr ⟨d, f, rfl, hquotes.1.2⟩
    cases row with
    | nil =>
      rcases hhead with rfl | ⟨c, s, hwrite, hbreak⟩
      · exact absurd rfl hempty
      · refine ⟨c, s, ?_, hbreak⟩
        show [','].intercalate [writeField f] = _
        rw [List.intercalate_singleton, hwrite]
    | cons g row =>
      have hjoin : Csv.joinFields (writeField f :: List.map writeField (g :: row)) =
          writeField f ++ ',' :: Csv.joinFields ((g :: row).map writeField) := by
        show [','].intercalate (writeField f :: writeField g :: row.map writeField) = _
        rw [List.intercalate_cons_cons, List.append_assoc]
        rfl
      rw [hjoin]
      rcases hhead with rfl | ⟨c, s, hwrite, hbreak⟩
      · exact ⟨',', _, rfl, rfl⟩
      · rw [hwrite]
        exact ⟨c, _, rfl, hbreak⟩

/-- Before the first field of a row. -/
theorem text_startRecord {r : Reader} (opened : Bool) (hstate : r.state = .startRecord) {c : Char}
    (hbreak : isBreak c = false) (s : Text) :
    r.text opened (c :: s) = (r.goTo .startField).text opened (c :: s) := by
  have hstep : r.processChar c = (r.goTo .startField).processChar c := by
    have hadd : ((r.goTo .startField).addChar c).map (·.goTo .inField) =
        (r.addChar c).map (·.goTo .inField) := by
      show ((if r.field.length < fieldSizeLimit then _ else none : Option Reader)).map _ = _
      unfold Reader.addChar
      split <;> rfl
    rw [processChar_startField (r := r.goTo .startField) rfl, Reader.startChar, hadd,
      Reader.processChar, hstate]
    show (if isBreak c = true then _ else r.startChar c) = _
    rw [if_neg (by rw [hbreak]; exact Bool.false_ne_true)]
    rfl
  rw [text_cons, text_cons, hstep]

/-- A written row is read back, in front of whatever follows. -/
theorem text_writeRow {row : List Text} (rows : List (List Text))
    (hlen : ∀ f ∈ row, f.length ≤ fieldSizeLimit) (s : Text) :
    Reader.text false ⟨.startRecord, [], [], rows⟩ (writeRow row ++ s) =
      Reader.text false ⟨.startRecord, [], [], rows ++ [row]⟩ s := by
  rw [writeRow, List.append_assoc]
  cases row with
  | nil => exact text_crlf (u := ⟨.eatCrnl, [], [], rows⟩) false rfl rfl s
  | cons f row =>
    obtain ⟨c, t, hrow, hbreak⟩ := head_rowText f row
    have hstart := text_startRecord (r := ⟨.startRecord, [], [], rows⟩) false rfl hbreak
      (t ++ '\r' :: '\n' :: s)
    rw [← List.cons_append, ← hrow] at hstart
    refine hstart.trans ?_
    by_cases hempty : f :: row = [[]]
    · rw [rowText, if_pos hempty, hempty]
      rfl
    · rw [rowText, if_neg hempty]
      exact text_fields false rfl rfl hlen s

/-- Rows are read back. -/
theorem reader_writer {rows : List (List Text)}
    (hlen : ∀ row ∈ rows, ∀ f ∈ row, f.length ≤ fieldSizeLimit) :
    reader (writer rows) = some rows := by
  have hrun (done : List (List Text)) :
      Reader.text false ⟨.startRecord, [], [], done⟩ (writer rows) =
        some ⟨.startRecord, [], [], done ++ rows⟩ := by
    induction rows generalizing done with
    | nil =>
      rw [List.append_nil]
      rfl
    | cons row rows ih =>
      rw [writer, List.flatMap_cons, text_writeRow done (hlen row List.mem_cons_self)]
      rw [← writer, ih (fun r hr => hlen r (List.mem_cons_of_mem _ hr)), List.append_assoc,
        List.singleton_append]
  rw [reader_eq, Reader.init, hrun []]
  rfl

/-! ## What is read -/

/-- No field is longer than the limit. -/
structure Reader.Bounded (r : Reader) : Prop where
  field : r.field.length ≤ fieldSizeLimit
  fields : ∀ f ∈ r.fields, f.length ≤ fieldSizeLimit
  rows : ∀ row ∈ r.rows, ∀ f ∈ row, f.length ≤ fieldSizeLimit

/-- The reader refuses the character that makes a field too long. -/
theorem Reader.Bounded.addChar {r u : Reader} {c : Char} (h : r.Bounded)
    (hu : r.addChar c = some u) : u.Bounded := by
  unfold Reader.addChar at hu
  by_cases hlt : r.field.length < fieldSizeLimit
  · rw [if_pos hlt] at hu
    cases hu
    refine ⟨?_, h.fields, h.rows⟩
    rw [List.length_append]
    exact hlt
  · rw [if_neg hlt] at hu
    cases hu

theorem Reader.Bounded.goTo {r : Reader} (h : r.Bounded) (state : State) : (r.goTo state).Bounded :=
  ⟨h.field, h.fields, h.rows⟩

theorem forall_mem_concat {α : Type} {p : α → Prop} {l : List α} {a : α} (h : ∀ b ∈ l, p b)
    (ha : p a) : ∀ b ∈ l ++ [a], p b := by
  intro b hb
  rcases List.mem_append.mp hb with hb | hb
  · exact h b hb
  · exact List.mem_singleton.mp hb ▸ ha

theorem Reader.Bounded.saveField {r : Reader} (h : r.Bounded) : r.saveField.Bounded :=
  ⟨Nat.zero_le _, forall_mem_concat h.fields h.field, h.rows⟩

theorem Reader.Bounded.emit {r : Reader} (h : r.Bounded) : r.emit.Bounded :=
  ⟨Nat.zero_le _, fun _ hf => absurd hf List.not_mem_nil, forall_mem_concat h.rows h.fields⟩

theorem Reader.Bounded.addChar_goTo {r u : Reader} {c : Char} {state : State} (h : r.Bounded)
    (hu : (r.addChar c).map (·.goTo state) = some u) : u.Bounded := by
  obtain ⟨v, hv, rfl⟩ := Option.map_eq_some_iff.mp hu
  exact (h.addChar hv).goTo state

theorem Reader.Bounded.of_some {r u : Reader} (h : r.Bounded) (hu : some r = some u) : u.Bounded :=
  Option.some.inj hu ▸ h

theorem Reader.Bounded.startChar {r u : Reader} {c : Char} (h : r.Bounded)
    (hu : r.startChar c = some u) : u.Bounded := by
  unfold Reader.startChar at hu
  split at hu
  · exact (h.saveField.goTo _).of_some hu
  · split at hu
    · exact (h.goTo _).of_some hu
    · split at hu
      · exact (h.saveField.goTo _).of_some hu
      · exact h.addChar_goTo hu

theorem Reader.Bounded.processChar {r u : Reader} {c : Char} (h : r.Bounded)
    (hu : r.processChar c = some u) : u.Bounded := by
  unfold Reader.processChar at hu
  cases hstate : r.state with
  | startRecord =>
    rw [hstate] at hu
    dsimp only at hu
    split at hu
    · exact (h.goTo _).of_some hu
    · exact h.startChar hu
  | startField =>
    rw [hstate] at hu
    exact h.startChar hu
  | inField =>
    rw [hstate] at hu
    dsimp only at hu
    split at hu
    · exact (h.saveField.goTo _).of_some hu
    · split at hu
      · exact (h.saveField.goTo _).of_some hu
      · exact h.addChar hu
  | inQuotedField =>
    rw [hstate] at hu
    dsimp only at hu
    split at hu
    · exact (h.goTo _).of_some hu
    · exact h.addChar hu
  | quoteInQuotedField =>
    rw [hstate] at hu
    dsimp only at hu
    split at hu
    · exact h.addChar_goTo hu
    · split at hu
      · exact (h.saveField.goTo _).of_some hu
      · split at hu
        · exact (h.saveField.goTo _).of_some hu
        · exact h.addChar_goTo hu
  | eatCrnl =>
    rw [hstate] at hu
    dsimp only at hu
    split at hu
    · exact h.of_some hu
    · cases hu

theorem Reader.Bounded.endOfLine {r : Reader} (h : r.Bounded) : r.endOfLine.Bounded := by
  unfold Reader.endOfLine
  split
  · exact h.emit
  · exact h.saveField.emit
  · exact h.saveField.emit
  · exact h
  · exact h.saveField.emit
  · exact h.emit

/-- What was read has no field that is too long. -/
theorem Reader.Bounded.text {s : Text} {r u : Reader} {opened : Bool} (h : r.Bounded)
    (hu : r.text opened s = some u) : u.Bounded := by
  induction s generalizing r opened with
  | nil =>
    rw [Reader.text] at hu
    cases opened with
    | true => exact h.endOfLine.of_some hu
    | false => exact h.of_some hu
  | cons c s ih =>
    obtain ⟨v, hv, hrest⟩ := Option.bind_eq_some_iff.mp hu
    have hbounded := h.processChar hv
    split at hrest
    · exact ih hbounded.endOfLine hrest
    · exact ih hbounded hrest

/-- What is read has no fields longer than `field_size_limit`. -/
theorem length_le_of_reader {file : Text} {rows : List (List Text)}
    (h : reader file = some rows) : ∀ row ∈ rows, ∀ f ∈ row, f.length ≤ fieldSizeLimit := by
  rw [reader_eq] at h
  obtain ⟨u, hu, rfl⟩ := Option.map_eq_some_iff.mp h
  have hinit : Reader.init.Bounded :=
    ⟨Nat.zero_le _, fun _ hf => absurd hf List.not_mem_nil, fun _ hf => absurd hf List.not_mem_nil⟩
  have hbounded := hinit.text hu
  unfold Reader.finish
  split
  · exact forall_mem_concat hbounded.rows (forall_mem_concat hbounded.fields hbounded.field)
  · exact hbounded.rows

end CsvExcel
end PamoRxpBench
