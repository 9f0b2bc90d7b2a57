import PamoRxpBench.Library.Text
import Mathlib.Data.List.Forall2
import Mathlib.Tactic.Tauto

/-!
# Bracket expressions

Regular expressions as far as their bracket expressions are concerned: where they stand, and
the set of characters each denotes. Everything else of a pattern is a sequence of characters,
with or without a backslash before them.

A pattern is outside this syntax (`parse` is `none`) if it ends in a backslash, has a bracket
expression that is not closed, a range in the wrong order, a POSIX class, one of the two escapes
that change how the characters after them are read (`\c` and `\Q`), or in brackets an escape
that takes more than one character (`\x41` is read).

* `SameBody.meaning_eq`: a backslash before an inert character of a bracket expression keeps its
  set;
* `meaning_caret_ne`: one before the negation sign never does;
* `pieces_eq_iff`: so adding backslashes keeps the pieces of a pattern just when they all stand in
  brackets and none before a negation sign.
-/

namespace PamoRxpBench
namespace Brackets

/-! ## Characters of a pattern -/

/-- A character of a pattern, with or without a backslash before it. -/
inductive Glyph
  | plain (c : Char)
  | escaped (c : Char)
deriving DecidableEq, Repr

/-- The character itself. -/
def Glyph.char : Glyph → Char
  | .plain c => c
  | .escaped c => c

/-- The characters of a pattern; the first argument says whether a backslash was just read. -/
def glyphs : Bool → Text → Option (List Glyph)
  | false, [] => some []
  | true, [] => none
  | false, c :: s =>
    if c = '\\' then glyphs true s else (glyphs false s).map (.plain c :: ·)
  | true, c :: s =>
    if c = 'c' ∨ c = 'Q' then none else (glyphs false s).map (.escaped c :: ·)

/-! ## The set of a bracket expression -/

/-- An element of a bracket expression: a character, a hyphen, which may form a range, or a class
such as `\d`. -/
inductive Atom
  | char (c : Char)
  | hyphen
  | class (p : Char → Bool)

/-- What a backslash before a letter or a digit means in brackets; `none` if that depends on more
characters. -/
abbrev Flavour := Char → Option Atom

/-- The blanks of `\s`. -/
def isBlank (c : Char) : Bool := c = ' ' || (9 ≤ c.toNat && c.toNat ≤ 13)

/-- The escapes common to the engines. -/
def perl : Flavour
  | 'd' => some (.class Char.isDigit)
  | 'D' => some (.class fun c => !c.isDigit)
  | 'w' => some (.class fun c => c.isAlphanum || c = '_')
  | 'W' => some (.class fun c => !(c.isAlphanum || c = '_'))
  | 's' => some (.class isBlank)
  | 'S' => some (.class fun c => !isBlank c)
  | 'n' => some (.char '\n')
  | 'r' => some (.char '\r')
  | 't' => some (.char '\t')
  | _ => none

/-- A character of a bracket expression before the escapes are resolved. -/
inductive Member
  | char (c : Char)
  | hyphen
  | named (c : Char)
deriving DecidableEq, Repr

/-- A backslash before anything but a letter or a digit stands for that character. -/
def Glyph.member : Glyph → Member
  | .plain c => if c = '-' then .hyphen else .char c
  | .escaped c => if c.isAlphanum then .named c else .char c

/-- The value of a hexadecimal digit. -/
def hexDigit (c : Char) : Option ℕ :=
  if '0' ≤ c ∧ c ≤ '9' then some (c.toNat - 48)
  else if 'a' ≤ c ∧ c ≤ 'f' then some (c.toNat - 87)
  else if 'A' ≤ c ∧ c ≤ 'F' then some (c.toNat - 55)
  else none

/-- The character `\xHH`. -/
def hexEscape (c h l : Char) : Option Char :=
  match hexDigit h, hexDigit l with
  | some hi, some lo => if c = 'x' then some (Char.ofNat (16 * hi + lo)) else none
  | _, _ => none

/-- The elements of a bracket expression. -/
def resolve (flavour : Flavour) : List Member → Option (List Atom)
  | [] => some []
  | .char c :: ms => (resolve flavour ms).map (.char c :: ·)
  | .hyphen :: ms => (resolve flavour ms).map (.hyphen :: ·)
  -- only `\xHH` takes the two characters after it
  | .named c :: .char h :: .char l :: ms =>
    match hexEscape c h l with
    | some d => (resolve flavour ms).map (.char d :: ·)
    | none => (flavour c).bind fun a => (resolve flavour (.char h :: .char l :: ms)).map (a :: ·)
  | .named c :: ms => (flavour c).bind fun a => (resolve flavour ms).map (a :: ·)

/-- The character an element can give a range. -/
def Atom.char? : Atom → Option Char
  | .char c => some c
  | .hyphen => some '-'
  | .class _ => none

/-- The set of one element. -/
def Atom.mem : Atom → Char → Bool
  | .char c => fun d => d = c
  | .hyphen => fun d => d = '-'
  | .class p => p

/-- The set of the elements: a hyphen between two characters forms a range. -/
def denote : List Atom → Option (Char → Bool)
  | [] => some fun _ => false
  | a :: .hyphen :: b :: as =>
    match a.char?, b.char? with
    | some lo, some hi =>
      if lo ≤ hi then (denote as).map fun p c => (lo ≤ c && c ≤ hi) || p c else none
    -- a class has no place in a range, and the hyphen stands for itself
    | _, _ => (denote (.hyphen :: b :: as)).map fun p c => a.mem c || p c
  | a :: as => (denote as).map fun p c => a.mem c || p c

/-- A POSIX class such as `[:digit:]` ends at the closing bracket. -/
def posixClass : List Glyph → Bool
  | g :: g' :: gs =>
    (g = .plain '[' && g' ∈ [Glyph.plain ':', .plain '.', .plain '='] &&
      (gs.map Glyph.char).getLast? = some g'.char) || posixClass (g' :: gs)
  | _ => false

/-- The set of a bracket expression, without its negation sign. -/
def items (flavour : Flavour) (b : List Glyph) : Option (Char → Bool) :=
  (resolve flavour (b.map Glyph.member)).bind denote

/-- The set of a bracket expression, given what stands between the brackets. -/
def meaning (flavour : Flavour) (b : List Glyph) : Option (Char → Bool) :=
  if posixClass b then none
  else if b.head? = some (.plain '^') then (items flavour b.tail).map fun p c => !p c
  else items flavour b

/-! ## The pieces of a pattern -/

/-- A piece of a pattern: a character outside brackets, or a bracket expression, with the number
of characters between its brackets and its set. -/
inductive Piece
  | outside (g : Glyph)
  | bracket (width : ℕ) (set : Char → Bool)

/-- The bracket that closes the expression `b`; right after `[` or `[^` it is an element. -/
def Closes (b : List Glyph) (g : Glyph) : Prop :=
  g = .plain ']' ∧ b ≠ [] ∧ b ≠ [.plain '^']

instance (b : List Glyph) (g : Glyph) : Decidable (Closes b g) :=
  inferInstanceAs (Decidable (_ ∧ _ ∧ _))

/-- What is read of the bracket expression that is open, if one is, after one more character. -/
def step : Option (List Glyph) → Glyph → Option (List Glyph)
  | none, g => if g = .plain '[' then some [] else none
  | some b, g => if Closes b g then none else some (b ++ [g])

/-- The bracket expression that is open after `pre`. -/
def openBody (pre : List Glyph) : Option (List Glyph) := pre.foldl step none

/-- The pieces of the rest of a pattern. -/
def pieces (flavour : Flavour) : Option (List Glyph) → List Glyph → Option (List Piece)
  | none, [] => some []
  | some _, [] => none
  | none, g :: gs =>
    if g = .plain '[' then pieces flavour (some []) gs
    else (pieces flavour none gs).map (.outside g :: ·)
  | some b, g :: gs =>
    if Closes b g then
      (meaning flavour b).bind fun p => (pieces flavour none gs).map (.bracket b.length p :: ·)
    else pieces flavour (some (b ++ [g])) gs

/-- The pieces of a pattern. -/
def parse (flavour : Flavour) (s : Text) : Option (List Piece) :=
  (glyphs false s).bind (pieces flavour none)

/-! ## Backslashes in brackets -/

/-- A character that means nothing special inside a bracket expression, once it is not the
negation sign: a backslash before it changes nothing. -/
def Inert (c : Char) : Prop := c.isAlphanum = false ∧ c ∉ "-[]:.=\\".toList

instance (c : Char) : Decidable (Inert c) := inferInstanceAs (Decidable (_ ∧ _))

/-- The second is the first, perhaps with a backslash before an inert character. -/
def Alike (g g' : Glyph) : Prop := g' = g ∨ ∃ c, Inert c ∧ g = .plain c ∧ g' = .escaped c

theorem Alike.refl (g : Glyph) : Alike g g := .inl rfl

theorem Alike.char_eq {g g' : Glyph} (h : Alike g g') : g'.char = g.char := by
  rcases h with rfl | ⟨c, _, rfl, rfl⟩ <;> rfl

theorem Alike.member_eq {g g' : Glyph} (h : Alike g g') : g'.member = g.member := by
  rcases h with rfl | ⟨c, hc, rfl, rfl⟩
  · rfl
  · have hhyphen : c ≠ '-' := by
      rintro rfl
      exact hc.2 (by decide)
    simp [Glyph.member, hc.1, hhyphen]

/-- A character with a part to play keeps it. -/
theorem Alike.plain_iff {g g' : Glyph} (h : Alike g g') {d : Char} (hd : ¬ Inert d) :
    g' = .plain d ↔ g = .plain d := by
  rcases h with rfl | ⟨c, hc, rfl, rfl⟩
  · exact Iff.rfl
  · constructor
    · exact fun heq => nomatch heq
    · intro heq
      exact absurd (Glyph.plain.inj heq ▸ hc) hd

theorem map_char_eq {b b' : List Glyph} (h : List.Forall₂ Alike b b') :
    b'.map Glyph.char = b.map Glyph.char := by
  induction h with
  | nil => rfl
  | cons hg _ ih => rw [List.map_cons, List.map_cons, hg.char_eq, ih]

theorem map_member_eq {b b' : List Glyph} (h : List.Forall₂ Alike b b') :
    b'.map Glyph.member = b.map Glyph.member := by
  induction h with
  | nil => rfl
  | cons hg _ ih => rw [List.map_cons, List.map_cons, hg.member_eq, ih]

theorem items_congr (flavour : Flavour) {b b' : List Glyph} (h : List.Forall₂ Alike b b') :
    items flavour b' = items flavour b := by
  rw [items, items, map_member_eq h]

/-- What is alike is the same class: the names have no escapes. -/
theorem posixClass_congr {b b' : List Glyph} (h : List.Forall₂ Alike b b') :
    posixClass b' = posixClass b := by
  induction h with
  | nil => rfl
  | cons hg htail ih =>
    cases htail with
    | nil => rfl
    | cons hg' hrest =>
      have hopen := hg.plain_iff (d := '[') (by decide)
      have hcolon := hg'.plain_iff (d := ':') (by decide)
      have hdot := hg'.plain_iff (d := '.') (by decide)
      have hequal := hg'.plain_iff (d := '=') (by decide)
      unfold posixClass
      rw [ih, map_char_eq hrest, hg'.char_eq]
      simp only [List.mem_cons, List.not_mem_nil, or_false, hopen, hcolon, hdot, hequal]

/-- What is read of a bracket expression, and the same with backslashes before some inert
characters but not before the negation sign. -/
structure SameBody (b b' : List Glyph) : Prop where
  alike : List.Forall₂ Alike b b'
  negated_iff : b'.head? = some (.plain '^') ↔ b.head? = some (.plain '^')

theorem SameBody.nil : SameBody [] [] := ⟨.nil, Iff.rfl⟩

/-- Bodies stay the same with one more glyph, if it does not make one of them negated. -/
theorem SameBody.concat {b b' : List Glyph} {g g' : Glyph} (h : SameBody b b') (hg : Alike g g')
    (hneg : b = [] → g = .plain '^' → g' = g) : SameBody (b ++ [g]) (b' ++ [g']) := by
  refine ⟨List.rel_append h.alike (.cons hg .nil), ?_⟩
  cases h.alike with
  | nil =>
    rcases hg with rfl | ⟨c, _, rfl, rfl⟩
    · exact Iff.rfl
    · have : c ≠ '^' := by
        rintro rfl
        exact nomatch hneg rfl rfl
      simp [this]
  | cons _ _ => exact h.negated_iff

/-- Backslashes before inert characters do not change the set. -/
theorem SameBody.meaning_eq (flavour : Flavour) {b b' : List Glyph} (h : SameBody b b') :
    meaning flavour b' = meaning flavour b := by
  have htail : items flavour b'.tail = items flavour b.tail := by
    cases h.alike with
    | nil => rfl
    | cons _ htail => exact items_congr flavour htail
  rw [meaning, meaning, posixClass_congr h.alike, htail, items_congr flavour h.alike]
  simp only [h.negated_iff]

/-- Bodies that are the same end at the same bracket. -/
theorem SameBody.closes_iff {b b' : List Glyph} {g g' : Glyph} (h : SameBody b b')
    (hg : Alike g g') : Closes b' g' ↔ Closes b g := by
  have hnil : b' = [] ↔ b = [] := by
    cases h.alike <;> simp
  have hcaret : b' = [.plain '^'] ↔ b = [.plain '^'] := by
    cases h.alike with
    | nil => exact Iff.rfl
    | cons _ htail =>
      have hhead := h.negated_iff
      simp only [List.head?_cons, Option.some.injEq] at hhead
      cases htail <;> simp [hhead]
  have hbracket : g' = .plain ']' ↔ g = .plain ']' := hg.plain_iff (by decide)
  rw [Closes, Closes, hbracket, Ne, Ne, hnil, hcaret]

/-! ## The negation sign -/

/-- The elements after a first one that forms no range with them. -/
theorem denote_cons {a : Atom} {as : List Atom}
    (h : ∀ b bs, as = .hyphen :: b :: bs → a.char? = none ∨ b.char? = none) :
    denote (a :: as) = (denote as).map fun p c => a.mem c || p c := by
  match as, h with
  | [], _ => rfl
  | [.hyphen], _ => rfl
  | .char _ :: _, _ => rfl
  | .class _ :: _, _ => rfl
  | .hyphen :: b :: bs, h =>
    rw [denote]
    split
    · rename_i lo hi hlo hhi
      rcases h b bs rfl with hnone | hnone
      · rw [hnone] at hlo; exact nomatch hlo
      · rw [hnone] at hhi; exact nomatch hhi
    · rfl

/-- An atom that begins no range stands for itself. -/
theorem denote_cons_of_not_range {a : Atom} {as : List Atom}
    (h : ¬ ∃ b bs hi, as = .hyphen :: b :: bs ∧ b.char? = some hi) :
    denote (a :: as) = (denote as).map fun p c => a.mem c || p c := by
  apply denote_cons
  intro b bs heq
  right
  by_contra hne
  obtain ⟨hi, hhi⟩ := Option.ne_none_iff_exists'.mp hne
  exact h ⟨b, bs, hi, heq, hhi⟩

theorem denote_range {a b : Atom} {as : List Atom} {lo hi : Char} (hlo : a.char? = some lo)
    (hhi : b.char? = some hi) :
    denote (a :: .hyphen :: b :: as) =
      if lo ≤ hi then (denote as).map fun p c => (lo ≤ c && c ≤ hi) || p c else none := by
  rw [denote, hlo, hhi]

/-- A character that comes first is in the set, alone or as the start of a range. -/
theorem mem_denote_head {a : Atom} {as : List Atom} {p : Char → Bool} {c : Char}
    (hc : a.char? = some c) (h : denote (a :: as) = some p) : p c = true := by
  by_cases hrange : ∃ b bs hi, as = .hyphen :: b :: bs ∧ b.char? = some hi
  · obtain ⟨b, bs, hi, rfl, hhi⟩ := hrange
    rw [denote_range hc hhi] at h
    split at h
    · rename_i hle
      obtain ⟨q, _, rfl⟩ := Option.map_eq_some_iff.mp h
      simp [hle]
    · exact nomatch h
  · rw [denote_cons_of_not_range hrange] at h
    obtain ⟨q, _, rfl⟩ := Option.map_eq_some_iff.mp h
    have hmem : a.mem c = true := by
      cases a with
      | char d => simpa [Atom.mem, Atom.char?, eq_comm] using hc
      | hyphen => simpa [Atom.mem, Atom.char?, eq_comm] using hc
      | «class» q => exact nomatch hc
    simp [hmem]

/-- With `^` as an element the set is not the complement of what it is without. -/
theorem denote_caret_ne {as : List Atom} {p p' : Char → Bool} (h : denote as = some p)
    (h' : denote (.char '^' :: as) = some p') : p' ≠ fun c => !p c := by
  intro heq
  by_cases hrange : ∃ b bs hi, as = .hyphen :: b :: bs ∧ b.char? = some hi
  · obtain ⟨b, bs, hi, rfl, hhi⟩ := hrange
    -- `^-b` is a range now; without the `^` the hyphen and `b` are elements
    rw [denote_range rfl hhi] at h'
    split at h'
    · rename_i hle
      obtain ⟨q, _, rfl⟩ := Option.map_eq_some_iff.mp h'
      rw [denote_cons] at h
      · obtain ⟨r, hr, rfl⟩ := Option.map_eq_some_iff.mp h
        have hmem : r hi = true := mem_denote_head hhi hr
        have := congrFun heq hi
        simp [hle, hmem] at this
      · rintro b' bs' hbs
        obtain ⟨rfl, rfl⟩ := List.cons.inj hbs
        -- `b` is not a hyphen: it would come before `^`
        cases Option.some.inj hhi
        exact absurd hle (by decide)
    · exact nomatch h'
  · rw [denote_cons_of_not_range hrange, h] at h'
    rw [← Option.some.inj h'] at heq
    have := congrFun heq 'a'
    cases hp : p 'a' <;> simp [Atom.mem, hp] at this

/-- A backslash before the negation sign changes the set. -/
theorem meaning_caret_ne {flavour : Flavour} {b b' : List Glyph} {p p' : Char → Bool}
    (halike : List.Forall₂ Alike b b') (h : meaning flavour (.plain '^' :: b) = some p)
    (h' : meaning flavour (.escaped '^' :: b') = some p') : p' ≠ p := by
  unfold meaning at h h'
  split at h
  · exact nomatch h
  split at h'
  · exact nomatch h'
  rw [if_pos List.head?_cons, List.tail_cons] at h
  rw [if_neg (by simp), items] at h'
  obtain ⟨q, hq, rfl⟩ := Option.map_eq_some_iff.mp h
  obtain ⟨as, has, hden⟩ := Option.bind_eq_some_iff.mp hq
  have hresolve : resolve flavour ((Glyph.escaped '^' :: b').map Glyph.member) =
      some (.char '^' :: as) := by
    show (resolve flavour (b'.map Glyph.member)).map _ = _
    rw [map_member_eq halike, has, Option.map_some]
  rw [hresolve, Option.bind_some] at h'
  exact denote_caret_ne hden h'

/-! ## One character of a pattern -/

/-- The piece that is complete with `g`, if one is. -/
def emit (flavour : Flavour) : Option (List Glyph) → Glyph → Option (List Piece)
  | none, g => some (if g = .plain '[' then [] else [.outside g])
  | some b, g =>
    if Closes b g then (meaning flavour b).map fun p => [.bracket b.length p] else some []

/-- The pieces of a pattern are read from left to right. -/
theorem pieces_cons (flavour : Flavour) (st : Option (List Glyph)) (g : Glyph) (gs : List Glyph) :
    pieces flavour st (g :: gs) =
      (emit flavour st g).bind fun head => (pieces flavour (step st g) gs).map (head ++ ·) := by
  cases st with
  | none =>
    by_cases hg : g = .plain '['
    · rw [pieces, emit, step, if_pos hg, if_pos hg, if_pos hg]
      exact Option.map_id'.symm
    · rw [pieces, emit, step, if_neg hg, if_neg hg, if_neg hg]
      rfl
  | some b =>
    by_cases hg : Closes b g
    · rw [pieces, emit, step, if_pos hg, if_pos hg, if_pos hg]
      cases meaning flavour b <;> rfl
    · rw [pieces, emit, step, if_neg hg, if_neg hg, if_neg hg]
      exact Option.map_id'.symm

/-- The pieces of a pattern are those of its first glyph and of the rest. -/
theorem pieces_cons_eq_some {flavour : Flavour} {st : Option (List Glyph)} {g : Glyph}
    {gs : List Glyph} {ps : List Piece} :
    pieces flavour st (g :: gs) = some ps ↔
      ∃ head rest, emit flavour st g = some head ∧ pieces flavour (step st g) gs = some rest ∧
        ps = head ++ rest := by
  rw [pieces_cons, Option.bind_eq_some_iff]
  constructor
  · rintro ⟨head, hhead, h⟩
    obtain ⟨rest, hrest, rfl⟩ := Option.map_eq_some_iff.mp h
    exact ⟨head, rest, hhead, hrest, rfl⟩
  · rintro ⟨head, rest, hhead, hrest, rfl⟩
    exact ⟨head, hhead, Option.map_eq_some_iff.mpr ⟨rest, hrest, rfl⟩⟩

/-- What follows a part of a pattern is read from the state after that part. -/
theorem pieces_append {flavour : Flavour} {st : Option (List Glyph)} {xs ys : List Glyph}
    {ps : List Piece} (h : pieces flavour st (xs ++ ys) = some ps) :
    ∃ ps', pieces flavour (xs.foldl step st) ys = some ps' := by
  induction xs generalizing st ps with
  | nil => exact ⟨ps, h⟩
  | cons g xs ih =>
    obtain ⟨_, rest, _, hrest, _⟩ := pieces_cons_eq_some.mp h
    exact ih hrest

theorem openBody_concat (pre : List Glyph) (g : Glyph) :
    openBody (pre ++ [g]) = step (openBody pre) g := by
  rw [openBody, List.foldl_append]
  rfl

/-- A bracket expression of which nothing is read yet has just been opened. -/
theorem openBody_eq_some_nil {pre : List Glyph} (h : openBody pre = some []) :
    ∃ pre', pre = pre' ++ [.plain '['] := by
  rcases List.eq_nil_or_concat' pre with rfl | ⟨pre', g, rfl⟩
  · exact nomatch h
  · rw [openBody_concat] at h
    cases hst : openBody pre' with
    | none =>
      rw [hst, step] at h
      split at h
      · rename_i hg
        exact ⟨pre', by rw [hg]⟩
      · exact nomatch h
    | some b =>
      rw [hst, step] at h
      split at h
      · exact nomatch h
      · exact absurd (Option.some.inj h) (by simp)

/-- An open bracket expression is closed by a bracket, and is the first piece. -/
theorem pieces_of_open {flavour : Flavour} {b gs : List Glyph} {ps : List Piece}
    (h : pieces flavour (some b) gs = some ps) :
    .plain ']' ∈ gs ∧ ∃ w p rest, ps = .bracket w p :: rest ∧ b.length ≤ w := by
  induction gs generalizing b ps with
  | nil => exact nomatch h
  | cons g gs ih =>
    obtain ⟨head, rest, hhead, hrest, rfl⟩ := pieces_cons_eq_some.mp h
    rw [emit] at hhead
    rw [step] at hrest
    by_cases hcloses : Closes b g
    · rw [if_pos hcloses] at hhead
      obtain ⟨p, _, rfl⟩ := Option.map_eq_some_iff.mp hhead
      exact ⟨hcloses.1 ▸ List.mem_cons_self, b.length, p, rest, rfl, le_rfl⟩
    · rw [if_neg hcloses] at hhead hrest
      obtain rfl := Option.some.inj hhead
      obtain ⟨hmem, w, p, rest', rfl, hw⟩ := ih hrest
      rw [List.length_append] at hw
      exact ⟨List.mem_cons_of_mem g hmem, w, p, rest', rfl, by omega⟩

/-! ## The pieces with more backslashes -/

/-- Once the negation sign has a backslash, the pieces differ, whatever follows. -/
theorem pieces_ne_of_caret {flavour : Flavour} {gs gs' : List Glyph}
    (hgs : List.Forall₂ Alike gs gs') {b b' : List Glyph} (hb : List.Forall₂ Alike b b')
    {ps : List Piece} (h : pieces flavour (some (.plain '^' :: b)) gs = some ps) :
    pieces flavour (some (.escaped '^' :: b')) gs' ≠ some ps := by
  intro h'
  induction hgs generalizing b b' ps with
  | nil => exact nomatch h
  | @cons g g' gs gs' hg hgs ih =>
    have hbracket : g' = .plain ']' ↔ g = .plain ']' := hg.plain_iff (by decide)
    by_cases hclose : g = .plain ']'
    · have hcloses' : Closes (.escaped '^' :: b') g' := ⟨hbracket.mpr hclose, by simp, by simp⟩
      obtain ⟨head', rest', hhead', _, hps⟩ := pieces_cons_eq_some.mp h'
      rw [emit, if_pos hcloses'] at hhead'
      obtain ⟨p', hp', rfl⟩ := Option.map_eq_some_iff.mp hhead'
      cases hb with
      | nil =>
        -- `[^]` is not closed, but `[\^]` is, one character too early
        rw [pieces, if_neg fun hc => hc.2.2 rfl] at h
        obtain ⟨_, w, p, rest, rfl, hw⟩ := pieces_of_open h
        obtain ⟨hwidth, _⟩ := Piece.bracket.inj (List.cons.inj hps).1
        simp only [List.length_cons, List.length_nil, List.length_append] at hwidth hw
        omega
      | @cons x x' b b' hx hb =>
        -- both are closed here, and the sets differ
        have hcloses : Closes (.plain '^' :: x :: b) g := ⟨hclose, by simp, by simp⟩
        obtain ⟨head, rest, hhead, _, rfl⟩ := pieces_cons_eq_some.mp h
        rw [emit, if_pos hcloses] at hhead
        obtain ⟨p, hp, rfl⟩ := Option.map_eq_some_iff.mp hhead
        obtain ⟨_, hset⟩ := Piece.bracket.inj (List.cons.inj hps).1
        exact meaning_caret_ne (.cons hx hb) hp hp' hset.symm
    · rw [pieces, if_neg fun hc => hclose hc.1] at h
      rw [pieces, if_neg fun hc => hclose (hbracket.mp hc.1)] at h'
      exact ih (List.rel_append hb (.cons hg .nil)) h h'

/-- What is open before the rest of a pattern and of the same with more backslashes. -/
inductive SameState : Option (List Glyph) → Option (List Glyph) → Prop
  | outside : SameState none none
  | inside {b b' : List Glyph} : SameBody b b' → SameState (some b) (some b')

/-- A backslash that `g'` has and `g` has not stands in brackets, and not before the negation
sign. -/
def KeptAt (st : Option (List Glyph)) (g g' : Glyph) : Prop :=
  g' ≠ g → st ≠ none ∧ ¬ (st = some [] ∧ g = .plain '^')

/-- The backslashes of `gs'` that `gs` lacks all stand in brackets, and never before the negation
sign; `st` is what is open before `gs`. -/
def InBrackets : Option (List Glyph) → List Glyph → List Glyph → Prop
  | st, g :: gs, g' :: gs' => KeptAt st g g' ∧ InBrackets (step st g) gs gs'
  | _, _, _ => True

/-- A backslash in brackets changes neither the piece nor the state. -/
theorem SameState.step_of_kept (flavour : Flavour) {st st' : Option (List Glyph)} {g g' : Glyph}
    (hst : SameState st st') (hg : Alike g g') (hkept : KeptAt st g g') :
    emit flavour st' g' = emit flavour st g ∧ SameState (step st g) (step st' g') := by
  cases hst with
  | outside =>
    have hsame : g' = g := by
      by_contra hne
      exact (hkept hne).1 rfl
    subst hsame
    refine ⟨rfl, ?_⟩
    rw [step]
    split
    · exact .inside .nil
    · exact .outside
  | @inside b b' hb =>
    rw [emit, emit, step, step]
    by_cases hcloses : Closes b g
    · have hcloses' := (hb.closes_iff hg).mpr hcloses
      rw [if_pos hcloses, if_pos hcloses', if_pos hcloses, if_pos hcloses', hb.meaning_eq,
        hb.alike.length_eq]
      exact ⟨rfl, .outside⟩
    · have hcloses' := fun h => hcloses ((hb.closes_iff hg).mp h)
      rw [if_neg hcloses, if_neg hcloses', if_neg hcloses, if_neg hcloses']
      refine ⟨rfl, .inside (hb.concat hg fun hnil hcaret => ?_)⟩
      by_contra hne
      exact (hkept hne).2 ⟨congrArg some hnil, hcaret⟩

/-- A backslash outside brackets is seen, and one before the negation sign changes the set. -/
theorem pieces_ne_of_not_kept {flavour : Flavour} {st st' : Option (List Glyph)} {g g' : Glyph}
    {gs gs' : List Glyph} (hst : SameState st st') (hg : Alike g g')
    (hgs : List.Forall₂ Alike gs gs') (hkept : ¬ KeptAt st g g') {ps : List Piece}
    (h : pieces flavour st (g :: gs) = some ps) :
    pieces flavour st' (g' :: gs') ≠ some ps := by
  have hne : g' ≠ g := fun heq => hkept fun hne => absurd heq hne
  obtain ⟨c, hc, rfl, rfl⟩ := hg.resolve_left hne
  intro h'
  cases hst with
  | outside =>
    have hopen : Glyph.plain c ≠ .plain '[' := by
      intro heq
      rw [Glyph.plain.inj heq] at hc
      exact absurd hc (by decide)
    rw [pieces, if_neg hopen] at h
    rw [pieces, if_neg (by simp)] at h'
    obtain ⟨rest, _, rfl⟩ := Option.map_eq_some_iff.mp h
    obtain ⟨rest', _, heq⟩ := Option.map_eq_some_iff.mp h'
    exact hne (Piece.outside.inj (List.cons.inj heq).1)
  | @inside b b' hb =>
    have hcaret : b = [] ∧ c = '^' := by
      by_contra hnot
      refine hkept fun _ => ⟨by simp, fun hneg => hnot ?_⟩
      exact ⟨Option.some.inj hneg.1, Glyph.plain.inj hneg.2⟩
    obtain ⟨rfl, rfl⟩ := hcaret
    cases hb.alike
    rw [pieces, if_neg (by decide)] at h h'
    exact pieces_ne_of_caret hgs .nil h h'

/-- More backslashes leave the pieces of a pattern as they are just when they stand in brackets
and not before the negation sign. -/
theorem pieces_eq_iff {flavour : Flavour} {gs gs' : List Glyph} (hgs : List.Forall₂ Alike gs gs')
    {st st' : Option (List Glyph)} (hst : SameState st st') {ps : List Piece}
    (h : pieces flavour st gs = some ps) :
    pieces flavour st' gs' = some ps ↔ InBrackets st gs gs' := by
  induction hgs generalizing st st' ps with
  | nil =>
    cases hst with
    | outside => simp [← h, pieces, InBrackets]
    | inside hb => exact nomatch h
  | @cons g g' gs gs' hg hgs ih =>
    rw [InBrackets]
    by_cases hkept : KeptAt st g g'
    · obtain ⟨hemit, hstep⟩ := hst.step_of_kept flavour hg hkept
      obtain ⟨head, rest, hhead, hrest, rfl⟩ := pieces_cons_eq_some.mp h
      rw [pieces_cons_eq_some, hemit, hhead, ← ih hstep hrest]
      constructor
      · rintro ⟨head', rest', hhead', hrest', heq⟩
        rw [← Option.some.inj hhead'] at heq
        exact ⟨hkept, List.append_cancel_left heq ▸ hrest'⟩
      · exact fun h' => ⟨head, rest, rfl, h'.2, rfl⟩
    · have hne := pieces_ne_of_not_kept hst hg hgs hkept h
      exact ⟨fun h' => absurd h' hne, fun h' => absurd h'.1 hkept⟩

end Brackets
end PamoRxpBench
