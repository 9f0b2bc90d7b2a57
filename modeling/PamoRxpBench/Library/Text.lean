import Mathlib.Data.Int.Notation
import Mathlib.Data.List.DropRight

/-!
# Text

Strings as lists of characters, with the string methods of Python that a reader of tool
output uses: `strip`, `split`, `str` and `int`.

* `readInt_decimal`: a decimal number is read back;
* `one_lt_length_split`: splitting at a separator that occurs gives two parts at least;
* `splitFrom_of_infix`: the first part ends at the first occurrence.
-/

namespace PamoRxpBench

/-- A string. -/
abbrev Text := List Char

namespace Text

/-! ## Blanks -/

/-- The characters `str.strip` removes. -/
def isSpace (c : Char) : Bool :=
  let n := c.toNat
  (9 ≤ n && n ≤ 13) || (28 ≤ n && n ≤ 32) || n = 0x85 || n = 0xA0 || n = 0x1680 ||
    (0x2000 ≤ n && n ≤ 0x200A) || n = 0x2028 || n = 0x2029 || n = 0x202F || n = 0x205F ||
    n = 0x3000

/-- `str.strip`. -/
def strip (s : Text) : Text := (s.dropWhile isSpace).rdropWhile isSpace

theorem mem_of_mem_strip {s : Text} {c : Char} (h : c ∈ strip s) : c ∈ s :=
  (List.dropWhile_suffix isSpace).subset ((List.rdropWhile_prefix isSpace _).subset h)

theorem strip_eq_nil_iff {s : Text} : strip s = [] ↔ ∀ c ∈ s, isSpace c = true := by
  rw [strip, List.rdropWhile_eq_nil_iff]
  constructor
  · intro h c hc
    rw [← List.takeWhile_append_dropWhile (p := isSpace) (l := s)] at hc
    exact (List.mem_append.mp hc).elim List.mem_takeWhile_imp (h c)
  · exact fun h c hc => h c ((List.dropWhile_suffix isSpace).subset hc)

/-- There is nothing left to strip. -/
theorem strip_strip (s : Text) : strip (strip s) = strip s := by
  have hfront : (strip s).dropWhile isSpace = strip s := by
    obtain ⟨t, ht⟩ : strip s <+: s.dropWhile isSpace := List.rdropWhile_prefix isSpace _
    match hs : strip s with
    | [] => rfl
    | c :: u =>
      -- the first character is the one at which `dropWhile` stopped
      rw [hs] at ht
      have hne : s.dropWhile isSpace ≠ [] := by
        rw [← ht]
        exact List.cons_ne_nil _ _
      have hhead := List.head_dropWhile_not isSpace hne
      simp only [← ht, List.cons_append, List.head_cons] at hhead
      exact List.dropWhile_cons_of_neg (by rw [hhead]; decide)
  show ((strip s).dropWhile isSpace).rdropWhile isSpace = strip s
  rw [hfront]
  exact List.rdropWhile_idempotent isSpace _

theorem strip_concat_of_isSpace {c : Char} (hc : isSpace c = true) (s : Text) :
    strip (s ++ [c]) = strip s := by
  rw [strip, strip, List.dropWhile_append]
  by_cases hblank : s.dropWhile isSpace = []
  · rw [hblank, if_pos (by rfl), List.dropWhile_cons_of_pos hc]
    rfl
  · rw [if_neg (by simpa using hblank), List.rdropWhile_concat_pos _ _ _ hc]

/-- Blanks in front are stripped. -/
theorem strip_append_of_isSpace {a : Text} (h : ∀ c ∈ a, isSpace c = true) (s : Text) :
    strip (a ++ s) = strip s := by
  rw [strip, List.dropWhile_append_of_pos h]
  rfl

/-- A text without blanks at its ends. -/
theorem strip_eq_self {s : Text} (hhead : ∀ c, s.head? = some c → ¬ isSpace c = true)
    (hlast : ∀ c, s.getLast? = some c → ¬ isSpace c = true) : strip s = s := by
  have hleft : s.dropWhile isSpace = s := by
    cases s with
    | nil => rfl
    | cons c s => exact List.dropWhile_cons_of_neg (hhead c rfl)
  rw [strip, hleft, List.rdropWhile_eq_self_iff]
  intro hne
  exact hlast _ (List.getLast?_eq_getLast_of_ne_nil hne)

theorem strip_of_not_isSpace {s : Text} (h : ∀ c ∈ s, ¬ isSpace c = true) : strip s = s :=
  strip_eq_self (fun c hc => h c (List.mem_of_head? hc)) fun c hc => h c (List.mem_of_getLast? hc)

theorem head?_strip {c : Char} {s : Text} (h : isSpace c = false) :
    (strip (c :: s)).head? = some c := by
  have hc : ¬ isSpace c = true := by
    rw [h]
    exact Bool.false_ne_true
  have hne : strip (c :: s) ≠ [] := fun hnil =>
    hc (strip_eq_nil_iff.mp hnil c List.mem_cons_self)
  obtain ⟨t, ht⟩ := List.rdropWhile_prefix isSpace (c :: s)
  rw [strip, List.dropWhile_cons_of_neg hc] at hne ⊢
  rw [← List.head?_append_of_ne_nil _ hne, ht, List.head?_cons]

/-! ## Parts of a text -/

/-- A word does not start where its first character does not stand. -/
theorem infix_append_iff_right {c : Char} {w s t : Text} (h : c ∉ s) :
    c :: w <:+: s ++ t ↔ c :: w <:+: t := by
  induction s with
  | nil => rfl
  | cons d s ih =>
    have hhere : ¬ c :: w <+: d :: (s ++ t) := by
      intro hp
      exact List.ne_of_not_mem_cons h (List.cons_prefix_cons.mp hp).1
    rw [List.cons_append, List.infix_cons_iff, or_iff_right hhere,
      ih (List.not_mem_of_not_mem_cons h)]

/-- A word does not end where its last character does not stand. -/
theorem infix_append_iff_left {c : Char} {w s t : Text} (h : c ∉ t) :
    w ++ [c] <:+: s ++ t ↔ w ++ [c] <:+: s := by
  have hreverse : c ∉ t.reverse := fun hc => h (List.mem_reverse.mp hc)
  have hright := infix_append_iff_right (w := w.reverse) (t := s.reverse) hreverse
  rwa [← List.reverse_append, ← List.reverse_concat, List.reverse_infix, List.reverse_infix]
    at hright

/-! ## Splitting at a separator -/

/-- `str.split(sep)` for a separator that is not empty. The first `skip` characters belong to
a separator already found, and `cur` is the part read so far. -/
def splitFrom (sep : Text) : ℕ → Text → Text → List Text
  | _, cur, [] => [cur]
  | skip + 1, cur, _ :: s => splitFrom sep skip cur s
  | 0, cur, c :: s =>
    if sep.isPrefixOf (c :: s) then cur :: splitFrom sep (sep.length - 1) [] s
    else splitFrom sep 0 (cur ++ [c]) s

/-- `str.split(sep)`; it raises `ValueError` (`none`) for an empty separator. -/
def split (sep s : Text) : Option (List Text) :=
  if sep = [] then none else some (splitFrom sep 0 [] s)

/-- What the parts of a split list hold. -/
theorem of_mem_splitOn {α : Type} [BEq α] [LawfulBEq α] {sep c : α} {s f : List α}
    (hf : f ∈ s.splitOn sep) (hc : c ∈ f) :
    c ∈ s ∧ c ≠ sep := by
  induction s generalizing f with
  | nil =>
    rw [List.splitOn_nil, List.mem_singleton] at hf
    rw [hf] at hc
    exact absurd hc List.not_mem_nil
  | cons d s ih =>
    rw [List.splitOn_cons_eq_if_modifyHead] at hf
    by_cases hd : (d == sep) = true
    · rw [if_pos hd] at hf
      rcases List.mem_cons.mp hf with rfl | hf
      · exact absurd hc List.not_mem_nil
      · exact ⟨List.mem_cons_of_mem _ (ih hf hc).1, (ih hf hc).2⟩
    · rw [if_neg hd] at hf
      have hne : d ≠ sep := fun heq => hd (beq_iff_eq.mpr heq)
      match hpieces : s.splitOn sep with
      | [] => exact absurd hpieces (List.splitOn_ne_nil sep s)
      | g :: gs =>
        rw [hpieces, List.modifyHead_cons] at hf
        rcases List.mem_cons.mp hf with rfl | hf
        · rcases List.mem_cons.mp hc with rfl | hc
          · exact ⟨List.mem_cons_self, hne⟩
          · have hg : g ∈ s.splitOn sep := hpieces ▸ List.mem_cons_self
            exact ⟨List.mem_cons_of_mem _ (ih hg hc).1, (ih hg hc).2⟩
        · have hg : f ∈ s.splitOn sep := hpieces ▸ List.mem_cons_of_mem _ hf
          exact ⟨List.mem_cons_of_mem _ (ih hg hc).1, (ih hg hc).2⟩

theorem splitFrom_ne_nil (sep : Text) (skip : ℕ) (cur s : Text) :
    splitFrom sep skip cur s ≠ [] := by
  induction s generalizing skip cur with
  | nil => cases skip <;> simp [splitFrom]
  | cons c s ih =>
    cases skip with
    | zero =>
      unfold splitFrom
      split
      · simp
      · exact ih 0 _
    | succ skip => exact ih skip cur

/-- A text that has the separator is split in two at least. -/
theorem one_lt_length_splitFrom {sep s : Text} (hsep : sep ≠ []) (h : sep <:+: s) (cur : Text) :
    1 < (splitFrom sep 0 cur s).length := by
  induction s generalizing cur with
  | nil => exact absurd (List.infix_nil.mp h) hsep
  | cons c s ih =>
    unfold splitFrom
    split
    · have := List.length_pos_of_ne_nil (splitFrom_ne_nil sep (sep.length - 1) [] s)
      rw [List.length_cons]
      omega
    · rename_i hprefix
      -- the separator does not start here, so it occurs in the tail
      rcases List.infix_cons_iff.mp h with hp | hi
      · exact absurd (List.isPrefixOf_iff_prefix.mpr hp) hprefix
      · exact ih hi _

/-- A separator that occurs splits the text in two parts at least. -/
theorem one_lt_length_split {sep s : Text} (hsep : sep ≠ []) (h : sep <:+: s) :
    ∃ a b rest, split sep s = some (a :: b :: rest) := by
  have hlen := one_lt_length_splitFrom hsep h []
  rw [split, if_neg hsep]
  match splitFrom sep 0 [] s, hlen with
  | a :: b :: rest, _ => exact ⟨a, b, rest, rfl⟩

/-- A text without the separator is one part. -/
theorem splitFrom_of_not_infix {sep s : Text} (h : ¬ sep <:+: s) (cur : Text) :
    splitFrom sep 0 cur s = [cur ++ s] := by
  induction s generalizing cur with
  | nil => simp [splitFrom]
  | cons c s ih =>
    have hprefix : ¬ sep.isPrefixOf (c :: s) = true := fun hp =>
      h (List.isPrefixOf_iff_prefix.mp hp).isInfix
    have htail : ¬ sep <:+: s := fun hi => h (List.infix_cons_iff.mpr (.inr hi))
    rw [splitFrom, if_neg hprefix, ih htail, List.append_assoc, List.singleton_append]

/-- The rest of a separator that was found is skipped. -/
theorem splitFrom_skip (sep : Text) {n : ℕ} {s : Text} (h : n ≤ s.length) (cur : Text) :
    splitFrom sep n cur s = splitFrom sep 0 cur (s.drop n) := by
  induction n generalizing s with
  | zero => rfl
  | succ n ih =>
    match s, h with
    | c :: s, h => exact ih (Nat.le_of_succ_le_succ h)

/-- A part ends where the separator stands. -/
theorem splitFrom_append {sep : Text} (hsep : sep ≠ []) (cur s : Text) :
    splitFrom sep 0 cur (sep ++ s) = cur :: splitFrom sep 0 [] s := by
  match sep, hsep with
  | c :: sep, _ =>
    have hprefix : (c :: sep).isPrefixOf (c :: (sep ++ s)) = true :=
      List.isPrefixOf_iff_prefix.mpr (List.prefix_append (c :: sep) s)
    have hlen : (c :: sep).length - 1 ≤ (sep ++ s).length := by
      rw [List.length_cons, List.length_append]
      omega
    rw [List.cons_append, splitFrom, if_pos hprefix, splitFrom_skip _ hlen, List.length_cons,
      Nat.add_sub_cancel, List.drop_left]

/-- The first part is the text before the first separator. -/
theorem splitFrom_of_infix {sep s : Text} (hsep : sep ≠ []) (h : sep <:+: s) (cur : Text) :
    ∃ pre post, s = pre ++ sep ++ post ∧
      splitFrom sep 0 cur s = (cur ++ pre) :: splitFrom sep 0 [] post := by
  induction s generalizing cur with
  | nil => exact absurd (List.infix_nil.mp h) hsep
  | cons c s ih =>
    by_cases hprefix : sep <+: c :: s
    · obtain ⟨post, hpost⟩ := hprefix
      refine ⟨[], post, hpost.symm, ?_⟩
      rw [← hpost, splitFrom_append hsep, List.append_nil]
    · have htail : sep <:+: s := (List.infix_cons_iff.mp h).resolve_left hprefix
      obtain ⟨pre, post, hs, hsplit⟩ := ih htail (cur ++ [c])
      have hhere : ¬ sep.isPrefixOf (c :: s) = true := fun hp =>
        hprefix (List.isPrefixOf_iff_prefix.mp hp)
      refine ⟨c :: pre, post, by rw [hs]; rfl, ?_⟩
      rw [splitFrom, if_neg hhere, hsplit, List.append_assoc, List.singleton_append]

/-! ## Decimal numbers -/

/-- `str(n)`. -/
def decimal (n : ℕ) : Text := Nat.toDigits 10 n

/-- The digits of a number, where single underscores may stand between digits. -/
def readDigits (s : Text) : Option ℕ :=
  let groups := s.splitOn '_'
  if groups.all fun g => g ≠ [] && g.all Char.isDigit then
    some (Nat.ofDigitChars 10 groups.flatten 0)
  else none

/-- `int(s)`; it raises `ValueError` (`none`) when `s` is not a number. Only ASCII digits are
digits here. -/
def readInt (s : Text) : Option ℤ :=
  match strip s with
  | '-' :: s => (readDigits s).map fun n => -(n : ℤ)
  | '+' :: s => (readDigits s).map fun n => (n : ℤ)
  | s => (readDigits s).map fun n => (n : ℤ)

theorem isDigit_of_mem_decimal {n : ℕ} {c : Char} (h : c ∈ decimal n) : c.isDigit = true :=
  Nat.isDigit_of_mem_toDigits (by decide) (by decide) h

/-- A digit is neither a blank nor one of the signs a reader looks for. -/
theorem ne_of_isDigit {c d : Char} (h : c.isDigit = true) (hd : d.isDigit = false) : c ≠ d := by
  rintro rfl
  rw [h] at hd
  exact Bool.noConfusion hd

theorem not_isSpace_of_isDigit {c : Char} (h : c.isDigit = true) : isSpace c = false := by
  have hb : 48 ≤ c.toNat ∧ c.toNat ≤ 57 := by
    simpa [Char.isDigit, UInt32.le_iff_toNat_le] using h
  simp only [isSpace, Bool.or_eq_false_iff, Bool.and_eq_false_iff, decide_eq_false_iff_not]
  omega

/-- A printed number is read back. -/
theorem readDigits_decimal (n : ℕ) : readDigits (decimal n) = some n := by
  have hsplit : (decimal n).splitOn '_' = [decimal n] := by
    apply List.splitOn_eq_singleton
    intro h
    exact ne_of_isDigit (isDigit_of_mem_decimal h) (by decide) rfl
  have hdigits : ∀ c ∈ Nat.toDigits 10 n, c.isDigit = true := fun _ h =>
    isDigit_of_mem_decimal h
  unfold readDigits
  rw [hsplit]
  simpa [decimal] using hdigits

theorem strip_of_isDigit {s : Text} (h : ∀ c ∈ s, c.isDigit = true) : strip s = s := by
  apply strip_of_not_isSpace
  intro c hc
  rw [not_isSpace_of_isDigit (h c hc)]
  decide

/-- The blank before a decimal number is stripped. -/
theorem strip_blank_decimal (n : ℕ) : strip (' ' :: decimal n) = decimal n := by
  unfold strip
  rw [List.dropWhile_cons_of_pos (by decide)]
  exact strip_of_isDigit fun _ h => isDigit_of_mem_decimal h

/-- A decimal number is read back. -/
theorem readInt_decimal (n : ℕ) : readInt (decimal n) = some (n : ℤ) := by
  unfold readInt
  rw [strip_of_isDigit fun _ h => isDigit_of_mem_decimal h]
  split
  · rename_i s hs
    have : '-' ∈ decimal n := by rw [hs]; simp
    exact absurd rfl (ne_of_isDigit (isDigit_of_mem_decimal this) (by decide))
  · rename_i s hs
    have : '+' ∈ decimal n := by rw [hs]; simp
    exact absurd rfl (ne_of_isDigit (isDigit_of_mem_decimal this) (by decide))
  · rw [readDigits_decimal]
    rfl

theorem decimal_injective {m n : ℕ} (h : decimal m = decimal n) : m = n := by
  have hm := readDigits_decimal m
  rw [h, readDigits_decimal] at hm
  exact (Option.some.inj hm).symm

end Text
end PamoRxpBench
