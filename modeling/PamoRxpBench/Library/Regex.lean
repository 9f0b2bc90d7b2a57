import Mathlib.Computability.Language
import PamoRxpBench.Library.Text

/-!
# Regular expressions with quantifiers

Concatenations of items: a literal character, a bracket class, or two items in parentheses, each
with at most one of the quantifiers `+`, `*`, `{n}` and `{m,n}`. An `Alphabet` says which characters
are literals and which classes there are.

* `parse_render`: a text that is written from items is read back as them;
* `nil_mem_language_iff`: an expression matches the empty string exactly if all its items can be
  empty.
-/

namespace PamoRxpBench
namespace Regex

open scoped Computability

/-- A quantifier. -/
inductive Quantifier
  | plus
  | star
  | exactly (n : ℕ)
  | between (m n : ℕ)
deriving DecidableEq, Repr

/-- An item over the bracket classes `K`. -/
inductive Item (K : Type)
  | literal (c : Char) (q : Option Quantifier)
  | cls (k : K) (q : Option Quantifier)
  | group (a b : Item K) (q : Option Quantifier)
deriving DecidableEq, Repr

/-- The characters with a meaning of their own. -/
def special : List Char := ['[', '(', ')', '+', '*', '\x7b']

/-- The literals and the bracket classes; the body of a class stands between the brackets. -/
structure Alphabet (K : Type) where
  literal : Char → Bool
  body : K → Text
  find : Text → Option K
  mem : K → Char → Bool
  literal_not_special : ∀ c, literal c = true → special.contains c = false
  find_body : ∀ k, find (body k) = some k
  close_not_mem_body : ∀ k, ']' ∉ body k

/-! ## Texts -/

def Quantifier.render : Quantifier → Text
  | .plus => ['+']
  | .star => ['*']
  | .exactly n => '\x7b' :: (Text.decimal n ++ ['\x7d'])
  | .between m n => '\x7b' :: (Text.decimal m ++ ',' :: (Text.decimal n ++ ['\x7d']))

def renderOpt : Option Quantifier → Text
  | none => []
  | some q => q.render

/-- The bounds of a quantifier are in order. -/
def Quantifier.WellFormed : Quantifier → Prop
  | .between m n => m ≤ n
  | _ => True

/-- The texts before and behind the first character that is not a digit, and the number that the
digits write. -/
def parseNumber (s : Text) : Option (ℕ × Text) :=
  (Text.readDigits (s.takeWhile Char.isDigit)).map fun n => (n, s.dropWhile Char.isDigit)

/-- The bounds behind `\x7b`. -/
def parseBounds (s : Text) : Option (Quantifier × Text) :=
  (parseNumber s).bind fun (m, s) =>
    match s with
    | [] => none
    | c :: s =>
      if c = '\x7d' then some (.exactly m, s)
      else if c = ',' then
        (parseNumber s).bind fun (n, s) =>
          if s.head? = some '\x7d' ∧ m ≤ n then some (.between m n, s.tail) else none
      else none

/-- The quantifier at the beginning of the text, if there is one. -/
def parseQuantifier : Text → Option (Option Quantifier × Text)
  | [] => some (none, [])
  | c :: s =>
    if c = '+' then some (some .plus, s)
    else if c = '*' then some (some .star, s)
    else if c = '\x7b' then (parseBounds s).map fun (q, s) => (some q, s)
    else some (none, c :: s)

/-- The quantifier behind a closing character. -/
def parseClosed (close : Char) (s : Text) : Option (Option Quantifier × Text) :=
  if s.head? = some close then parseQuantifier s.tail else none

section Syntax

variable {K : Type} (A : Alphabet K)

def Item.render : Item K → Text
  | .literal c q => c :: renderOpt q
  | .cls k q => '[' :: (A.body k ++ ']' :: renderOpt q)
  | .group a b q => '(' :: (a.render ++ (b.render ++ ')' :: renderOpt q))

/-- The literals are ones of the alphabet, and all bounds are in order. -/
def Item.WellFormed : Item K → Prop
  | .literal c q => A.literal c = true ∧ ∀ q' ∈ q, q'.WellFormed
  | .cls _ q => ∀ q' ∈ q, q'.WellFormed
  | .group a b q => a.WellFormed ∧ b.WellFormed ∧ ∀ q' ∈ q, q'.WellFormed

/-- The item at the beginning of the text; the number bounds the nesting of the parentheses. -/
def parseItem : ℕ → Text → Option (Item K × Text)
  | 0, _ => none
  | _ + 1, [] => none
  | fuel + 1, c :: s =>
    if c = '[' then
      (A.find (s.takeWhile (· ≠ ']'))).bind fun k =>
        (parseClosed ']' (s.dropWhile (· ≠ ']'))).map fun (q, s) => (.cls k q, s)
    else if c = '(' then
      (parseItem fuel s).bind fun (a, s) =>
        (parseItem fuel s).bind fun (b, s) =>
          (parseClosed ')' s).map fun (q, s) => (.group a b q, s)
    else if A.literal c then
      (parseQuantifier s).map fun (q, s) => (.literal c q, s)
    else none

/-- The items of the text, with a bound on their number. -/
def parseItems : ℕ → Text → Option (List (Item K))
  | _, [] => some []
  | 0, _ :: _ => none
  | fuel + 1, c :: s =>
    (parseItem A (fuel + 1) (c :: s)).bind fun (i, s) =>
      (parseItems fuel s).map fun is => i :: is

/-- The expression that a text writes. -/
def parse (s : Text) : Option (List (Item K)) := parseItems A s.length s

/-! ## Reading a text back -/

theorem takeWhile_append_cons {p : Char → Bool} {l : Text} {c : Char} (hl : ∀ x ∈ l, p x = true)
    (hc : ¬ p c = true) (s : Text) : (l ++ c :: s).takeWhile p = l := by
  rw [List.takeWhile_append_of_pos hl, List.takeWhile_cons_of_neg hc, List.append_nil]

theorem dropWhile_append_cons {p : Char → Bool} {l : Text} {c : Char} (hl : ∀ x ∈ l, p x = true)
    (hc : ¬ p c = true) (s : Text) : (l ++ c :: s).dropWhile p = c :: s := by
  rw [List.dropWhile_append_of_pos hl, List.dropWhile_cons_of_neg hc]

/-- A number is read back up to the first character that is no digit. -/
theorem parseNumber_decimal (n : ℕ) {c : Char} (hc : ¬ c.isDigit = true) (s : Text) :
    parseNumber (Text.decimal n ++ c :: s) = some (n, c :: s) := by
  have hdigits : ∀ d ∈ Text.decimal n, d.isDigit = true := fun _ hd =>
    Text.isDigit_of_mem_decimal hd
  unfold parseNumber
  rw [takeWhile_append_cons hdigits hc, dropWhile_append_cons hdigits hc, Text.readDigits_decimal]
  rfl

/-- A text that does not go on with a quantifier. -/
def Unquantified (s : Text) : Prop := ∀ c ∈ s.head?, c ≠ '+' ∧ c ≠ '*' ∧ c ≠ '\x7b'

/-- Nothing is read as a quantifier where none begins. -/
theorem parseQuantifier_none {s : Text} (h : Unquantified s) :
    parseQuantifier s = some (none, s) := by
  match s with
  | [] => rfl
  | c :: s =>
    obtain ⟨hplus, hstar, hbrace⟩ := h c rfl
    rw [parseQuantifier, if_neg hplus, if_neg hstar, if_neg hbrace]

theorem parseBounds_exactly (n : ℕ) (s : Text) :
    parseBounds (Text.decimal n ++ '\x7d' :: s) = some (.exactly n, s) := by
  unfold parseBounds
  rw [parseNumber_decimal n (by decide)]
  rfl

/-- Bounds in order are read back. -/
theorem parseBounds_between {m n : ℕ} (h : m ≤ n) (s : Text) :
    parseBounds (Text.decimal m ++ ',' :: (Text.decimal n ++ '\x7d' :: s)) =
      some (.between m n, s) := by
  unfold parseBounds
  rw [parseNumber_decimal m (by decide)]
  show ((parseNumber (Text.decimal n ++ '\x7d' :: s)).bind fun (n, s) =>
    if s.head? = some '\x7d' ∧ m ≤ n then some (Quantifier.between m n, s.tail) else none) = _
  rw [parseNumber_decimal n (by decide)]
  exact if_pos ⟨rfl, h⟩

/-- A quantifier is read back, and its absence too if the text does not go on with one. -/
theorem parseQuantifier_renderOpt {q : Option Quantifier} (hq : ∀ q' ∈ q, q'.WellFormed)
    {s : Text} (hs : Unquantified s) : parseQuantifier (renderOpt q ++ s) = some (q, s) := by
  cases q with
  | none => exact parseQuantifier_none hs
  | some q =>
    cases q with
    | plus => rfl
    | star => rfl
    | exactly n =>
      show (parseBounds (Text.decimal n ++ ['\x7d'] ++ s)).map _ = _
      rw [List.append_assoc, List.singleton_append, parseBounds_exactly]
      rfl
    | between m n =>
      have htext : (Text.decimal m ++ ',' :: (Text.decimal n ++ ['\x7d'])) ++ s =
          Text.decimal m ++ ',' :: (Text.decimal n ++ '\x7d' :: s) := by
        rw [List.append_assoc, List.cons_append, List.append_assoc, List.singleton_append]
      show (parseBounds ((Text.decimal m ++ ',' :: (Text.decimal n ++ ['\x7d'])) ++ s)).map _ = _
      rw [htext, parseBounds_between (hq _ rfl)]
      rfl

theorem parseClosed_cons {close : Char} {q : Option Quantifier} (hq : ∀ q' ∈ q, q'.WellFormed)
    {s : Text} (hs : Unquantified s) :
    parseClosed close (close :: (renderOpt q ++ s)) = some (q, s) := by
  unfold parseClosed
  rw [if_pos List.head?_cons, List.tail_cons]
  exact parseQuantifier_renderOpt hq hs

/-- The nesting of the parentheses. -/
def Item.depth : Item K → ℕ
  | .group a b _ => max a.depth b.depth + 1
  | _ => 1

variable {A}

/-- The text of an item is at least as long as its groups are nested, so it is fuel enough. -/
theorem depth_le_length (i : Item K) : i.depth ≤ (i.render A).length := by
  induction i with
  | literal c q => exact Nat.succ_le_succ (Nat.zero_le _)
  | cls k q => exact Nat.succ_le_succ (Nat.zero_le _)
  | group a b q iha ihb =>
    have hlength : ((Item.group a b q).render A).length =
        (a.render A).length + ((b.render A).length + ((renderOpt q).length + 1)) + 1 := by
      rw [Item.render, List.length_cons, List.length_append, List.length_append, List.length_cons]
    have hdepth : (Item.group a b q).depth = max a.depth b.depth + 1 := rfl
    omega

theorem depth_pos (i : Item K) : 0 < i.depth := by
  cases i <;> exact Nat.succ_pos _

/-- An item does not begin with a quantifier. -/
theorem unquantified_render {i : Item K} (h : i.WellFormed A) (s : Text) :
    Unquantified (i.render A ++ s) := by
  have hspecial : ∀ c, special.contains c = false → c ≠ '+' ∧ c ≠ '*' ∧ c ≠ '\x7b' := by
    intro c hc
    refine ⟨?_, ?_, ?_⟩ <;> intro heq <;> rw [heq] at hc <;> exact absurd hc (by decide)
  cases i with
  | literal c q =>
    intro d hd
    obtain rfl : c = d := Option.some.inj hd
    exact hspecial c (A.literal_not_special c h.1)
  | cls k q =>
    intro d hd
    obtain rfl : '[' = d := Option.some.inj hd
    decide
  | group a b q =>
    intro d hd
    obtain rfl : '(' = d := Option.some.inj hd
    decide

theorem unquantified_cons {c : Char} (h : c ≠ '+' ∧ c ≠ '*' ∧ c ≠ '\x7b') (s : Text) :
    Unquantified (c :: s) := by
  intro d hd
  obtain rfl : c = d := Option.some.inj hd
  exact h

/-- A class is read back, in front of whatever is no quantifier. -/
theorem parseItem_cls (fuel : ℕ) (k : K) {q : Option Quantifier} (hq : ∀ q' ∈ q, q'.WellFormed)
    {s : Text} (hs : Unquantified s) :
    parseItem A (fuel + 1) ((Item.cls k q).render A ++ s) = some (.cls k q, s) := by
  have hbody : ∀ c ∈ A.body k, decide (c ≠ ']') = true := fun c hc =>
    decide_eq_true fun heq => A.close_not_mem_body k (heq ▸ hc)
  have htext : (Item.cls k q).render A ++ s = '[' :: (A.body k ++ ']' :: (renderOpt q ++ s)) := by
    rw [Item.render, List.cons_append, List.append_assoc, List.cons_append]
  rw [htext, parseItem, if_pos rfl, takeWhile_append_cons hbody (by decide), A.find_body,
    dropWhile_append_cons hbody (by decide), parseClosed_cons hq hs]
  rfl

/-- So is a character. -/
theorem parseItem_literal (fuel : ℕ) {c : Char} (hc : A.literal c = true) {q : Option Quantifier}
    (hq : ∀ q' ∈ q, q'.WellFormed) {s : Text} (hs : Unquantified s) :
    parseItem A (fuel + 1) ((Item.literal c q).render A ++ s) = some (.literal c q, s) := by
  have hspecial := A.literal_not_special c hc
  have hopen : c ≠ '[' := fun heq => absurd (heq ▸ hspecial) (by decide)
  have hparen : c ≠ '(' := fun heq => absurd (heq ▸ hspecial) (by decide)
  rw [Item.render, List.cons_append, parseItem, if_neg hopen, if_neg hparen, if_pos hc,
    parseQuantifier_renderOpt hq hs]
  rfl

/-- An item is read back in front of a text that does not go on with a quantifier. -/
theorem parseItem_render {i : Item K} (h : i.WellFormed A) {fuel : ℕ} (hfuel : i.depth ≤ fuel)
    {s : Text} (hs : Unquantified s) : parseItem A fuel (i.render A ++ s) = some (i, s) := by
  induction i generalizing fuel s with
  | literal c q =>
    obtain ⟨fuel, rfl⟩ : ∃ n, fuel = n + 1 := Nat.exists_eq_add_one.mpr hfuel
    exact parseItem_literal fuel h.1 h.2 hs
  | cls k q =>
    obtain ⟨fuel, rfl⟩ : ∃ n, fuel = n + 1 := Nat.exists_eq_add_one.mpr hfuel
    exact parseItem_cls fuel k h hs
  | group a b q iha ihb =>
    obtain ⟨ha, hb, hq⟩ := h
    have hdepth : (Item.group a b q).depth = max a.depth b.depth + 1 := rfl
    obtain ⟨fuel, rfl⟩ : ∃ n, fuel = n + 1 := Nat.exists_eq_add_one.mpr (by omega)
    have htext : (Item.group a b q).render A ++ s =
        '(' :: (a.render A ++ (b.render A ++ ')' :: (renderOpt q ++ s))) := by
      rw [Item.render, List.cons_append, List.append_assoc, List.append_assoc, List.cons_append]
    -- behind the first item stands the second one, behind that the parenthesis
    have hclose : Unquantified (')' :: (renderOpt q ++ s)) := unquantified_cons (by decide) _
    have hsecond : parseItem A fuel (b.render A ++ ')' :: (renderOpt q ++ s)) =
        some (b, ')' :: (renderOpt q ++ s)) := ihb hb (by omega) hclose
    have hfirst : parseItem A fuel (a.render A ++ (b.render A ++ ')' :: (renderOpt q ++ s))) =
        some (a, b.render A ++ ')' :: (renderOpt q ++ s)) :=
      iha ha (by omega) (unquantified_render hb _)
    rw [htext, parseItem, if_neg (by decide), if_pos rfl, hfirst]
    show (parseItem A fuel (b.render A ++ ')' :: (renderOpt q ++ s))).bind _ = _
    rw [hsecond]
    show (parseClosed ')' (')' :: (renderOpt q ++ s))).map _ = _
    rw [parseClosed_cons hq hs]
    rfl

theorem parseItems_succ (fuel : ℕ) {s : Text} (h : s ≠ []) :
    parseItems A (fuel + 1) s = (parseItem A (fuel + 1) s).bind fun (i, s) =>
      (parseItems A fuel s).map fun is => i :: is := by
  match s with
  | [] => exact absurd rfl h
  | c :: s => rfl

/-- No item begins with a quantifier. -/
theorem unquantified_flatMap {is : List (Item K)} (h : ∀ i ∈ is, i.WellFormed A) :
    Unquantified (is.flatMap (Item.render A)) := by
  match is with
  | [] =>
    intro c hc
    cases hc
  | i :: is =>
    rw [List.flatMap_cons]
    exact unquantified_render (h i List.mem_cons_self) _

/-- Items that are written one after the other are read back. -/
theorem parseItems_render {is : List (Item K)} (h : ∀ i ∈ is, i.WellFormed A) {fuel : ℕ}
    (hfuel : (is.flatMap (Item.render A)).length ≤ fuel) :
    parseItems A fuel (is.flatMap (Item.render A)) = some is := by
  induction is generalizing fuel with
  | nil => cases fuel <;> rfl
  | cons i is ih =>
    rw [List.flatMap_cons, List.length_append] at hfuel
    -- the item takes a character at least, so one unit less is enough for the others
    have hdepth := depth_le_length (A := A) i
    have hpos := depth_pos i
    obtain ⟨fuel, rfl⟩ : ∃ n, fuel = n + 1 := Nat.exists_eq_add_one.mpr (by omega)
    have hwf : ∀ j ∈ is, j.WellFormed A := fun j hj => h j (List.mem_cons_of_mem _ hj)
    have hne : i.render A ++ is.flatMap (Item.render A) ≠ [] := by
      intro hnil
      have hlength := congrArg List.length (List.append_eq_nil_iff.mp hnil).1
      rw [List.length_nil] at hlength
      omega
    rw [List.flatMap_cons, parseItems_succ fuel hne,
      parseItem_render (h i List.mem_cons_self) (by omega) (unquantified_flatMap hwf),
      Option.bind_some]
    show (parseItems A fuel (is.flatMap (Item.render A))).map _ = _
    rw [ih hwf (by omega)]
    rfl

/-- A text that is written from well-formed items is read back as them. -/
theorem parse_render {is : List (Item K)} (h : ∀ i ∈ is, i.WellFormed A) :
    parse A (is.flatMap (Item.render A)) = some is := parseItems_render h le_rfl

/-! ## Languages -/

/-- The repetitions of a language that a quantifier allows. -/
def repeated (L : Language Char) : Option Quantifier → Language Char
  | none => L
  | some .plus => L * L∗
  | some .star => L∗
  | some (.exactly n) => L ^ n
  | some (.between m n) => {w | ∃ i, m ≤ i ∧ i ≤ n ∧ w ∈ L ^ i}

variable (A)

def Item.language : Item K → Language Char
  | .literal c q => repeated {w | w = [c]} q
  | .cls k q => repeated {w | ∃ c, A.mem k c = true ∧ w = [c]} q
  | .group a b q => repeated (a.language * b.language) q

/-- The language of an expression is the product of the languages of its items. -/
def language (is : List (Item K)) : Language Char := (is.map (Item.language A)).prod

/-- Whether a quantified expression can be empty, given that the expression can. -/
def nullableQuantified (nullable : Bool) : Option Quantifier → Bool
  | none => nullable
  | some .plus => nullable
  | some .star => true
  | some (.exactly n) => n == 0 || nullable
  | some (.between m n) => m ≤ n && (m == 0 || nullable)

/-- Whether an item can be empty. -/
def Item.nullable : Item K → Bool
  | .literal _ q => nullableQuantified false q
  | .cls _ q => nullableQuantified false q
  | .group a b q => nullableQuantified (a.nullable && b.nullable) q

theorem nil_mem_mul {L M : Language Char} : [] ∈ L * M ↔ [] ∈ L ∧ [] ∈ M := by
  rw [Language.mem_mul]
  constructor
  · intro h
    obtain ⟨a, ha, b, hb, hab⟩ := h
    obtain ⟨hanil, hbnil⟩ := List.append_eq_nil_iff.mp hab
    exact ⟨hanil ▸ ha, hbnil ▸ hb⟩
  · intro h
    exact ⟨[], h.1, [], h.2, rfl⟩

theorem nil_mem_pow {L : Language Char} {n : ℕ} : [] ∈ L ^ n ↔ n = 0 ∨ [] ∈ L := by
  induction n with
  | zero =>
    rw [pow_zero]
    exact ⟨fun _ => Or.inl rfl, fun _ => Language.nil_mem_one⟩
  | succ n ih =>
    rw [pow_succ, nil_mem_mul, ih]
    constructor
    · intro h
      exact Or.inr h.2
    · intro h
      have hmem := h.resolve_left (Nat.succ_ne_zero n)
      exact ⟨Or.inr hmem, hmem⟩

/-- What a repetition makes of the empty string. -/
theorem nil_mem_repeated_iff {L : Language Char} {nullable : Bool}
    (h : [] ∈ L ↔ nullable = true) (q : Option Quantifier) :
    [] ∈ repeated L q ↔ nullableQuantified nullable q = true := by
  cases q with
  | none => exact h
  | some q =>
    cases q with
    | plus =>
      show [] ∈ L * L∗ ↔ _
      rw [nil_mem_mul, h]
      exact and_iff_left (Language.nil_mem_kstar L)
    | star => exact iff_of_true (Language.nil_mem_kstar L) rfl
    | exactly n =>
      show [] ∈ L ^ n ↔ (n == 0 || nullable) = true
      rw [nil_mem_pow, h, Bool.or_eq_true, beq_iff_eq]
    | between m n =>
      show (∃ i, m ≤ i ∧ i ≤ n ∧ [] ∈ L ^ i) ↔ (m ≤ n && (m == 0 || nullable)) = true
      rw [Bool.and_eq_true, Bool.or_eq_true, decide_eq_true_eq, beq_iff_eq, ← h]
      constructor
      · intro hex
        obtain ⟨i, hmi, hin, hmem⟩ := hex
        refine ⟨hmi.trans hin, ?_⟩
        rcases nil_mem_pow.mp hmem with hzero | hL
        · exact Or.inl (by omega)
        · exact Or.inr hL
      · intro hboth
        exact ⟨m, le_rfl, hboth.1, nil_mem_pow.mpr hboth.2⟩

/-- An item can be empty exactly when `nullable` says so. -/
theorem nil_mem_itemLanguage_iff (i : Item K) : [] ∈ i.language A ↔ i.nullable = true := by
  induction i with
  | literal c q =>
    exact nil_mem_repeated_iff (iff_of_false (fun h => List.cons_ne_nil c [] (Eq.symm h))
      Bool.false_ne_true) q
  | cls k q =>
    refine nil_mem_repeated_iff (iff_of_false ?_ Bool.false_ne_true) q
    intro h
    obtain ⟨c, -, hnil⟩ := h
    exact List.cons_ne_nil c [] hnil.symm
  | group a b q iha ihb =>
    refine nil_mem_repeated_iff ?_ q
    rw [nil_mem_mul, iha, ihb, Bool.and_eq_true]

/-- The empty string matches exactly if every item can be empty. -/
theorem nil_mem_language_iff (is : List (Item K)) :
    [] ∈ language A is ↔ ∀ i ∈ is, i.nullable = true := by
  induction is with
  | nil => exact iff_of_true Language.nil_mem_one fun _ h => absurd h List.not_mem_nil
  | cons i is ih =>
    show [] ∈ i.language A * language A is ↔ _
    rw [nil_mem_mul, nil_mem_itemLanguage_iff, ih, List.forall_mem_cons]

end Syntax

end Regex
end PamoRxpBench
