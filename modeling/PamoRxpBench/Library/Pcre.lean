import PamoRxpBench.Library.Brackets
import Mathlib.Data.Set.Insert

/-!
# Literal patterns

PCRE patterns without flags in which no metacharacter is in effect: characters, backslashes before
characters that are no letters or digits, and `\xHH` with up to two hexadecimal digits. Such a
pattern matches one string of bytes only, which `read` returns. Any other pattern is outside this
syntax (`none`).
-/

namespace PamoRxpBench
namespace Pcre

open Brackets (hexDigit)

/-- The characters with a meaning of their own outside bracket expressions. -/
def metacharacters : List Char := "\\^$.[|()?*+\x7b".toList

/-- What was just read: nothing that goes on, a backslash, or `\x` with `n` digits of value `v`. -/
inductive Reading
  | text
  | escape
  | hex (n v : ℕ)
deriving DecidableEq, Repr

/-- A character that does not belong to what was read before it: a backslash opens an escape, and
any other character stands for itself. -/
def readPlain (c : Char) (behindBackslash rest : Option (List UInt8)) : Option (List UInt8) :=
  if c = '\\' then behindBackslash
  else if c ∈ metacharacters then none
  else rest.map (String.utf8EncodeChar c ++ ·)

/-- The string that the rest of a pattern matches. -/
def read : Reading → Text → Option (List UInt8)
  | .text, [] => some []
  | .escape, [] => none
  | .hex _ v, [] => some [UInt8.ofNat v]
  | .text, c :: s => readPlain c (read .escape s) (read .text s)
  | .escape, c :: s =>
    if c = 'x' then read (.hex 0 0) s
    else if c.isAlphanum then none
    else (read .text s).map (String.utf8EncodeChar c ++ ·)
  | .hex n v, c :: s =>
    match hexDigit c with
    | some d =>
      if n = 0 then read (.hex 1 d) s
      else (read .text s).map (UInt8.ofNat (16 * v + d) :: ·)
    | none => (readPlain c (read .escape s) (read .text s)).map (UInt8.ofNat v :: ·)

/-- The strings that a pattern matches. -/
def language (p : Text) : Set (List UInt8) := {w | read .text p = some w}

/-- A pattern matches one string only if it is read as this string. -/
theorem language_eq_singleton_iff {p : Text} {w : List UInt8} :
    language p = {w} ↔ read .text p = some w := by
  constructor
  · intro h
    have hmem : w ∈ language p := h ▸ Set.mem_singleton w
    exact hmem
  · intro h
    ext v
    show read .text p = some v ↔ v = w
    rw [h, Option.some.injEq]
    exact eq_comm

/-! ## Hexadecimal digits -/

theorem hexDigit_spec {c : Char} {d : ℕ} (h : hexDigit c = some d) :
    (48 ≤ c.toNat ∧ c.toNat ≤ 57) ∨ (97 ≤ c.toNat ∧ c.toNat ≤ 102) ∨
      (65 ≤ c.toNat ∧ c.toNat ≤ 70) := by
  rw [hexDigit] at h
  have hle : ∀ a b : Char, a ≤ b ↔ a.toNat ≤ b.toNat := fun a b => UInt32.le_iff_toNat_le
  simp only [hle] at h
  split at h
  · left
    assumption
  · split at h
    · right
      left
      assumption
    · split at h
      · right
        right
        assumption
      · cases h

/-- A hexadecimal digit stands for itself in a pattern. -/
theorem readPlain_of_hexDigit {c : Char} {d : ℕ} (h : hexDigit c = some d)
    (behindBackslash rest : Option (List UInt8)) :
    readPlain c behindBackslash rest = rest.map (UInt8.ofNat c.toNat :: ·) := by
  have hc := hexDigit_spec h
  have hne : c ∉ metacharacters := by
    intro hmem
    have hnone : ∀ m ∈ metacharacters, hexDigit m = none :=
      List.forall_iff_forall_mem.mp (by decide)
    rw [hnone c hmem] at h
    cases h
  have hbackslash : c ≠ '\\' := by
    rintro rfl
    cases h
  have hbyte : String.utf8EncodeChar c = [UInt8.ofNat c.toNat] := by
    have hle : c.val.toNat ≤ 127 := by
      show c.toNat ≤ 127
      omega
    simp only [String.utf8EncodeChar, hle, if_true]
    rfl
  rw [readPlain, if_neg hbackslash, if_neg hne, hbyte]
  rfl

/-! ## Escapes -/

theorem read_hexEscape {s : Text} : read .text ('\\' :: 'x' :: s) = read (.hex 0 0) s := by
  simp [read, readPlain]

theorem read_hex_first {c : Char} {d : ℕ} (h : hexDigit c = some d) (v : ℕ) (s : Text) :
    read (.hex 0 v) (c :: s) = read (.hex 1 d) s := by
  simp only [read, h, if_true]

theorem read_hex_second {c : Char} {d : ℕ} (h : hexDigit c = some d) (v : ℕ) (s : Text) :
    read (.hex 1 v) (c :: s) = (read .text s).map (UInt8.ofNat (16 * v + d) :: ·) := by
  simp only [read, h, Nat.one_ne_zero, if_false]

/-- The digits end before a character that is none. -/
theorem read_hex_none {c : Char} (h : hexDigit c = none) (n v : ℕ) (s : Text) :
    read (.hex n v) (c :: s) = (read .text (c :: s)).map (UInt8.ofNat v :: ·) := by
  simp only [read, h]

/-- The second digit of `\xHH` may be read off the text behind it, which loses no byte. -/
theorem read_hex_one {v : ℕ} {p : Text} {w : List UInt8} (h : read (.hex 1 v) p = some w) :
    ∃ w', read .text p = some w' ∧ w'.length ≤ w.length := by
  cases p with
  | nil =>
    obtain rfl := Option.some.inj h
    exact ⟨[], rfl, Nat.zero_le _⟩
  | cons c s =>
    cases hc : hexDigit c with
    | some d =>
      rw [read_hex_second hc] at h
      obtain ⟨w', hw', rfl⟩ := Option.map_eq_some_iff.mp h
      refine ⟨UInt8.ofNat c.toNat :: w', ?_, le_refl _⟩
      rw [read, readPlain_of_hexDigit hc, hw']
      rfl
    | none =>
      rw [read_hex_none hc] at h
      obtain ⟨w', hw', rfl⟩ := Option.map_eq_some_iff.mp h
      exact ⟨w', hw', Nat.le_succ _⟩

end Pcre
end PamoRxpBench
