import PamoRxpBench.Library.Brackets

/-!
# Numbers in base 16

What `%02x` prints, read back by its digits: `hex_injective` for one number and
`hexBytes_injective` for a list of bytes, two digits each.
-/

namespace PamoRxpBench
namespace Hex

open Brackets (hexDigit)

/-- `%02x`. -/
def hex (n : ℕ) : Text :=
  if (Nat.toDigits 16 n).length < 2 then '0' :: Nat.toDigits 16 n else Nat.toDigits 16 n

/-- The bytes one after the other. -/
def hexBytes (bytes : List UInt8) : Text := bytes.flatMap fun b => hex b.toNat

/-- The number that digits stand for. -/
def value (digits : Text) : ℕ := digits.foldl (fun v c => 16 * v + (hexDigit c).getD 0) 0

/-- The digits that `Nat.toDigits` writes are read back. -/
theorem hexDigit_digitChar {n : ℕ} (h : n < 16) : hexDigit n.digitChar = some n := by
  have hall : ∀ n < 16, hexDigit (Nat.digitChar n) = some n := by decide
  exact hall n h

/-- A number is read back from its digits, the highest one first. -/
theorem value_toDigits (n : ℕ) : value (Nat.toDigits 16 n) = n := by
  induction n using Nat.strongRecOn with
  | ind n ih =>
    rw [Nat.toDigits_eq_if (by omega)]
    by_cases hn : n < 16
    · rw [if_pos hn]
      show 16 * 0 + (hexDigit n.digitChar).getD 0 = n
      rw [hexDigit_digitChar hn, Option.getD_some]
      omega
    · have hlow : n % 16 < 16 := Nat.mod_lt n (by omega)
      have hhigh := ih (n / 16) (by omega)
      unfold value at hhigh ⊢
      rw [if_neg hn, List.foldl_append, hhigh, List.foldl_cons, List.foldl_nil,
        hexDigit_digitChar hlow, Option.getD_some]
      omega

/-- A leading zero does not change the value. -/
theorem value_hex (n : ℕ) : value (hex n) = n := by
  unfold hex
  by_cases hlen : (Nat.toDigits 16 n).length < 2
  · rw [if_pos hlen]
    exact value_toDigits n
  · rw [if_neg hlen]
    exact value_toDigits n

theorem hex_injective {m n : ℕ} (h : hex m = hex n) : m = n := by
  rw [← value_hex m, h, value_hex]

theorem isSome_hexDigit_of_mem_toDigits {n : ℕ} {c : Char} (h : c ∈ Nat.toDigits 16 n) :
    (hexDigit c).isSome := by
  induction n using Nat.strongRecOn with
  | ind n ih =>
    rw [Nat.toDigits_eq_if (by omega)] at h
    by_cases hn : n < 16
    · rw [if_pos hn, List.mem_singleton] at h
      rw [h, hexDigit_digitChar hn]
      rfl
    · rw [if_neg hn, List.mem_append, List.mem_singleton] at h
      rcases h with h | rfl
      · exact ih (n / 16) (by omega) h
      · rw [hexDigit_digitChar (Nat.mod_lt n (by omega))]
        rfl

theorem isSome_hexDigit_of_mem_hex {n : ℕ} {c : Char} (h : c ∈ hex n) : (hexDigit c).isSome := by
  unfold hex at h
  split at h
  · rcases List.mem_cons.mp h with rfl | h
    · rfl
    · exact isSome_hexDigit_of_mem_toDigits h
  · exact isSome_hexDigit_of_mem_toDigits h

/-- A byte has two digits. -/
theorem length_hex {n : ℕ} (h : n < 256) : (hex n).length = 2 := by
  have hle : (Nat.toDigits 16 n).length ≤ 2 :=
    (Nat.length_toDigits_le_iff (by omega) (by omega)).mpr h
  have hpos := @Nat.length_toDigits_pos 16 n
  unfold hex
  split
  · rw [List.length_cons]
    omega
  · omega

/-- Each byte has two digits, so the texts of two lists of bytes differ where the bytes do. -/
theorem hexBytes_injective {as bs : List UInt8} (h : hexBytes as = hexBytes bs) : as = bs := by
  induction as generalizing bs with
  | nil =>
    match bs with
    | [] => rfl
    | b :: bs =>
      have hlen := congrArg List.length h
      rw [hexBytes, hexBytes, List.flatMap_cons, List.flatMap_nil, List.length_append,
        length_hex b.toNat_lt, List.length_nil] at hlen
      omega
  | cons a as ih =>
    match bs with
    | [] =>
      have hlen := congrArg List.length h
      rw [hexBytes, hexBytes, List.flatMap_cons, List.flatMap_nil, List.length_append,
        length_hex a.toNat_lt, List.length_nil] at hlen
      omega
    | b :: bs =>
      rw [hexBytes, hexBytes, List.flatMap_cons, List.flatMap_cons] at h
      obtain ⟨hhead, htail⟩ :=
        List.append_inj h (by rw [length_hex a.toNat_lt, length_hex b.toNat_lt])
      rw [UInt8.toNat_inj.mp (hex_injective hhead), ih htail]

/-- The text of a list of bytes has digits only. -/
theorem isSome_hexDigit_of_mem_hexBytes {bytes : List UInt8} {c : Char}
    (h : c ∈ hexBytes bytes) : (hexDigit c).isSome := by
  obtain ⟨b, -, hc⟩ := List.mem_flatMap.mp h
  exact isSome_hexDigit_of_mem_hex hc

end Hex
end PamoRxpBench
