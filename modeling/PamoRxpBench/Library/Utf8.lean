import PamoRxpBench.Library.Csv

/-!
# UTF-8

A text and the bytes of the file that holds it. Files whose lines all end in a line feed are the
same as texts and as bytes: no byte of another character is a line feed (`not_mem_encode`,
`encode_unlines`).
-/

namespace PamoRxpBench
namespace Utf8

/-- The bytes of a text. -/
def encode (s : Text) : List UInt8 := s.flatMap String.utf8EncodeChar

/-- The text of some bytes, if they are valid. -/
def decode (bytes : List UInt8) : Option Text := bytes.toByteArray.utf8Decode?.map Array.toList

/-- What was written is read back. -/
theorem decode_encode (s : Text) : decode (encode s) = some s := by
  have hbytes : (encode s).toByteArray.utf8Decode? = some s.toArray := List.utf8Decode?_utf8Encode
  rw [decode, hbytes]
  rfl

theorem encode_injective : Function.Injective encode := by
  intro s t h
  have hdecode := congrArg decode h
  rw [decode_encode, decode_encode] at hdecode
  exact Option.some.inj hdecode

@[simp] theorem encode_nil : encode [] = [] := rfl

theorem encode_append (s t : Text) : encode (s ++ t) = encode s ++ encode t :=
  List.flatMap_append

theorem encode_eq_nil_iff {s : Text} : encode s = [] ↔ s = [] := by
  rw [← encode_nil, encode_injective.eq_iff]

/-! ## Bytes of one character -/

/-- A byte below `0x80` encodes one character only. -/
theorem mem_utf8EncodeChar {c : Char} {n : ℕ} (hn : n < 128)
    (h : UInt8.ofNat n ∈ String.utf8EncodeChar c) : c.toNat = n := by
  have hofNat : ∀ {k : ℕ}, UInt8.ofNat n = UInt8.ofNat k → n = k % 256 := by
    intro k hk
    have hnat := congrArg UInt8.toNat hk
    rw [UInt8.toNat_ofNat', UInt8.toNat_ofNat'] at hnat
    omega
  -- the bytes of a character of more than one byte are all above `0x7F`
  have hv : c.val.toNat = c.toNat := rfl
  simp only [String.utf8EncodeChar, hv] at h
  split at h
  · have := hofNat (List.mem_singleton.mp h)
    omega
  · split at h
    · rcases List.mem_pair.mp h with h | h
      · have := hofNat h
        omega
      · have := hofNat h
        omega
    · split at h
      · simp only [List.mem_cons, List.not_mem_nil, or_false] at h
        rcases h with h | h | h
        all_goals
          have := hofNat h
          omega
      · simp only [List.mem_cons, List.not_mem_nil, or_false] at h
        rcases h with h | h | h | h
        all_goals
          have := hofNat h
          omega

theorem not_mem_utf8EncodeChar {c d : Char} {n : ℕ} (hn : n < 128) (hd : d.toNat = n)
    (hcd : c ≠ d) : UInt8.ofNat n ∉ String.utf8EncodeChar c := by
  intro h
  exact hcd (Char.toNat_inj.mp ((mem_utf8EncodeChar hn h).trans hd.symm))

/-- Of a text without the character. -/
theorem not_mem_encode {d : Char} {n : ℕ} (hn : n < 128) (hd : d.toNat = n) {s : Text} (h : d ∉ s) :
    UInt8.ofNat n ∉ encode s := by
  intro hmem
  obtain ⟨c, hc, hbyte⟩ := List.mem_flatMap.mp hmem
  exact not_mem_utf8EncodeChar hn hd (fun heq => h (heq ▸ hc)) hbyte

/-! ## Lines -/

/-- The file with the given lines, in bytes. -/
def unlines (ls : List (List UInt8)) : List UInt8 := ls.flatMap fun l => l ++ [10]

theorem unlines_append (ls ls' : List (List UInt8)) :
    unlines (ls ++ ls') = unlines ls ++ unlines ls' :=
  List.flatMap_append

/-- The bytes of a file of lines. -/
theorem encode_unlines (ls : List Text) : encode (Csv.unlines ls) = unlines (ls.map encode) := by
  induction ls with
  | nil => rfl
  | cons l ls ih =>
    have hline : encode (l ++ ['\n']) = encode l ++ [10] := encode_append l ['\n']
    rw [List.map_cons, unlines, List.flatMap_cons, ← hline, ← unlines, ← ih, ← encode_append]
    rfl

/-- The bytes of a line are a line. -/
theorem lineFeed_not_mem_encode {l : Text} (h : Csv.IsLine l) : 10 ∉ encode l :=
  not_mem_encode (by decide) rfl h.1

end Utf8
end PamoRxpBench
