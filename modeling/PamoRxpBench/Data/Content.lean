import PamoRxpBench.Library.Pcre

/-!
# Content strings

What a Suricata content is: characters, escaped characters and blocks of hexadecimal bytes, how
it is written in a rule and the bytes it stands for.
-/

namespace PamoRxpBench
namespace Data

open Brackets (hexDigit)

/-- Two hexadecimal digits, and the blanks before them. -/
structure HexPair where
  blanks : Text
  hi : Char
  lo : Char
deriving DecidableEq, Repr

/-- The byte of a pair. -/
def HexPair.byte (p : HexPair) : UInt8 :=
  UInt8.ofNat (16 * (hexDigit p.hi).getD 0 + (hexDigit p.lo).getD 0)

/-- What stands between blanks in a block. -/
structure HexPair.Valid (p : HexPair) : Prop where
  blanks : ∀ c ∈ p.blanks, Text.isSpace c = true
  hi : (hexDigit p.hi).isSome
  lo : (hexDigit p.lo).isSome

/-- A piece of a content. -/
inductive ContentToken
  | char (c : Char)
  /-- A character behind a backslash. -/
  | escape (c : Char)
  /-- A block between bars, with the blanks behind its last byte. -/
  | block (pairs : List HexPair) (trailing : Text)
deriving DecidableEq, Repr

namespace ContentToken

/-- The text between the bars of a block. -/
def blockBody (pairs : List HexPair) (trailing : Text) : Text :=
  (pairs.flatMap fun p => p.blanks ++ [p.hi, p.lo]) ++ trailing

/-- The blanks of a block. -/
def blockBlanks (pairs : List HexPair) (trailing : Text) : Text :=
  pairs.flatMap HexPair.blanks ++ trailing

/-- Bars and backslashes only open blocks and escapes. -/
def Valid : ContentToken → Prop
  | .char c => c ≠ '|' ∧ c ≠ '\\'
  | .escape c => c ∈ ['"', ';', ':', '\\']
  | .block pairs trailing =>
    (∀ p ∈ pairs, p.Valid) ∧ ∀ c ∈ trailing, Text.isSpace c = true

/-- The token in a rule. -/
def render : ContentToken → Text
  | .char c => [c]
  | .escape c => ['\\', c]
  | .block pairs trailing => '|' :: blockBody pairs trailing ++ ['|']

/-- The bytes of the token. -/
def denote : ContentToken → List UInt8
  | .char c => String.utf8EncodeChar c
  | .escape c => String.utf8EncodeChar c
  | .block pairs _ => pairs.map HexPair.byte

/-- No escape, and no blank in a block but the space. -/
def Plain : ContentToken → Prop
  | .char _ => True
  | .escape _ => False
  | .block pairs trailing => ∀ c ∈ blockBlanks pairs trailing, c = ' '

end ContentToken

/-- A content string. -/
structure Content where
  tokens : List ContentToken
  valid : ∀ t ∈ tokens, t.Valid

/-- The content in a rule. -/
def Content.render (content : Content) : Text := content.tokens.flatMap ContentToken.render

/-- The bytes that the content denotes. -/
def Content.denote (content : Content) : List UInt8 := content.tokens.flatMap ContentToken.denote

end Data
end PamoRxpBench
