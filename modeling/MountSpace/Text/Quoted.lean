import MountSpace.Text.Glyphless
import MountSpace.Text.Hex
import MountSpace.Text.Utf8

/-!
# Text between quotes

Messages and inspection output show a text between double quotes with everything escaped that would
end the quotes or could not be seen.

- `Quoted.char`: the shown form of one character.
- `Quoted.text`: a text between quotes.
- `Quoted.bytes`: a byte string between quotes, each byte of an ill-formed stretch escaped.
-/

namespace MountSpace.Quoted

/-- A number in lower-case hexadecimal digits without leading zeros. -/
def hex (n : Nat) : List Char := (Nat.toDigits 16 n)

/-- The shown form of one character. -/
def char (c : Char) : List Char :=
  if c = '\x00' then ['\\', '0']
  else if c = '\t' then ['\\', 't']
  else if c = '\r' then ['\\', 'r']
  else if c = '\n' then ['\\', 'n']
  else if c = '"' || c = '\\' then ['\\', c]
  else if isGlyphless c then ['\\', 'u', '\x7b'] ++ hex c.toNat ++ ['\x7d']
  else [c]

/-- A text between quotes. -/
def text (t : String) : String := String.ofList (['"'] ++ t.toList.flatMap char ++ ['"'])

/-- A byte that spells nothing, as two upper-case hexadecimal digits. -/
def byte (b : UInt8) : List Char :=
  ['\\', 'x', Hex.digit 'A' (b.toNat / 16), Hex.digit 'A' (b.toNat % 16)]

/-- The shown form of one piece of a byte string. -/
def piece : Utf8.Piece → List Char
  | .char c => char c
  | .invalid bytes => bytes.flatMap byte

/-- A byte string between quotes. -/
def bytes (b : Bytes) : String := String.ofList (['"'] ++ (Utf8.scan b).flatMap piece ++ ['"'])

end MountSpace.Quoted
