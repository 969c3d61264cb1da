/-!
# UTF-8 text inside byte strings

Names and paths arrive as bytes that need not be text. This module splits any byte string into the
characters it spells and the stretches that spell none.

- `Utf8.scan`: the pieces of a byte string, in order, read by an automaton with one pending
  sequence.
- `Utf8.decodeLossy`: the text of the pieces, each ill-formed stretch shown as one U+FFFD.
- `Utf8.decode?`: the text, only where nothing is ill-formed.
- `Utf8.encode`: the bytes of a text.

An ill-formed stretch is a *maximal subpart*: the longest beginning of some well-formed sequence, or
a single byte that begins none.
-/

namespace MountSpace

/-- A byte string, the content of files and records. -/
abbrev Bytes := List UInt8

namespace Utf8

/-- One piece of a byte string: a character it spells, or a stretch of bytes that spells none. -/
inductive Piece where
  | char (c : Char)
  | invalid (bytes : Bytes)
  deriving DecidableEq, Repr

/-- A multi-byte sequence of which a proper beginning has been read. -/
structure Pending where
  /-- The bytes read so far. -/
  read : Bytes
  /-- The payload bits read so far. -/
  value : Nat
  /-- How many bytes follow the next one. -/
  further : Nat
  /-- The least byte that may come next. -/
  low : UInt8
  /-- The greatest byte that may come next. -/
  high : UInt8
  deriving DecidableEq, Repr

/-- What a byte means where no sequence is pending. The bounds on the second byte keep out overlong
spellings, surrogates and code points past U+10FFFF. -/
inductive Lead where
  | ascii
  | opens (p : Pending)
  | stray
  deriving DecidableEq, Repr

def lead (b : UInt8) : Lead :=
  if b < 0x80 then .ascii
  else if b < 0xC2 then .stray
  else if b < 0xE0 then .opens ⟨[b], b.toNat - 0xC0, 0, 0x80, 0xBF⟩
  else if b < 0xF0 then
    .opens ⟨[b], b.toNat - 0xE0, 1, if b = 0xE0 then 0xA0 else 0x80,
      if b = 0xED then 0x9F else 0xBF⟩
  else if b < 0xF5 then
    .opens ⟨[b], b.toNat - 0xF0, 2, if b = 0xF0 then 0x90 else 0x80,
      if b = 0xF4 then 0x8F else 0xBF⟩
  else .stray

/-- Reads on from a pending sequence. A byte that cannot continue it ends the ill-formed stretch and
is looked at afresh. -/
def scanFrom : Option Pending → Bytes → List Piece
  | none, [] => []
  | some p, [] => [.invalid p.read]
  | none, b :: rest =>
    match lead b with
    | .ascii => .char (Char.ofNat b.toNat) :: scanFrom none rest
    | .opens p => scanFrom (some p) rest
    | .stray => .invalid [b] :: scanFrom none rest
  | some p, b :: rest =>
    if p.low ≤ b ∧ b ≤ p.high then
      let value := p.value * 64 + (b.toNat - 0x80)
      match p.further with
      | 0 => .char (Char.ofNat value) :: scanFrom none rest
      | n + 1 => scanFrom (some ⟨p.read ++ [b], value, n, 0x80, 0xBF⟩) rest
    else
      .invalid p.read ::
        match lead b with
        | .ascii => .char (Char.ofNat b.toNat) :: scanFrom none rest
        | .opens p => scanFrom (some p) rest
        | .stray => .invalid [b] :: scanFrom none rest

/-- The pieces of a byte string, in order. -/
def scan (bytes : Bytes) : List Piece := scanFrom none bytes

/-- The character shown for a piece: itself, or the replacement character. -/
def Piece.shown : Piece → Char
  | .char c => c
  | .invalid _ => '\uFFFD'

/-- The text of a byte string, each ill-formed stretch shown as one replacement character. -/
def decodeLossy (bytes : Bytes) : List Char := (scan bytes).map Piece.shown

/-- The character a piece spells, if it spells one. -/
def Piece.char? : Piece → Option Char
  | .char c => some c
  | .invalid _ => none

/-- The text of a byte string, if all of it is well-formed. -/
def decode? (bytes : Bytes) : Option (List Char) := (scan bytes).mapM Piece.char?

/-- The bytes of one character. -/
def encodeChar (c : Char) : Bytes :=
  let n := c.toNat
  if n < 0x80 then [n.toUInt8]
  else if n < 0x800 then [(0xC0 + n / 64).toUInt8, (0x80 + n % 64).toUInt8]
  else if n < 0x10000 then
    [(0xE0 + n / 4096).toUInt8, (0x80 + n / 64 % 64).toUInt8, (0x80 + n % 64).toUInt8]
  else
    [(0xF0 + n / 262144).toUInt8, (0x80 + n / 4096 % 64).toUInt8, (0x80 + n / 64 % 64).toUInt8,
      (0x80 + n % 64).toUInt8]

/-- The bytes of a text. -/
def encode (text : List Char) : Bytes := text.flatMap encodeChar

end Utf8

end MountSpace
