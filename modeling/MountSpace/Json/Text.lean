import MountSpace.Text.Hex

/-!
# Text in structured data

- `Json.Text.lex`: the elements of a text up to its closing quote.
- `Json.Text.join`: the characters that elements spell, surrogate pairs joined.
- `Json.Text.write`: a text between quotes, escaped as little as possible.
-/

namespace MountSpace.Json.Text

/-- One element of a written text: a character, or a 16-bit unit given by its number. -/
inductive Element where
  | plain (c : Char)
  | unit (n : Nat)
  deriving DecidableEq, Repr

/-- The character that a one-letter escape stands for. -/
def escaped? : Char → Option Char
  | '"' => some '"'
  | '\\' => some '\\'
  | '/' => some '/'
  | 'b' => some '\x08'
  | 'f' => some '\x0c'
  | 'n' => some '\n'
  | 'r' => some '\r'
  | 't' => some '\t'
  | _ => none

/-- The elements up to the closing quote, and what follows it. -/
def lex : List Char → Option (List Element × List Char)
  | [] => none
  | '"' :: rest => some ([], rest)
  | '\\' :: 'u' :: a :: b :: c :: d :: rest => do
    let n ← Hex.number? [a, b, c, d]
    let (elements, rest) ← lex rest
    return (.unit n :: elements, rest)
  | '\\' :: e :: rest => do
    let c ← escaped? e
    let (elements, rest) ← lex rest
    return (.plain c :: elements, rest)
  | c :: rest =>
    if c < ' ' || c = '\\' then none
    else do
      let (elements, rest) ← lex rest
      return (.plain c :: elements, rest)

def isHighSurrogate (n : Nat) : Bool := 0xD800 ≤ n && n < 0xDC00

def isLowSurrogate (n : Nat) : Bool := 0xDC00 ≤ n && n < 0xE000

/-- The characters that elements spell, if every surrogate is half of a pair. -/
def join : List Element → Option (List Char)
  | [] => some []
  | .plain c :: rest => (join rest).map (c :: ·)
  | .unit n :: .unit m :: rest =>
    if isHighSurrogate n && isLowSurrogate m then
      (join rest).map (Char.ofNat (0x10000 + (n - 0xD800) * 0x400 + (m - 0xDC00)) :: ·)
    else if isHighSurrogate n || isLowSurrogate n then none
    else (join (.unit m :: rest)).map (Char.ofNat n :: ·)
  | .unit n :: rest =>
    if isHighSurrogate n || isLowSurrogate n then none
    else (join rest).map (Char.ofNat n :: ·)

/-- The written form of one character. -/
def writeChar (c : Char) : List Char :=
  if c = '"' || c = '\\' then ['\\', c]
  else if c = '\x08' then ['\\', 'b']
  else if c = '\t' then ['\\', 't']
  else if c = '\n' then ['\\', 'n']
  else if c = '\x0c' then ['\\', 'f']
  else if c = '\r' then ['\\', 'r']
  else if c < ' ' then
    ['\\', 'u', '0', '0', Hex.digit 'a' (c.toNat / 16), Hex.digit 'a' (c.toNat % 16)]
  else [c]

/-- A text between quotes. -/
def write (text : List Char) : List Char := '"' :: text.flatMap writeChar ++ ['"']

end MountSpace.Json.Text
