import MountSpace.Text.Hex
import MountSpace.Toml.Basic

/-!
# Texts, numbers and dates of a document

Readers of the values that have no parts. Each takes the text from its place on and gives what it
has read and what follows.

- `basicText`, `literalText`: texts on one line, with and without escapes.
- `basicLines`, `literalLines`: texts over several lines.
- `integer?`, `float?`, `date?`: the rest.
- `scalar`: whichever of them starts there.
-/

namespace MountSpace.Toml

def isSpace (c : Char) : Bool := c = ' ' || c = '\t'

def skipSpace (cs : List Char) : List Char := cs.dropWhile isSpace

/-- A character that may stand in a comment and, but for the quotes, in a text. -/
def isVisible (c : Char) : Bool := c = '\t' || (' ' ≤ c && c ≤ '~') || '\x80' ≤ c

/-- The text after a line end. -/
def lineEnd? : List Char → Option (List Char)
  | '\n' :: rest => some rest
  | '\r' :: '\n' :: rest => some rest
  | _ => none

/-! ## Texts -/

/-- The character that a one-letter escape stands for. -/
def escaped? : Char → Option Char
  | 'b' => some '\x08'
  | 't' => some '\t'
  | 'n' => some '\n'
  | 'f' => some '\x0c'
  | 'r' => some '\r'
  | '"' => some '"'
  | '\\' => some '\\'
  | _ => none

/-- The character of a number, if it has one. -/
def scalarValue? (digits : List Char) : Option Char := do
  let n ← Hex.number? digits
  if h : n.isValidChar then return Char.ofNatAux n h else none

/-- A text and what follows it. -/
abbrev Read := Option (List Char × List Char)

/-- Puts a character before what has been read. -/
def before (c : Char) (r : Read) : Read := r.map fun (text, rest) => (c :: text, rest)

/-- The text up to a quotation mark. -/
def basicText : List Char → Read
  | [] => none
  | '"' :: rest => some ([], rest)
  | '\\' :: 'u' :: a :: b :: c :: d :: rest =>
    (scalarValue? [a, b, c, d]).bind fun x => before x (basicText rest)
  | '\\' :: 'U' :: a :: b :: c :: d :: e :: f :: g :: h :: rest =>
    (scalarValue? [a, b, c, d, e, f, g, h]).bind fun x => before x (basicText rest)
  | '\\' :: e :: rest => (escaped? e).bind fun x => before x (basicText rest)
  | c :: rest => if isVisible c && c ≠ '\\' then before c (basicText rest) else none

/-- The text up to an apostrophe. -/
def literalText : List Char → Read
  | [] => none
  | '\'' :: rest => some ([], rest)
  | c :: rest => if isVisible c then before c (literalText rest) else none

/-- The text up to three quotation marks, of which up to two more may stand before them. A backslash
at the end of a line takes away all blanks up to the next character. -/
def basicLines : Bool → List Char → Read
  | _, [] => none
  | _, '"' :: '"' :: '"' :: '"' :: '"' :: rest => some (['"', '"'], rest)
  | _, '"' :: '"' :: '"' :: '"' :: rest => some (['"'], rest)
  | _, '"' :: '"' :: '"' :: rest => some ([], rest)
  | _, '\\' :: 'u' :: a :: b :: c :: d :: rest =>
    (scalarValue? [a, b, c, d]).bind fun x => before x (basicLines false rest)
  | _, '\\' :: 'U' :: a :: b :: c :: d :: e :: f :: g :: h :: rest =>
    (scalarValue? [a, b, c, d, e, f, g, h]).bind fun x => before x (basicLines false rest)
  | _, '\\' :: e :: rest =>
    if (lineEnd? (skipSpace (e :: rest))).isSome then basicLines true (e :: rest)
    else (escaped? e).bind fun x => before x (basicLines false rest)
  | skipping, '\r' :: '\n' :: rest =>
    if skipping then basicLines true rest else before '\n' (basicLines false rest)
  | skipping, c :: rest =>
    if skipping && (isSpace c || c = '\n') then basicLines true rest
    else if c = '\n' || (isVisible c && c ≠ '\\') then before c (basicLines false rest)
    else none

/-- The text up to three apostrophes, of which up to two more may stand before them. -/
def literalLines : List Char → Read
  | [] => none
  | '\'' :: '\'' :: '\'' :: '\'' :: '\'' :: rest => some (['\'', '\''], rest)
  | '\'' :: '\'' :: '\'' :: '\'' :: rest => some (['\''], rest)
  | '\'' :: '\'' :: '\'' :: rest => some ([], rest)
  | '\r' :: '\n' :: rest => before '\n' (literalLines rest)
  | c :: rest => if c = '\n' || isVisible c then before c (literalLines rest) else none

/-- The text without a line end at its start. -/
def dropLineEnd (cs : List Char) : List Char := (lineEnd? cs).getD cs

/-- A text of any form. -/
def text? : List Char → Read
  | '"' :: '"' :: '"' :: rest => basicLines false (dropLineEnd rest)
  | '"' :: rest => basicText rest
  | '\'' :: '\'' :: '\'' :: rest => literalLines (dropLineEnd rest)
  | '\'' :: rest => literalText rest
  | _ => none

/-! ## Numbers -/

/-- Reads on through digits, each of which may have an underscore before it. -/
def moreDigits (isDigit : Char → Bool) : List Char → List Char × List Char
  | '_' :: c :: rest =>
    if isDigit c then
      let (ds, rest) := moreDigits isDigit rest
      (c :: ds, rest)
    else ([], '_' :: c :: rest)
  | c :: rest =>
    if isDigit c then
      let (ds, rest) := moreDigits isDigit rest
      (c :: ds, rest)
    else ([], c :: rest)
  | [] => ([], [])

/-- Digits with underscores between them. -/
def digits (isDigit : Char → Bool) : List Char → Read
  | c :: rest =>
    if isDigit c then
      let (ds, rest) := moreDigits isDigit rest
      some (c :: ds, rest)
    else none
  | [] => none

/-- Decimal digits of which the first is not a needless zero. -/
def wholeDigits : List Char → Read
  | '0' :: rest => some (['0'], rest)
  | cs => digits Char.isDigit cs

/-- The sign, if one stands first, and what follows it. -/
def sign : List Char → Bool × List Char
  | '-' :: rest => (true, rest)
  | '+' :: rest => (false, rest)
  | cs => (false, cs)

/-- The number that digits write to a base. -/
def valueOf (base : Nat) (ds : List Char) : Nat :=
  ds.foldl (fun n c => n * base + (Hex.value? c).getD 0) 0

/-- A whole number of 64 bits. -/
def bounded (n : Int) : Option Int :=
  if -0x8000000000000000 ≤ n ∧ n < 0x8000000000000000 then some n else none

/-- A whole number in a base with a mark of its own. -/
def based (base : Nat) (cs : List Char) : Option (Toml × List Char) := do
  let (ds, rest) ← digits (fun c => (Hex.value? c).any (· < base)) cs
  return (.integer (← bounded (valueOf base ds)), rest)

def integer? : List Char → Option (Toml × List Char)
  | '0' :: 'x' :: rest => based 16 rest
  | '0' :: 'o' :: rest => based 8 rest
  | '0' :: 'b' :: rest => based 2 rest
  | cs => do
    let (negative, rest) := sign cs
    let (ds, rest) ← wholeDigits rest
    let n : Int := valueOf 10 ds
    return (.integer (← bounded (if negative then -n else n)), rest)

/-- Digits after a point. -/
def fraction? : List Char → Read
  | '.' :: rest => digits Char.isDigit rest
  | _ => none

/-- The exponent after its letter: sign, digits. -/
def exponent? : List Char → Option (Bool × List Char × List Char)
  | c :: rest =>
    if c = 'e' || c = 'E' then
      let (negative, rest) := sign rest
      (digits Char.isDigit rest).map fun (ds, rest) => (negative, ds, rest)
    else none
  | [] => none

/-- Whether a decimal number is too great for a floating-point number: at least halfway from the
greatest finite one to the next power of two. The digits are those before and after the point,
`places` of them after it. -/
def overflows (ds : List Char) (places : Nat) (exponent : Int) : Bool :=
  let ds := ds.dropWhile (· = '0')
  let e := exponent - places
  let limit := 1 <<< 1024 - 1 <<< 970
  if ds.isEmpty || (ds.length : Int) + e < 300 then false
  else if 320 < (ds.length : Int) + e then true
  else if e < 0 then limit * Nat.pow 10 e.natAbs ≤ valueOf 10 ds
  else limit ≤ valueOf 10 ds * Nat.pow 10 e.toNat

/-- A number with a fraction, an exponent or both, or one of the two names. A positive number must
not be too great; a negative one may be. -/
def float? (cs : List Char) : Option (Toml × List Char) :=
  let (negative, unsigned) := sign cs
  match unsigned with
  | 'i' :: 'n' :: 'f' :: rest => some (.float, rest)
  | 'n' :: 'a' :: 'n' :: rest => some (.float, rest)
  | _ => do
    let (whole, rest) ← wholeDigits unsigned
    let (places, rest, pointed) :=
      match fraction? rest with
      | some (ds, rest) => (ds, rest, true)
      | none => ([], rest, false)
    match exponent? rest with
    | some (down, ds, rest) =>
      let e : Int := valueOf 10 ds
      guard (negative || !overflows (whole ++ places) places.length (if down then -e else e))
      return (.float, rest)
    | none =>
      guard pointed
      guard (negative || !overflows (whole ++ places) places.length 0)
      return (.float, rest)

/-! ## Dates -/

/-- A number of exactly so many decimal digits, within bounds. -/
def fixed (width low high : Nat) (cs : List Char) : Option (Nat × List Char) := do
  let ds := cs.take width
  guard (ds.length = width && ds.all Char.isDigit)
  let n := valueOf 10 ds
  guard (low ≤ n && n ≤ high)
  return (n, cs.drop width)

/-- The text after a given character. -/
def after? (c : Char) : List Char → Option (List Char)
  | d :: rest => if c = d then some rest else none
  | [] => none

def isLeap (year : Nat) : Bool := year % 4 = 0 && (year % 100 ≠ 0 || year % 400 = 0)

def daysIn (year month : Nat) : Nat :=
  match month with
  | 2 => if isLeap year then 29 else 28
  | 4 | 6 | 9 | 11 => 30
  | _ => 31

/-- Reads past year, month and day. -/
def day? (cs : List Char) : Option (List Char) := do
  let (year, rest) ← fixed 4 0 9999 cs
  let (month, rest) ← fixed 2 1 12 (← after? '-' rest)
  let (_, rest) ← fixed 2 1 (daysIn year month) (← after? '-' rest)
  return rest

/-- Reads past hour, minute and second, and parts of a second if there are any. -/
def time? (cs : List Char) : Option (List Char) := do
  let (_, rest) ← fixed 2 0 23 cs
  let (_, rest) ← fixed 2 0 59 (← after? ':' rest)
  let (_, rest) ← fixed 2 0 60 (← after? ':' rest)
  match rest with
  | '.' :: c :: more => if c.isDigit then return more.dropWhile Char.isDigit else none
  | '.' :: [] => none
  | _ => return rest

/-- Reads past the distance from world time, if it is given. -/
def offset (cs : List Char) : Option (List Char) :=
  match cs with
  | 'Z' :: rest | 'z' :: rest => some rest
  | '+' :: rest | '-' :: rest => do
    let (_, rest) ← fixed 2 0 23 rest
    let (_, rest) ← fixed 2 0 59 (← after? ':' rest)
    return rest
  | _ => some cs

/-- A day, a time, or both with or without a distance from world time. -/
def date? (cs : List Char) : Option (Toml × List Char) :=
  match day? cs with
  | none => (time? cs).map (.date, ·)
  | some rest =>
    match rest with
    | c :: more =>
      if c = 'T' || c = 't' || c = ' ' then
        match time? more with
        | some rest => (offset rest).map (.date, ·)
        | none => some (.date, rest)
      else some (.date, rest)
    | [] => some (.date, [])

/-! ## All of them -/

/-- A value without parts. -/
def scalar (cs : List Char) : Option (Toml × List Char) :=
  match cs with
  | 't' :: 'r' :: 'u' :: 'e' :: rest => some (.boolean true, rest)
  | 'f' :: 'a' :: 'l' :: 's' :: 'e' :: rest => some (.boolean false, rest)
  | c :: _ =>
    if c = '"' || c = '\'' then (text? cs).map fun (t, rest) => (.string (String.ofList t), rest)
    else (date? cs).orElse fun _ => (float? cs).orElse fun _ => integer? cs
  | [] => none

end MountSpace.Toml
