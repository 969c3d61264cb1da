import MountSpace.Json.Basic
import MountSpace.Json.Text

/-!
# Reading structured data

- `Json.read`: a value at the start of a text, and what follows it.
- `Json.parse`: the value that a whole text writes, blanks around it allowed.

A reader takes a bound on its steps; the length of the text is enough, since every step uses up a
character.
-/

namespace MountSpace.Json

def isBlank (c : Char) : Bool := c = ' ' || c = '\t' || c = '\n' || c = '\r'

def skipBlanks (cs : List Char) : List Char := cs.dropWhile isBlank

/-- Splits a text after its leading decimal digits. -/
def digits (cs : List Char) : List Char × List Char :=
  (cs.takeWhile Char.isDigit, cs.dropWhile Char.isDigit)

/-- The number that decimal digits write. -/
def digitsValue (ds : List Char) : Nat := ds.foldl (fun n c => n * 10 + (c.toNat - '0'.toNat)) 0

/-- Whole digits without needless zeros. -/
def isWhole : List Char → Bool
  | [] => false
  | ['0'] => true
  | c :: _ => c ≠ '0'

/-- Reads past a fraction, if there is one: whether there is, and what follows. -/
def fraction : List Char → Option (Bool × List Char)
  | '.' :: rest =>
    match digits rest with
    | ([], _) => none
    | (_, rest) => some (true, rest)
  | cs => some (false, cs)

/-- The text after a sign, if one stands first. -/
def dropSign : List Char → List Char
  | '+' :: rest => rest
  | '-' :: rest => rest
  | cs => cs

/-- Reads past an exponent, if there is one. -/
def exponent : List Char → Option (Bool × List Char)
  | c :: rest =>
    if c = 'e' || c = 'E' then
      match digits (dropSign rest) with
      | ([], _) => none
      | (_, rest) => some (true, rest)
    else some (false, c :: rest)
  | [] => some (false, [])

/-- Reads a number without its sign. -/
def number (negative : Bool) (cs : List Char) : Option (Json × List Char) := do
  let (whole, rest) := digits cs
  guard (isWhole whole)
  let (hasFraction, rest) ← fraction rest
  let (hasExponent, rest) ← exponent rest
  let n := digitsValue whole
  if hasFraction || hasExponent || (negative && n = 0) then return (.real, rest)
  else return (.integer (if negative then -n else n), rest)

/-- Reads a text whose opening quote has been read. -/
def text (cs : List Char) : Option (Option String × List Char) := do
  let (elements, rest) ← Text.lex cs
  return ((Text.join elements).map String.ofList, rest)

mutual

/-- Reads a value. -/
def read : Nat → List Char → Option (Json × List Char)
  | 0, _ => none
  | bound + 1, cs =>
    match skipBlanks cs with
    | '"' :: rest => do
      let (t, rest) ← text rest
      return (.string t, rest)
    | '{' :: rest =>
      match skipBlanks rest with
      | '}' :: rest => some (.object [], rest)
      | rest => do
        let (members, rest) ← readMembers bound rest
        return (.object members, rest)
    | '[' :: rest =>
      match skipBlanks rest with
      | ']' :: rest => some (.array [], rest)
      | rest => do
        let (items, rest) ← readItems bound rest
        return (.array items, rest)
    | 'n' :: 'u' :: 'l' :: 'l' :: rest => some (.null, rest)
    | 't' :: 'r' :: 'u' :: 'e' :: rest => some (.bool true, rest)
    | 'f' :: 'a' :: 'l' :: 's' :: 'e' :: rest => some (.bool false, rest)
    | '-' :: rest => number true rest
    | rest => number false rest

/-- Reads the members of an object up to its closing brace. -/
def readMembers : Nat → List Char → Option (List (Option String × Json) × List Char)
  | 0, _ => none
  | bound + 1, cs =>
    match skipBlanks cs with
    | '"' :: rest => do
      let (name, rest) ← text rest
      match skipBlanks rest with
      | ':' :: rest =>
        let (value, rest) ← read bound rest
        match skipBlanks rest with
        | '}' :: rest => return ([(name, value)], rest)
        | ',' :: rest =>
          let (members, rest) ← readMembers bound rest
          return ((name, value) :: members, rest)
        | _ => none
      | _ => none
    | _ => none

/-- Reads the items of an array up to its closing bracket. -/
def readItems : Nat → List Char → Option (List Json × List Char)
  | 0, _ => none
  | bound + 1, cs => do
    let (value, rest) ← read bound cs
    match skipBlanks rest with
    | ']' :: rest => return ([value], rest)
    | ',' :: rest =>
      let (items, rest) ← readItems bound rest
      return (value :: items, rest)
    | _ => none

end

/-- The value that a whole text writes. -/
def parse (cs : List Char) : Option Json := do
  let (value, rest) ← read (cs.length + 1) cs
  guard (skipBlanks rest).isEmpty
  return value

end MountSpace.Json
