import MountSpace.Path.Spelling

/-!
# The same questions asked of bytes

A text is kept as bytes, and a caller that cuts it at its separators does so by offsets into the
bytes. A slice wants its offsets in order, within the text, and at the beginnings of characters;
otherwise there is no answer at all.

- `Offsets.slice?`: the bytes between two offsets.
- `Offsets.parent`, `fileName`: slices up to and from the last separator.
- `Offsets.isPrefixOf`: the byte at the end of a beginning tells whether it ends at a separator.
- `Offsets.ancestorsFrom`: a loop from one separator to the next.
-/

namespace MountSpace

/-- The byte of a separator. -/
def Utf8.separator : UInt8 := 0x2F

namespace Offsets

open Utf8 (separator)

/-- Whether a byte is inside a character. -/
def isContinuation (b : UInt8) : Bool := 0x80 ≤ b && b < 0xC0

/-- Whether an offset is at the beginning of a character or at the end of the text. -/
def isBoundary (text : Bytes) (offset : Nat) : Bool :=
  match text[offset]? with
  | some b => !isContinuation b
  | none => offset == text.length

/-- The bytes from one offset up to another one. -/
def slice? (text : Bytes) (start stop : Nat) : Option Bytes :=
  if start ≤ stop ∧ isBoundary text start ∧
    isBoundary text stop then some ((text.take stop).drop start) else none

/-- A slice does not start past the end of the text. -/
theorem le_length_of_slice? {text rest : Bytes} {start : Nat}
    (h : slice? text start text.length = some rest) :
    start ≤ text.length := by
  rw [slice?] at h
  split at h
  next bounds => exact bounds.1
  next => cases h

/-- The offset of the last separator. -/
def lastSeparator : Bytes → Option Nat
  | [] => none
  | b :: rest =>
    match lastSeparator rest with
    | some offset => some (offset + 1)
    | none => if b = separator then some 0 else none

/-- The bytes before the last separator, and the root where that comes first or there is none. -/
def parent (text : Bytes) : Option Bytes :=
  match lastSeparator text with
  | none | some 0 => some [separator]
  | some offset => slice? text 0 offset

/-- The bytes after the last separator, all of them if there is none. -/
def fileName (text : Bytes) : Option Bytes :=
  match lastSeparator text with
  | none => some text
  | some offset => slice? text (offset + 1) text.length

/-- Whether a text is another one or begins it and is followed there by a separator. The byte that
follows is only looked at where the other text is longer. -/
def isPrefixOf (start text : Bytes) : Option Bool :=
  if start = [separator] then some true
  else if text = start then some true
  else if start.length < text.length ∧
    start <+: text then (text[start.length]?).map (· == separator)
  else some false

/-- The beginnings that end before a separator past an offset, the shortest first. Each turn of the
loop moves the offset on within the text, so that it ends. -/
def ancestorsFrom (text : Bytes) (offset : Nat) : Option (List Bytes) :=
  match _h : slice? text (offset + 1) text.length with
  | none => none
  | some rest =>
    match rest.idxOf? separator with
    | none => some []
    | some next =>
      match slice? text 0 (offset + next + 1), ancestorsFrom text (offset + next + 1) with
      | some inner, some longer => some (inner :: longer)
      | _, _ => none
termination_by text.length - offset
decreasing_by
  have := le_length_of_slice? _h
  omega

/-- The beginnings that end before a separator other than the leading one, the shortest first. -/
def strictAncestors (text : Bytes) : Option (List Bytes) := ancestorsFrom text 0

end Offsets

end MountSpace
