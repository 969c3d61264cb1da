import MountSpace.Path.Basic

/-!
# Questions a spelling answers by its separators alone

A caller that holds a path only as text can cut it at its separators. On the normal spelling of a
path these cuts agree with the segments; on any other text they do what they say and no more.

- `Spelling.parent`, `Spelling.fileName`: the text before and after the last separator.
- `Spelling.isPrefixOf`: whether one text reaches another at a separator.
- `Spelling.strictAncestors`: the beginnings that end before an inner separator.
-/

namespace MountSpace.Spelling

/-- The text before and after the last separator. -/
def cutLast : List Char → Option (List Char × List Char)
  | [] => none
  | c :: rest =>
    match cutLast rest with
    | some (before, after) => some (c :: before, after)
    | none => if c = '/' then some ([], rest) else none

/-- The text before the last separator, and the root where that is empty. -/
def parent (text : String) : String :=
  match cutLast text.toList with
  | none | some ([], _) => "/"
  | some (before, _) => String.ofList before

/-- The text after the last separator, all of it if there is none. -/
def fileName (text : String) : String :=
  match cutLast text.toList with
  | none => text
  | some (_, after) => String.ofList after

/-- Whether a text is another one or is followed in it by a separator. The root
reaches every text. -/
def isPrefixOf (start text : String) : Bool :=
  start == "/" || start == text || (start.toList ++ ['/']).isPrefixOf text.toList

/-- The beginnings of a text that end before a separator, the shortest first. -/
def beginnings : List Char → List (List Char)
  | [] => []
  | c :: rest =>
    let longer := (beginnings rest).map (c :: ·)
    if c = '/' then [] :: longer else longer

/-- The beginnings that end before a separator other than the leading one, the shortest first. -/
def strictAncestors (text : String) : List String :=
  match text.toList with
  | [] => []
  | c :: rest => (beginnings rest).map fun inner => String.ofList (c :: inner)

end MountSpace.Spelling
