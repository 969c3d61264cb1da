import MountSpace.Json.Parser
import MountSpace.SortedMap
import MountSpace.Text.Utf8

/-!
# Stored listings

The content of a stored directory: an object whose members map the names of the entries to the ids
of their inodes, written without blanks and in the order of the names.

- `Listing`: names and ids.
- `Listing.encode`, `Listing.decode`: the stored form. Of two members with one
  name the later counts.
-/

namespace MountSpace

/-- The entries of a stored directory: names, and ids of inodes. -/
abbrev Listing := SortedMap String String

namespace Listing

/-- One member of the written object. -/
def member (entry : String × String) : List Char :=
  Json.Text.write entry.1.toList ++ ':' :: Json.Text.write entry.2.toList

/-- The members with commas between them. -/
def members : List (String × String) → List Char
  | [] => []
  | [entry] => member entry
  | entry :: rest => member entry ++ ',' :: members rest

/-- The stored form. -/
def encode (l : Listing) : Bytes := Utf8.encode ('{' :: members l.toList ++ ['}'])

/-- Name and id of a member, if both are text. -/
def entry? : Option String × Json → Option (String × String)
  | (some name, .string (some id)) => some (name, id)
  | _ => none

/-- The listing that bytes store, if they are an object of texts. -/
def decode (bytes : Bytes) : Option Listing := do
  let text ← Utf8.decode? bytes
  match ← Json.parse text with
  | .object members => return SortedMap.ofList (← members.mapM entry?)
  | _ => none

end Listing

end MountSpace
