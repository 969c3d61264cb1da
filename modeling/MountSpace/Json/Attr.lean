import MountSpace.Attr
import MountSpace.Json.Parser

/-!
# Attributes as structured data

- `Json.record?`: the fields of a value, which is an object with the names of the fields or
  an array in their order.
- `Json.attr?`, `Json.ofAttr`: attributes read and written. A time before the
  epoch cannot be written.
- `Json.dirEntry?`: an entry of a directory read.
-/

namespace MountSpace.Json

/-- The values of the named fields, in the order of the names. Every field occurs once. A closed
record has no other fields; other fields of an open one are passed over. -/
def record? (names : List String) (closed : Bool) : Json → Option (List Json)
  | .array items => if items.length = names.length then some items else none
  | .object members => do
    let members ← members.mapM fun m => m.1.map (·, m.2)
    guard (!closed || members.all (names.contains ·.1))
    names.mapM fun name =>
      match members.filter (·.1 = name) with
      | [m] => some m.2
      | _ => none
  | _ => none

/-- A whole number below a bound. -/
def natBelow? (bound : Nat) : Json → Option Nat
  | .integer n => if 0 ≤ n ∧ n.toNat < bound then some n.toNat else none
  | _ => none

def uint32? (j : Json) : Option UInt32 := (natBelow? UInt32.size j).map Nat.toUInt32

def uint64? (j : Json) : Option UInt64 := (natBelow? UInt64.size j).map Nat.toUInt64

def text? : Json → Option String
  | .string t => t
  | _ => none

/-- The kind of a name. -/
def kindNamed? : String → Option FileKind
  | "File" => some .file
  | "Directory" => some .directory
  | _ => none

/-- A kind by its name, or by its name with nothing under it. -/
def kind? : Json → Option FileKind
  | .string (some name) => kindNamed? name
  | .object [(some name, .null)] => kindNamed? name
  | _ => none

def kindName : FileKind → String
  | .file => "File"
  | .directory => "Directory"

def instantFields : List String := ["secs_since_epoch", "nanos_since_epoch"]

/-- An instant from the epoch on. Nanoseconds beyond a second carry over. -/
def instant? (j : Json) : Option Instant :=
  match record? instantFields true j with
  | some [secs, nanos] => do
    let secs ← natBelow? UInt64.size secs
    let nanos ← natBelow? UInt32.size nanos
    guard (secs + nanos / nanosPerSecond < UInt64.size)
    Instant.ofNanos? (secs * nanosPerSecond + nanos : Nat)
  | _ => none

def ofInstant? (t : Instant) : Option Json :=
  if t.nanos < 0 then none
  else some (.object [
    (some "secs_since_epoch", .integer t.seconds),
    (some "nanos_since_epoch", .integer t.subsecond)])

def attrFields : List String :=
  ["size", "kind", "perm", "atime", "mtime", "ctime", "nlink", "dev", "ino"]

def attr? (j : Json) : Option FileAttr :=
  match record? attrFields false j with
  | some [size, kind, perm, atime, mtime, ctime, nlink, dev, ino] => do
    return {
      size := ← uint64? size
      kind := ← kind? kind
      perm := ← uint32? perm
      atime := ← instant? atime
      mtime := ← instant? mtime
      ctime := ← instant? ctime
      nlink := ← uint32? nlink
      dev := ← uint32? dev
      ino := ← uint32? ino }
  | _ => none

/-- Why attributes with a time before the epoch cannot be written. -/
def beforeEpoch : String := "SystemTime must be later than UNIX_EPOCH"

/-- Attributes as an object, or the reason why not. -/
def ofAttr (a : FileAttr) : Except String Json := do
  let time (t : Instant) : Except String Json :=
    match ofInstant? t with
    | some j => .ok j
    | none => .error beforeEpoch
  return .object [
    (some "size", .integer a.size.toNat),
    (some "kind", .string (kindName a.kind)),
    (some "perm", .integer a.perm.toNat),
    (some "atime", ← time a.atime),
    (some "mtime", ← time a.mtime),
    (some "ctime", ← time a.ctime),
    (some "nlink", .integer a.nlink.toNat),
    (some "dev", .integer a.dev.toNat),
    (some "ino", .integer a.ino.toNat)]

def dirEntryFields : List String := ["name", "kind"]

def dirEntry? (j : Json) : Option DirEntry :=
  match record? dirEntryFields false j with
  | some [name, kind] => do return ⟨← text? name, ← kind? kind⟩
  | _ => none

end MountSpace.Json
