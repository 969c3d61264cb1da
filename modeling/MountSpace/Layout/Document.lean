import MountSpace.Layout.Basic
import MountSpace.Text.Utf8
import MountSpace.Toml.Document

/-!
# Layouts as documents

A layout is written as a table: `root` is a table with the name of a `backend`, and `mount` is
a list of tables with a `path`, a `backend` and possibly `read_only`. Anything else in a
document is passed over.

- `Layout.ofEntries?`: the layout a table describes.
- `Layout.parse`: the layout a text describes.
- `Layout.load`: the layout in a file.
-/

namespace MountSpace.Layout

/-- The values of the named fields. A table gives them by their names; a list gives them in their
order and may be too long or too short. A date is a table without any of them. -/
def fields? (names : List String) : Toml → Option (List (Option Toml))
  | .table _ es => some (names.map fun name => es.lookup name)
  | .array items | .tables items => some (names.zipIdx.map fun (_, i) => items[i]?)
  | .date => some (names.map fun _ => none)
  | _ => none

/-- A kind by its name, or by its name with nothing under it. -/
def kind? : Toml → Option BackendKind
  | .string name => BackendKind.named? name
  | .table _ [(name, .table _ [])] => BackendKind.named? name
  | .table _ [(name, .array [])] => BackendKind.named? name
  | .table _ [(name, .tables [])] => BackendKind.named? name
  | _ => none

def text? : Toml → Option String
  | .string text => some text
  | _ => none

def boolean? : Toml → Option Bool
  | .boolean b => some b
  | _ => none

/-- What a field says, or a value of its own where the field is missing. -/
def fieldOr {α : Type} (missing : α) (read : Toml → Option α) : Option Toml → Option α
  | some x => read x
  | none => some missing

def rootFields : List String := ["backend"]

/-- The backend below everything. -/
def root? (x : Toml) : Option BackendKind :=
  match fields? rootFields x with
  | some [backend] => fieldOr .memory kind? backend
  | _ => none

def mountFields : List String := ["path", "backend", "read_only"]

def mount? (x : Toml) : Option Mount :=
  match fields? mountFields x with
  | some [path, backend, readOnly] => do
    return {
      path := ← path.bind text?
      backend := ← backend.bind kind?
      readOnly := ← fieldOr false boolean? readOnly }
  | _ => none

def mounts? : Toml → Option (List Mount)
  | .array items | .tables items => items.mapM mount?
  | _ => none

/-- The layout a table describes. -/
def ofEntries? (es : Toml.Entries) : Option Layout := do
  return {
    root := ← fieldOr .memory root? (es.lookup "root")
    mounts := ← fieldOr [] mounts? (es.lookup "mount") }

/-- The layout a text describes. -/
def parse (text : List Char) : Option Layout := (Toml.parse text).bind ofEntries?

/-- Why a file gives no layout. -/
inductive LoadError where
  /-- There is no such file, or it is not text. -/
  | unreadable
  /-- Its text describes no layout. -/
  | malformed
  deriving DecidableEq, Repr

/-- The layout in a file of the given bytes, or in one that does not exist. -/
def load (file : Option Bytes) : Except LoadError Layout :=
  match file.bind Utf8.decode? with
  | none => .error .unreadable
  | some text =>
    match parse text with
    | some l => .ok l
    | none => .error .malformed

end MountSpace.Layout
