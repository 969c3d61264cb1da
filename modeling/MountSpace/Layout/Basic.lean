/-!
# Layouts

A layout says what a namespace is made of: the backend below everything, and the backends to mount
over it, in the order in which they are mounted.

- `BackendKind`: the backends that a layout can ask for, by name.
- `Layout`, `Layout.Mount`: what a layout asks for.
-/

namespace MountSpace

/-- A backend that can be made from nothing. -/
inductive BackendKind where
  /-- A new tree in memory. -/
  | memory
  /-- A new store of records in memory. -/
  | keyValue
  deriving DecidableEq, Repr, Inhabited

namespace BackendKind

def name : BackendKind → String
  | memory => "memory"
  | keyValue => "key-value"

/-- The kind of a name. -/
def named? : String → Option BackendKind
  | "memory" => some memory
  | "key-value" => some keyValue
  | _ => none

theorem named?_name (k : BackendKind) : named? k.name = some k := by cases k <;> rfl

/-- Why a text names no kind. -/
def unknown : String := "Matching variant not found"

/-- The kind a text names. Letters may be of either case. -/
def ofText (text : String) : Except String BackendKind :=
  match named? (String.ofList (text.toList.map Char.toLower)) with
  | some k => .ok k
  | none => .error unknown

end BackendKind

/-- A backend to be mounted. -/
structure Layout.Mount where
  /-- Where, as it was written. -/
  path : String
  backend : BackendKind
  readOnly : Bool := false
  deriving DecidableEq, Repr

/-- What a namespace is made of. -/
structure Layout where
  /-- The implicit root. -/
  root : BackendKind := .memory
  mounts : List Layout.Mount := []
  deriving DecidableEq, Repr, Inhabited

end MountSpace
