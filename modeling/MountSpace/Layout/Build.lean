import MountSpace.Layout.Basic
import MountSpace.System

/-!
# Namespaces from layouts

- `BuildError`: why a namespace cannot be built.
- `System.addLayout`: a composite built as a layout asks, its backends before it.
-/

namespace MountSpace

/-- Why a namespace cannot be built. The path is the one that the layout writes. -/
inductive BuildError where
  /-- A new tree in memory would stay empty. -/
  | readOnlyMemory (path : String)
  /-- The backend could not be made or mounted. -/
  | mount (path : String) (reason : FsError)
  deriving DecidableEq, Repr

def BuildError.message : BuildError → String
  | readOnlyMemory path =>
    "invalid mount " ++ path ++ ": " ++ BackendKind.memory.name ++ " backend cannot be read-only"
  | mount path reason => "mount " ++ path ++ " failed: " ++ reason.message

namespace System

/-- Adds a new backend of a kind, for a path. -/
def addKind (s : System) (path : String) (readOnly : Bool) : BackendKind → Except BuildError System
  | .memory => if readOnly then .error (.readOnlyMemory path) else .ok s.addMemory
  | .keyValue =>
    match s.addKeyValue (.ofRecords ∅) readOnly with
    | .ok s => .ok s
    | .error e => .error (.mount path e)

/-- Adds the backend of one mount and mounts it. -/
def addMount (table : Nat) (s : System) (m : Layout.Mount) : Except BuildError System := do
  let b := s.next
  let s ← s.addKind m.path m.readOnly m.backend
  match s.mount table (.ofText m.path) b with
  | (.ok (), s) => return s
  | (.error e, _) => throw (.mount m.path e)

/-- Adds a composite and everything in it. Mounts are made in the order of the layout, so one inside
another comes after it. -/
def addLayout (s : System) (l : Layout) : Except BuildError (System × BackendId) := do
  let root := s.next
  let s ← s.addKind "/" false l.root
  let composite := s.next
  let s ← l.mounts.foldlM (addMount composite) (s.addComposite root)
  return (s, composite)

end System

end MountSpace
