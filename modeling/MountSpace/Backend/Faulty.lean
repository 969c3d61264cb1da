import MountSpace.FileSystem

/-!
# Backends that fail on demand

A faulty backend stands before another one. Calls that match one of its faults fail; the others are
passed on.

- `Fault`: which calls fail, and how.
- `FileSystem.faulty`: the backend.
-/

namespace MountSpace

/-- An operation that can be made to fail. -/
inductive Operation where
  | stat
  | readdir
  | readAll
  | mkdir
  | unlink
  | rmdir
  | rename
  | openFile
  | sync
  deriving DecidableEq, Repr

/-- A failure to bring about. -/
structure Fault where
  operation : Operation
  /-- The path at which the operation fails; any if absent. -/
  path : Option Path
  /-- The failure at a path. -/
  error : Path → FsError

/-- The failure that the first matching fault brings about. -/
def Fault.check (faults : List Fault) (operation : Operation) (p : Path) : Except FsError Unit :=
  let hits := fun (f : Fault) => f.operation = operation && f.path.all (· == p)
  match faults.find? hits with
  | some f => .error (f.error p)
  | none => .ok ()

/-- The backend before another one. A file it opens is its own: the attributes are those of the file
that the other backend opens, and the content is read anew. -/
def FileSystem.faulty (self : BackendId) (inner : FileSystem) (faults : List Fault)
    (capabilities : Option Capabilities) : FileSystem where
  name := "faulty"
  capabilities := capabilities.getD inner.capabilities
  stat v p := do
    Fault.check faults .stat p
    inner.stat v p
  readdir v p := do
    Fault.check faults .readdir p
    inner.readdir v p
  readAll v p := do
    Fault.check faults .readAll p
    inner.readAll v p
  mkdir p mode := do
    Action.ofExcept (Fault.check faults .mkdir p)
    inner.mkdir p mode
  unlink p := do
    Action.ofExcept (Fault.check faults .unlink p)
    inner.unlink p
  rmdir p := do
    Action.ofExcept (Fault.check faults .rmdir p)
    inner.rmdir p
  rename source target := do
    Action.ofExcept (Fault.check faults .rename source)
    inner.rename source target
  openFile p flags mode := do
    Action.ofExcept (Fault.check faults .openFile p)
    let f ← inner.openFile p flags mode
    let data ← Action.ofExcept (inner.readAll (← get) p)
    return OpenFile.load self (Utf8.encode p.spelling) flags f.attr data (← Volumes.now)
  sync p data attr := do
    Action.ofExcept (Fault.check faults .sync p)
    inner.sync p data attr

end MountSpace
