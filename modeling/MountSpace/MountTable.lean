import MountSpace.OpenFile
import MountSpace.Path.Basic

/-!
# Mount tables

A table says which backend answers for which part of a space of paths: an implicit root for all of
it, and explicit mounts, of which the one with the longest path wins.

- `MountTable`: the implicit root and the mounts by path.
- `MountTable.resolve`: the backend that owns a path, and the path inside it.
- `MountTable.isMountPoint`, `childMounts`, `hasMountBeneath`, `pathOf?`: where mounts lie.
- `MountTable.checkAvailable`, `insert`, `remove`: changes. A backend is mounted at one path at
  most, and the implicit root nowhere but at `/`.
-/

namespace MountSpace

/-- Which backend answers for which paths. -/
structure MountTable where
  /-- The backend for every path that no mount claims. -/
  root : BackendId
  /-- The explicit mounts. -/
  mounts : SortedMap Path BackendId
  deriving DecidableEq, Inhabited

/-- Where a path leads. -/
structure Route where
  /-- The backend that owns the path. -/
  backend : BackendId
  /-- The path inside that backend. -/
  relative : Path
  /-- The mount that matched, `/` for the implicit root. -/
  mountPath : Path
  deriving DecidableEq

namespace MountTable

/-- A table without mounts. -/
def new (root : BackendId) : MountTable := ⟨root, ∅⟩

/-- The longer of a mount and the best one so far; the later of two that are equally long. -/
def longer (best : Option (Path × BackendId)) (m : Path × BackendId) : Option (Path × BackendId) :=
  match best with
  | some b => if m.1.segments.length < b.1.segments.length then some b else some m
  | none => some m

/-- The mount with the longest path that a path lies at or below. -/
def owner? (t : MountTable) (p : Path) : Option (Path × BackendId) :=
  (t.mounts.toList.filter fun m => m.1.isPrefixOf p).foldl longer none

/-- Where a path leads. -/
def resolve (t : MountTable) (p : Path) : Route :=
  match t.owner? p with
  | some (mountPath, backend) => { backend, relative := p.relativeTo mountPath, mountPath }
  | none => { backend := t.root, relative := p, mountPath := .root }

/-- Whether a backend is mounted exactly at a path. The implicit root does not count. -/
def isMountPoint (t : MountTable) (p : Path) : Bool := t.mounts.contains p

/-- The names of the mounts one step below a path, ascending. -/
def childMounts (t : MountTable) (p : Path) : List Segment :=
  t.mounts.keys.filterMap fun m =>
    match m.name? with
    | some name => if m.parent = p then some name else none
    | none => none

/-- Whether a mount lies strictly below a path. -/
def hasMountBeneath (t : MountTable) (p : Path) : Bool :=
  t.mounts.keys.any fun m => m ≠ p && p.isPrefixOf m

/-- Where a backend is mounted. -/
def pathOf? (t : MountTable) (b : BackendId) : Option Path :=
  (t.mounts.toList.find? fun m => m.2 = b).map (·.1)

/-- Fails unless a backend of a name may be mounted at a path. -/
def checkAvailable (t : MountTable) (p : Path) (b : BackendId) (name : String) :
    Except FsError Unit := do
  if t.isMountPoint p then
    throw (.alreadyMounted p.toText)
  if !p.isRoot && b = t.root then
    throw (.alreadyMounted (name ++ " is already the root"))
  if let some q := t.pathOf? b then
    throw (.alreadyMounted (name ++ " is already mounted at " ++ q.toText))

/-- The table with a mount added. -/
def insert (t : MountTable) (p : Path) (b : BackendId) (name : String) :
    Except FsError MountTable := do
  t.checkAvailable p b name
  return { t with mounts := t.mounts.insert p b }

/-- The table with the mount at a path removed, and the backend that was mounted there. -/
def remove (t : MountTable) (p : Path) : Except FsError (BackendId × MountTable) :=
  match t.mounts.get? p with
  | some b => .ok (b, { t with mounts := t.mounts.erase p })
  | none => .error (.notMounted p.toText)

def size (t : MountTable) : Nat := t.mounts.size

def isEmpty (t : MountTable) : Bool := t.mounts.isEmpty

end MountTable

end MountSpace
