import MountSpace.FileSystem

/-!
# One space of paths over many backends

A composite sends every call to the backend that owns the path, under the path inside that backend.
It steps in only where mounts show:

- at a mount point, `stat` answers even if the mounted backend cannot say what its root is;
- a listing also names the mounts directly inside the directory (`mergeListing`);
- nothing may remove or move a mount point or a directory above one (`guardMountPoint`,
  `guardSubtree`);
- a file moves between two backends by copy (`renameAcross`), a directory does not.

`mount` first creates the directories above the mount point where they are missing
(`ensureAncestors`).
-/

namespace MountSpace

namespace Composite

/-- Permissions reported for a mount point whose backend cannot say what its root is. -/
def mountRootPerm : UInt32 := 0o777

/-- Permissions of directories created above a mount point. -/
def ancestorPerm : UInt32 := 0o777

/-- Where a path leads, refused for a mount point. -/
def guardMountPoint (t : MountTable) (p : Path) : Except FsError Route :=
  if t.isMountPoint p then .error (.busy p.toText) else .ok (t.resolve p)

/-- Where a path leads, refused for a mount point and for every directory above one. -/
def guardSubtree (t : MountTable) (p : Path) : Except FsError Route :=
  if t.isMountPoint p || t.hasMountBeneath p then .error (.busy p.toText) else .ok (t.resolve p)

/-- A listing with a name marked as a directory, added at the end if it is new. -/
def mergeName (name : String) : List DirEntry → List DirEntry
  | [] => [⟨name, .directory⟩]
  | e :: rest =>
    if e.name = name then { e with kind := .directory } :: rest else e :: mergeName name rest

/-- A listing with the names of mounts. -/
def mergeListing (entries : List DirEntry) (names : List String) : List DirEntry :=
  names.foldl (fun entries name => mergeName name entries) entries

variable (child : BackendId → FileSystem)

def stat (t : MountTable) (v : Volumes) (p : Path) : Except FsError FileAttr :=
  let r := t.resolve p
  match (child r.backend).stat v r.relative with
  | .ok attr => .ok attr
  | .error e =>
    if t.isMountPoint p && e.isNotFound then .ok (.directory mountRootPerm v.ambient.now)
    else .error e

/-- The listing of a directory with the mounts inside it. A directory above a mount lists them even
if the backend that owns it does not have the directory. -/
def readdir (t : MountTable) (v : Volumes) (p : Path) : Except FsError (List DirEntry) :=
  let r := t.resolve p
  let names := (t.childMounts p).map (·.text)
  match (child r.backend).readdir v r.relative with
  | .ok entries => .ok (mergeListing entries names)
  | .error e =>
    if e.isNotFound && t.hasMountBeneath p then .ok (mergeListing [] names) else .error e

def readAll (t : MountTable) (v : Volumes) (p : Path) : Except FsError Bytes :=
  let r := t.resolve p
  (child r.backend).readAll v r.relative

/-- Removes a file that was copied in vain. Its own failure is of no interest. -/
def removeCopy (target : Route) : Action Volumes Unit :=
  tryCatch ((child target.backend).unlink target.relative) fun _ => pure ()

/-- Moves a file from one backend to another: copies it, then removes it from where it was. If it
cannot be removed there, the copy is removed. -/
def renameAcross (source target : Route) : Action Volumes Unit := do
  let here := child source.backend
  let there := child target.backend
  if here.readOnly || there.readOnly then
    throw .readOnly
  let attr ← Action.ofExcept (here.stat (← get) source.relative)
  if attr.isDir then
    throw .crossDeviceLink
  let data ← Action.ofExcept (here.readAll (← get) source.relative)
  let copy ← there.openFile target.relative .replacing attr.perm
  let copy ← Action.ofExcept (copy.write 0 data (← Volumes.now))
  discard <| copy.close (child copy.owner)
  tryCatch (here.unlink source.relative) fun e => do
    removeCopy child target
    throw e

def rename (t : MountTable) (source target : Path) : Action Volumes Unit := do
  let s ← Action.ofExcept (guardSubtree t source)
  let d ← Action.ofExcept (guardSubtree t target)
  if s.backend = d.backend then (child s.backend).rename s.relative d.relative
  else renameAcross child s d

/-- Makes sure that a path above a mount point is a directory, creating it if it is absent. -/
def ensureDirectory (t : MountTable) (p : Path) : Action Volumes Unit := do
  if t.isMountPoint p then
    return
  let r := t.resolve p
  match (child r.backend).stat (← get) r.relative with
  | .ok attr =>
    unless attr.isDir do
      throw (.notADirectory p.toText)
  | .error e =>
    unless e.isNotFound do
      throw e
    (child r.backend).mkdir r.relative ancestorPerm

/-- Makes sure that all paths above a mount point are directories, the shallowest first. -/
def ensureAncestors (t : MountTable) (p : Path) : Action Volumes Unit :=
  p.strictAncestors.forM (ensureDirectory child t)

/-- Mounts a backend. The table changes only after everything else has succeeded. -/
def mount (table : Nat) (p : Path) (b : BackendId) : Action Volumes Unit := do
  let t := (← get).tables table
  Action.ofExcept (t.checkAvailable p b (child b).name)
  ensureAncestors child t p
  let t ← Action.ofExcept (t.insert p b (child b).name)
  modify fun v => { v with tables := setAt v.tables table t }

/-- Removes a mount, and tells what was mounted. -/
def unmount (table : Nat) (p : Path) : Action Volumes BackendId := do
  let (b, t) ← Action.ofExcept (((← get).tables table).remove p)
  modify fun v => { v with tables := setAt v.tables table t }
  return b

end Composite

/-- One line of a list of mounts. -/
structure MountInfo where
  path : Path
  backend : String
  readOnly : Bool
  deriving DecidableEq

/-- The explicit mounts in the order of their paths. -/
def MountTable.list (t : MountTable) (child : BackendId → FileSystem) : List MountInfo :=
  t.mounts.toList.map fun m => ⟨m.1, (child m.2).name, (child m.2).readOnly⟩

/-- The backend over a mount table, given the backends it can send calls to. -/
def FileSystem.composite (table : Nat) (child : BackendId → FileSystem) : FileSystem where
  name := "mountable"
  capabilities := {}
  stat v p := Composite.stat child (v.tables table) v p
  readdir v p := Composite.readdir child (v.tables table) v p
  readAll v p := Composite.readAll child (v.tables table) v p
  mkdir p mode := do
    let r ← Action.ofExcept (Composite.guardMountPoint ((← get).tables table) p)
    (child r.backend).mkdir r.relative mode
  unlink p := do
    let r ← Action.ofExcept (Composite.guardMountPoint ((← get).tables table) p)
    (child r.backend).unlink r.relative
  rmdir p := do
    let r ← Action.ofExcept (Composite.guardSubtree ((← get).tables table) p)
    (child r.backend).rmdir r.relative
  rename source target := do
    Composite.rename child ((← get).tables table) source target
  openFile p flags mode := do
    let r := ((← get).tables table).resolve p
    (child r.backend).openFile r.relative flags mode
  sync p data attr := do
    let r := ((← get).tables table).resolve p
    (child r.backend).sync r.relative data attr

end MountSpace
