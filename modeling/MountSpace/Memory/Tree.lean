import MountSpace.OpenFile
import MountSpace.Path.Basic

/-!
# Trees in memory

A tree is a flat map from paths to nodes. That every node but the root has a directory above it is
kept by the operations, each of which either fails or returns the changed tree.

- `MemoryTree.Node`: a file with its content, or a directory.
- `MemoryTree.new`: the tree of a fresh backend, a root directory alone.
- `stat`, `readdir`, `readAll`: inquiries.
- `mkdir`, `unlink`, `rmdir`, `rename`, `openFile`, `sync`: changes.
-/

namespace MountSpace

namespace MemoryTree

/-- What the tree holds at a path. -/
inductive Node where
  | file (data : Bytes) (attr : FileAttr)
  | directory (attr : FileAttr)
  deriving DecidableEq, Inhabited

namespace Node

def attr : Node → FileAttr
  | file _ attr => attr
  | directory attr => attr

def kind : Node → FileKind
  | file _ _ => .file
  | directory _ => .directory

/-- The node with its last change set. -/
def changedAt (now : Instant) : Node → Node
  | file data attr => file data { attr with ctime := now }
  | directory attr => directory { attr with ctime := now }

end Node

end MemoryTree

open MemoryTree (Node)

/-- A tree as a map from paths to what they hold. -/
structure MemoryTree where
  nodes : SortedMap Path Node
  deriving DecidableEq, Inhabited

namespace MemoryTree

/-- Permissions of the root of a fresh tree. -/
def rootPerm : UInt32 := 0o755

/-- A tree with nothing but its root. -/
def new (now : Instant) : MemoryTree :=
  ⟨SortedMap.empty.insert .root (.directory (.directory rootPerm now))⟩

def get? (t : MemoryTree) (p : Path) : Option Node := t.nodes.get? p

/-- The node at a path that has one. -/
def node (t : MemoryTree) (p : Path) : Except FsError Node :=
  match t.get? p with
  | some n => .ok n
  | none => .error (.notFound p.toText)

/-- Fails unless a path holds a directory. -/
def checkDirectory (t : MemoryTree) (p : Path) : Except FsError Unit := do
  match ← t.node p with
  | .directory _ => return
  | .file _ _ => throw (.notADirectory p.toText)

/-- Whether a path leads to an entry of the directory at another one. -/
def isEntryOf (p q : Path) : Bool := !q.isRoot && q.parent == p

/-- Whether the directory at a path has entries. -/
def hasEntries (t : MemoryTree) (p : Path) : Bool := t.nodes.keys.any (isEntryOf p)

/-! ## Inquiries -/

def stat (t : MemoryTree) (p : Path) : Except FsError FileAttr := do
  return (← t.node p).attr

/-- The entries of a directory. Keys ascend by spelling, so their last segments ascend as well. -/
def readdir (t : MemoryTree) (p : Path) : Except FsError (List DirEntry) := do
  t.checkDirectory p
  return t.nodes.toList.filterMap fun (q, n) =>
    match q.name? with
    | some name => if q.parent = p then some ⟨name.text, n.kind⟩ else none
    | none => none

def readAll (t : MemoryTree) (p : Path) : Except FsError Bytes := do
  match ← t.node p with
  | .file data _ => return data
  | .directory _ => throw (.isADirectory p.toText)

/-! ## Changes -/

/-- The tree with a node put at a path. -/
def put (t : MemoryTree) (p : Path) (n : Node) : MemoryTree := ⟨t.nodes.insert p n⟩

/-- The tree without the node at a path. -/
def remove (t : MemoryTree) (p : Path) : MemoryTree := ⟨t.nodes.erase p⟩

def mkdir (t : MemoryTree) (p : Path) (mode : UInt32) (now : Instant) :
    Except FsError MemoryTree := do
  if (t.get? p).isSome then
    throw (.alreadyExists p.toText)
  t.checkDirectory p.parent
  return t.put p (.directory (.directory mode now))

def unlink (t : MemoryTree) (p : Path) : Except FsError MemoryTree := do
  match ← t.node p with
  | .directory _ => throw (.isADirectory p.toText)
  | .file _ _ => return t.remove p

def rmdir (t : MemoryTree) (p : Path) : Except FsError MemoryTree := do
  if p.isRoot then
    throw (.busy p.toText)
  t.checkDirectory p
  if t.hasEntries p then
    throw (.directoryNotEmpty p.toText)
  return t.remove p

/-- Fails unless a node of a kind may replace what a path holds: nothing, a file by a file, an empty
directory by a directory. -/
def checkReplaceable (t : MemoryTree) (p : Path) (kind : FileKind) : Except FsError Unit :=
  match t.get? p, kind with
  | some (.directory _), .file => throw (.isADirectory p.toText)
  | some (.directory _), .directory =>
    if t.hasEntries p then throw (.directoryNotEmpty p.toText) else pure ()
  | some (.file _ _), .directory => throw (.notADirectory p.toText)
  | _, _ => pure ()

/-- One of the nodes below a place taken out, and put at the same place below another one. -/
def carry (source target : Path) (t : MemoryTree) (p : Path) : MemoryTree :=
  match t.get? p with
  | some n => (t.remove p).put (target ++ p.relativeTo source) n
  | none => t

/-- The tree with nodes below one place carried below another, one after the other. -/
def carryAll (source target : Path) (paths : List Path) (t : MemoryTree) : MemoryTree :=
  paths.foldl (carry source target) t

/-- The tree without the node at a path, from which what lies below a directory has been carried
below another path. -/
def relocate (t : MemoryTree) (source target : Path) (n : Node) : MemoryTree :=
  let rest := t.remove source
  match n with
  | .file _ _ => rest
  | .directory _ => carryAll source target (rest.nodes.keys.filter source.isPrefixOf) rest

def rename (t : MemoryTree) (source target : Path) (now : Instant) : Except FsError MemoryTree := do
  let n ← t.node source
  if source.isRoot then
    throw (.busy source.toText)
  if source = target then
    return t
  if source.isPrefixOf target then
    throw (.invalidPath ("cannot move " ++ source.toText ++ " inside itself"))
  t.checkDirectory target.parent
  t.checkReplaceable target n.kind
  return (t.relocate source target n).put target (n.changedAt now)

/-- Finds the file at a path, or creates it where the flags allow: its attributes and content. -/
def openFile (t : MemoryTree) (p : Path) (flags : OpenFlags) (mode : UInt32) (now : Instant) :
    Except FsError (FileAttr × Bytes × MemoryTree) :=
  match t.get? p with
  | some (.file data attr) =>
    if flags.create && flags.exclusive then .error (.alreadyExists p.toText)
    else .ok (attr, data, t)
  | some (.directory _) => .error (.isADirectory p.toText)
  | none => do
    unless flags.create do
      throw (.notFound p.toText)
    t.checkDirectory p.parent
    let attr := FileAttr.file 0 mode now
    return (attr, [], t.put p (.file [] attr))

/-- Stores content and attributes of a file that exists. Kind and size are those of the content. -/
def sync (t : MemoryTree) (p : Path) (data : Bytes) (attr : FileAttr) :
    Except FsError MemoryTree := do
  match ← t.node p with
  | .file _ _ =>
    return t.put p (.file data { attr with kind := .file, size := data.length.toUInt64 })
  | .directory _ => throw (.isADirectory p.toText)

end MemoryTree

end MountSpace
