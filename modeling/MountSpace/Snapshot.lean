import MountSpace.System

/-!
# Snapshots of a tree

A snapshot walks a tree depth first and notes what every inquiry says about each entry, failures
included. Directories that contain themselves have no end, so the walk stops at a number of items.

- `Snapshot.Item`: one line.
- `Snapshot.take`: the snapshot of a directory.
-/

namespace MountSpace.Snapshot

/-- One line of a snapshot. -/
inductive Item where
  /-- A directory that cannot be listed. -/
  | unlisted (path : String) (reason : FsError)
  /-- A directory and what an inquiry says about it. -/
  | directory (path : String) (attr : Except FsError FileAttr)
  /-- A file, what an inquiry says about it, and its content. -/
  | file (path : String) (attr : Except FsError FileAttr) (content : Except FsError Bytes)
  /-- The walk ended here. -/
  | cutOff

/-- The walk ends before it lists another directory once there are this many items. -/
def limit : Nat := 300

/-- The text of an entry below a directory. Stored names may be anything, so it need not be the
spelling of a path. -/
def below (directory name : String) : String :=
  if directory = "/" then "/" ++ name else directory ++ "/" ++ name

/-- The line of one entry. -/
def item (s : System) (b : BackendId) (directory : String) (e : DirEntry) : Item :=
  let path := below directory e.name
  let attr := s.stat b (.ofText path)
  match e.kind with
  | .directory => .directory path attr
  | .file => .file path attr (s.readAll b (.ofText path))

/-- Walks the directories still to be listed, given how many items there are. Only `limit` more can
be listed, for each but the first is an item itself. -/
def walk (s : System) (b : BackendId) : Nat → Nat → List String → List Item
  | 0, _, _ => []
  | _, _, [] => []
  | visits + 1, count, directory :: rest =>
    if limit ≤ count then [.cutOff]
    else
      match s.readdir b (.ofText directory) with
      | .error e => .unlisted directory e :: walk s b visits (count + 1) rest
      | .ok entries =>
        let inner := (entries.filter (·.kind.isDir)).map fun e => below directory e.name
        entries.map (item s b directory) ++ walk s b visits (count + entries.length) (inner ++ rest)

/-- The snapshot of the directory at a path. -/
def take (s : System) (b : BackendId) (p : Path) : List Item := walk s b (limit + 2) 0 [p.toText]

end MountSpace.Snapshot
