import MountSpace.KeyValue.Tree
import MountSpace.Memory.Tree
import MountSpace.MountTable

/-!
# What a backend offers

Backends are descriptions that never change. What changes are the volumes they refer to: trees in
memory, stores of records and mount tables, each known by a number. Two backends may share a volume.

- `Volumes`: all volumes together with the clock and the source of ids.
- `setAt`: one volume replaced, with what that means for it (`setAt_self`) and the others
  (`setAt_other`).
- `FileSystem`: the operations every backend offers, whatever it is made of.
- `OpenFile.sync`, `OpenFile.close`: how a buffer reaches the backend that owns the file.
-/

namespace MountSpace

/-- A family with one member replaced. -/
def setAt {α : Type} (f : Nat → α) (i : Nat) (x : α) : Nat → α := fun j => if j = i then x else f j

@[simp] theorem setAt_self {α : Type} (f : Nat → α) (i : Nat) (x : α) : setAt f i x i = x := by
  simp [setAt]

theorem setAt_other {α : Type} (f : Nat → α) {i j : Nat} (x : α) (h : j ≠ i) :
    setAt f i x j = f j := by simp [setAt, h]

/-- Everything that operations can change. -/
structure Volumes where
  trees : Nat → MemoryTree
  stores : Nat → RecordStore
  tables : Nat → MountTable
  ambient : Ambient

namespace Volumes

/-- Reads the clock. -/
def now : Action Volumes Instant :=
  modifyGet fun v => (v.ambient.now, { v with ambient := v.ambient.tick })

/-- Replaces a tree by what a change makes of it. -/
def changeTree (i : Nat) (change : MemoryTree → Except FsError MemoryTree) :
    Action Volumes Unit := do
  let t ← Action.ofExcept (change ((← get).trees i))
  modify fun v => { v with trees := setAt v.trees i t }

/-- Works on a store. -/
def withStore {α : Type} (i : Nat) (act : StoreAction α) : Action Volumes α :=
  ExceptT.mk fun v =>
    let (result, t) := act.runOn ⟨v.stores i, v.ambient⟩
    (result, { v with stores := setAt v.stores i t.store, ambient := t.ambient })

end Volumes

/-- What a backend says about itself, once and for all. -/
structure Capabilities where
  /-- Every change is refused. -/
  readOnly : Bool := false
  properties : Bool := false
  /-- Operations finish without waiting. -/
  synchronous : Bool := false
  symlinks : Bool := false
  hardLinks : Bool := false
  deriving DecidableEq, Repr, Inhabited

/-- The operations of a backend. Paths are those of its own space. -/
structure FileSystem where
  name : String
  capabilities : Capabilities
  stat : Volumes → Path → Except FsError FileAttr
  readdir : Volumes → Path → Except FsError (List DirEntry)
  readAll : Volumes → Path → Except FsError Bytes
  /-- Creates one directory, whose parent must exist. -/
  mkdir : Path → UInt32 → Action Volumes Unit
  /-- Removes a file. -/
  unlink : Path → Action Volumes Unit
  /-- Removes an empty directory. -/
  rmdir : Path → Action Volumes Unit
  rename : Path → Path → Action Volumes Unit
  /-- Opens a file, creating it where the flags allow. -/
  openFile : Path → OpenFlags → UInt32 → Action Volumes OpenFile
  /-- Stores content and attributes of a file that exists. -/
  sync : Path → Bytes → FileAttr → Action Volumes Unit

namespace FileSystem

/-- A backend on which every operation fails for one reason. -/
def failing (reason : FsError) : FileSystem where
  name := ""
  capabilities := {}
  stat _ _ := .error reason
  readdir _ _ := .error reason
  readAll _ _ := .error reason
  mkdir _ _ := throw reason
  unlink _ := throw reason
  rmdir _ := throw reason
  rename _ _ := throw reason
  openFile _ _ _ := throw reason
  sync _ _ _ := throw reason

def readOnly (fs : FileSystem) : Bool := fs.capabilities.readOnly

/-- Whether an inquiry at a path succeeds. -/
def exists? (fs : FileSystem) (v : Volumes) (p : Path) : Bool := (fs.stat v p).isOk

end FileSystem

namespace OpenFile

/-- Stores a changed buffer in the backend that owns the file. -/
def sync (f : OpenFile) (owner : FileSystem) : Action Volumes OpenFile := do
  Action.ofExcept f.checkOpen
  if f.dirty then
    owner.sync (Path.ofBytes f.path) f.data f.attr
  return { f with dirty := false }

/-- Stores a changed buffer and gives the file up. -/
def close (f : OpenFile) (owner : FileSystem) : Action Volumes OpenFile := do
  return { ← f.sync owner with closed := true }

end OpenFile

/-- Permissions of a file that `writeAll` creates. -/
def newFilePerm : UInt32 := 0o644

/-- Gives a file a whole new content, creating it if it is absent. The file is stored through the
backend that the opened file names as its owner. -/
def FileSystem.writeAll (fs : FileSystem) (owner : BackendId → FileSystem) (p : Path)
    (data : Bytes) : Action Volumes Unit := do
  let f ← fs.openFile p .replacing newFilePerm
  let f ← Action.ofExcept (f.write 0 data (← Volumes.now))
  discard <| f.close (owner f.owner)

end MountSpace
