import MountSpace.Ambient
import MountSpace.KeyValue.Listing
import MountSpace.KeyValue.Store
import MountSpace.Path.Basic

/-!
# Directory trees as records

A store holds a directory tree as three kinds of record side by side: the inode of the root under
the key `/`, other inodes under their ids, and contents under theirs. The content of a file is its
bytes, that of a directory its listing.

- `RecordStore.inode`, `RecordStore.content`, `RecordStore.listing`: one record each.
- `RecordStore.lookup`: the inode that a path leads to, listing by listing from the root.
- `Transaction`: what a change works on, the store with the clock and the source of ids.
- `addNew`, `writeListing`, `deleteBoth`: the steps that changes are made of.
-/

namespace MountSpace

/-- The key of the inode of the root. -/
def rootKey : String := "/"

/-- How many ids are drawn for a new record before giving up. -/
def idAttempts : Nat := 5

namespace RecordStore

/-- The inode under an id. -/
def inode (s : RecordStore) (id : String) : Except FsError Inode :=
  match s.get? id with
  | none => .error (.malformedRecord ("dangling inode id " ++ id))
  | some bytes => (Inode.decode bytes).mapError .ofInode

/-- The content that an inode describes. -/
def content (s : RecordStore) (i : Inode) : Except FsError Bytes :=
  match s.get? i.contentId with
  | none => .error (.malformedRecord ("missing content " ++ i.contentId))
  | some bytes => .ok bytes

/-- The entries of the directory that an inode describes. -/
def listing (s : RecordStore) (i : Inode) : Except FsError Listing := do
  match Listing.decode (← s.content i) with
  | some l => return l
  | none => throw (.malformedRecord "<listing json>")

/-- Follows segments from an entry that a path leads to. -/
def follow (s : RecordStore) :
    Path → String × Inode → List Segment → Except FsError (String × Inode)
  | _, found, [] => .ok found
  | walked, (_, i), name :: rest => do
    unless i.isDir do
      throw (.notADirectory walked.toText)
    let l ← s.listing i
    match l.get? name.text with
    | none => throw (.notFound (walked.child name).toText)
    | some id => s.follow (walked.child name) (id, ← s.inode id) rest

/-- The entry that a path leads to: the id of its inode, and the inode. -/
def lookup (s : RecordStore) (p : Path) : Except FsError (String × Inode) := do
  s.follow .root (rootKey, ← s.inode rootKey) p.segments

end RecordStore

/-- A directory with all that is stored about it. -/
structure StoredDirectory where
  id : String
  inode : Inode
  listing : Listing

/-- The directory that a path leads to. -/
def RecordStore.directory (s : RecordStore) (p : Path) : Except FsError StoredDirectory := do
  let (id, inode) ← s.lookup p
  unless inode.isDir do
    throw (.notADirectory p.toText)
  return { id, inode, listing := ← s.listing inode }

/-- What a change works on. -/
structure Transaction where
  store : RecordStore
  ambient : Ambient

/-- A change of a store. -/
abbrev StoreAction := Action Transaction

namespace StoreAction

/-- What the store answers to an inquiry. -/
def ask {α : Type} (inquiry : RecordStore → Except FsError α) : StoreAction α := do
  Action.ofExcept (inquiry (← get).store)

/-- Reads the clock. -/
def now : StoreAction Instant :=
  modifyGet fun t => (t.ambient.now, { t with ambient := t.ambient.tick })

/-- Draws an id. -/
def drawId : StoreAction Uuid :=
  modifyGet fun t => (t.ambient.nextId, { t with ambient := t.ambient.drawn })

/-- Stores a value. -/
def overwrite (key : String) (value : Bytes) : StoreAction Unit :=
  modify fun t => { t with store := t.store.overwrite key value }

/-- Adds a value at a free key. -/
def add (key : String) (value : Bytes) : StoreAction Bool :=
  modifyGet fun t =>
    let (accepted, store) := t.store.add key value
    (accepted, { t with store })

/-- Removes a key. -/
def delete (key : String) : StoreAction Unit :=
  modify fun t => { t with store := t.store.delete key }

/-- Adds a value under a fresh id, drawing anew while the store refuses. -/
def addNewWithin (value : Bytes) : Nat → StoreAction String
  | 0 => throw (.other "unable to allocate a unique id")
  | n + 1 => do
    let id := (← drawId).toText
    if ← add id value then return id
    addNewWithin value n

/-- Adds a value under a fresh id. -/
def addNew (value : Bytes) : StoreAction String := addNewWithin value idAttempts

/-- Writes the listing of a directory and, where that changes it, its inode. -/
def writeListing (id : String) (inode : Inode) (l : Listing) : StoreAction Unit := do
  let bytes := l.encode
  let attr := { inode.toAttr with size := bytes.length.toUInt64 }.touch (← now)
  overwrite inode.contentId bytes
  let (changed, inode) := inode.update attr
  if changed then
    overwrite id inode.encode

/-- Removes an inode and its content. -/
def deleteBoth (id : String) (inode : Inode) : StoreAction Unit := do
  delete inode.contentId
  delete id

end StoreAction

end MountSpace
