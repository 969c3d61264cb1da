import MountSpace.KeyValue.Records
import MountSpace.OpenFlags

/-!
# Operations on a directory tree kept as records

- `RecordTree.initialise`: gives a store a root directory unless it has one.
- `RecordTree.stat`, `readdir`, `readAll`: inquiries.
- `RecordTree.mkdir`, `remove`, `rename`, `openFile`, `sync`: changes. Each looks at everything that
  can make it fail before it writes, or takes back what it wrote.
- `RecordTree.clear`: removes everything below the root.
-/

namespace MountSpace.RecordTree

open StoreAction

/-- Permissions of the root of a fresh store. -/
def rootPerm : UInt32 := 0o777

/-- Gives a store a root directory. A root that is there already must be a directory. -/
def initialise : StoreAction Unit := do
  match (← get).store.get? rootKey with
  | some bytes =>
    let root ← Action.ofExcept ((Inode.decode bytes).mapError .ofInode)
    unless root.isDir do
      throw (.malformedRecord "root inode is not a directory")
  | none =>
    let contentId ← addNew (Listing.encode ∅)
    let mode := (FileKind.directory.mode rootPerm).toUInt16
    let root ← Action.ofExcept ((Inode.stamped contentId 0 mode (← now)).mapError .ofInode)
    overwrite rootKey root.encode

/-! ## Inquiries -/

def stat (s : RecordStore) (p : Path) : Except FsError FileAttr := do
  return (← s.lookup p).2.toAttr

/-- The kind of the inode under the id of an entry. -/
def entry (s : RecordStore) (e : String × String) : Except FsError DirEntry := do
  return ⟨e.1, (← s.inode e.2).kind⟩

def readdir (s : RecordStore) (p : Path) : Except FsError (List DirEntry) := do
  (← s.directory p).listing.toList.mapM (entry s)

def readAll (s : RecordStore) (p : Path) : Except FsError Bytes := do
  let (_, inode) ← s.lookup p
  if inode.isDir then
    throw (.isADirectory p.toText)
  s.content inode

/-! ## Changes -/

/-- Adds an entry of a kind with its first content. If the id of the inode is taken, the content
that was added for it is removed again. -/
def addEntry (p : Path) (kind : FileKind) (perm : UInt32) (content : Bytes) :
    StoreAction Inode := do
  let some name := p.name? | throw (.alreadyExists p.toText)
  let dir ← ask (·.directory p.parent)
  if dir.listing.contains name.text then
    throw (.alreadyExists p.toText)
  let contentId ← addNew content
  let id ← drawId
  let stamp := (← now).toMillis
  let inode ← Action.ofExcept <| Except.mapError .ofInode <|
    Inode.make contentId 0 id.low content.length.toUInt32 (kind.mode perm).toUInt16
      stamp stamp stamp
  unless ← add id.toText inode.encode do
    delete inode.contentId
    throw (.other "inode id collision")
  writeListing dir.id dir.inode (dir.listing.insert name.text id.toText)
  return inode

def mkdir (p : Path) (mode : UInt32) : StoreAction Unit := do
  discard <| addEntry p .directory mode (Listing.encode ∅)

/-- Removes a file or an empty directory, whichever is wanted. -/
def remove (p : Path) (wanted : FileKind) : StoreAction Unit := do
  let some name := p.name? | throw (.busy p.toText)
  let dir ← ask (·.directory p.parent)
  let some id := dir.listing.get? name.text | throw (.notFound p.toText)
  let inode ← ask (·.inode id)
  match wanted, inode.kind with
  | .file, .directory => throw (.isADirectory p.toText)
  | .directory, .file => throw (.notADirectory p.toText)
  | .directory, .directory =>
    unless (← ask (·.listing inode)).isEmpty do
      throw (.directoryNotEmpty p.toText)
  | .file, .file => pure ()
  writeListing dir.id dir.inode (dir.listing.erase name.text)
  deleteBoth id inode

/-- What an entry of a kind would replace at a path: nothing, a file by a file, an empty
directory by a directory. -/
def replaceable (s : RecordStore) (p : Path) (dir : StoredDirectory) (name : Segment)
    (kind : FileKind) : Except FsError (Option (String × Inode)) := do
  let some id := dir.listing.get? name.text | return none
  let inode ← s.inode id
  match kind, inode.kind with
  | .file, .directory => throw (.isADirectory p.toText)
  | .directory, .file => throw (.notADirectory p.toText)
  | .directory, .directory =>
    unless (← s.listing inode).isEmpty do
      throw (.directoryNotEmpty p.toText)
  | .file, .file => pure ()
  return some (id, inode)

/-- Moves an entry, replacing what may be replaced. The listing it leaves is written first, so the
one it enters is looked up again: the two may be one. -/
def rename (source target : Path) : StoreAction Unit := do
  let some sourceName := source.name? | throw (.busy "/")
  let some targetName := target.name? | throw (.busy "/")
  if source = target then
    discard <| ask (·.lookup source)
    return
  if source.isPrefixOf target then
    throw (.invalidPath ("cannot move " ++ source.toText ++ " inside itself"))
  let sourceDir ← ask (·.directory source.parent)
  let some id := sourceDir.listing.get? sourceName.text | throw (.notFound source.toText)
  let moved ← ask (·.inode id)
  let replaced ← ask fun s => do
    replaceable s target (← s.directory target.parent) targetName moved.kind
  writeListing sourceDir.id sourceDir.inode (sourceDir.listing.erase sourceName.text)
  let targetDir ← ask (·.directory target.parent)
  writeListing targetDir.id targetDir.inode (targetDir.listing.insert targetName.text id)
  if let some (id, inode) := replaced then
    deleteBoth id inode

/-- Finds the file at a path, or creates it where the flags allow: its attributes and content. -/
def openFile (p : Path) (flags : OpenFlags) (mode : UInt32) : StoreAction (FileAttr × Bytes) := do
  match (← get).store.lookup p with
  | .ok (_, inode) =>
    if flags.create && flags.exclusive then
      throw (.alreadyExists p.toText)
    if inode.isDir then
      throw (.isADirectory p.toText)
    return (inode.toAttr, ← ask (·.content inode))
  | .error e =>
    unless e.isNotFound && flags.create do
      throw e
    return ((← addEntry p .file mode []).toAttr, [])

/-- Stores content and attributes of a file that exists. The inode is written only if it changes. -/
def sync (p : Path) (data : Bytes) (attr : FileAttr) : StoreAction Unit := do
  let (id, inode) ← ask (·.lookup p)
  if inode.isDir then
    throw (.isADirectory p.toText)
  overwrite inode.contentId data
  let (changed, inode) := inode.update { attr with kind := .file, size := data.length.toUInt64 }
  if changed then
    overwrite id inode.encode

/-! ## Clearing -/

/-- Removes all below a directory, entry by entry, down to a number of levels. -/
def deleteBelow : Nat → Inode → StoreAction Unit
  | 0, _ => throw .endless
  | levels + 1, inode => do
    let l ← ask (·.listing inode)
    l.values.forM fun id => do
      let child ← ask (·.inode id)
      if child.isDir then
        deleteBelow levels child
      deleteBoth id child

/-- More levels than listings that come to an end can have: between two visits of one directory a
record has gone, or the visits never stop. -/
def enoughLevels (s : RecordStore) : Nat := (s.size + 1) * (s.size + 1)

/-- Removes everything below the root and leaves the root empty. -/
def clear : StoreAction Unit := do
  let root ← ask (·.inode rootKey)
  deleteBelow (enoughLevels (← get).store) root
  writeListing rootKey root ∅

end MountSpace.RecordTree
