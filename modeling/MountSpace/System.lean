import MountSpace.Backend.Composite
import MountSpace.Backend.Faulty
import MountSpace.Backend.KeyValue
import MountSpace.Backend.Memory

/-!
# Systems of backends

A system is a list of backends, each known by its place in the list, and the volumes they refer to.
Backends are only ever added; a volume has the number of the backend it was made for.

- `Backend`: what a backend is made of.
- `fileSystem`: the operations of a backend. A composite sends calls on, so there is a bound on how
  often a call is sent on; `hopBudget` is one that only mounts leading back to themselves exceed.
- `System.addMemory`, `addKeyValue`, `addFaulty`, `addComposite`, `addSharing`: new backends.
-/

namespace MountSpace

/-- What a backend is made of. -/
inductive Backend where
  /-- A tree in memory. -/
  | memory (tree : Nat)
  /-- A store of records. -/
  | keyValue (store : Nat) (readOnly : Bool)
  /-- Another backend behind faults. -/
  | faulty (inner : BackendId) (faults : List Fault) (capabilities : Option Capabilities)
  /-- A mount table. -/
  | composite (table : Nat)
  deriving Inhabited

/-- The operations of a backend, calls being sent on a bounded number of times. -/
def fileSystem (backends : List Backend) : Nat → BackendId → FileSystem
  | 0, b =>
    match backends[b]? with
    | some (.memory tree) => .memory b tree
    | some (.keyValue store readOnly) => .keyValue b store readOnly
    | _ => .failing .endless
  | hops + 1, b =>
    match backends[b]? with
    | some (.memory tree) => .memory b tree
    | some (.keyValue store readOnly) => .keyValue b store readOnly
    | some (.faulty inner faults capabilities) =>
      .faulty b (fileSystem backends hops inner) faults capabilities
    | some (.composite table) => .composite table (fileSystem backends hops)
    | none => .failing .endless

/-- All backends and all volumes. -/
structure System where
  backends : List Backend
  volumes : Volumes

namespace System

/-- A system without backends. -/
def empty (ambient : Ambient) : System where
  backends := []
  volumes :=
    { trees := fun _ => default, stores := fun _ => default, tables := fun _ => default, ambient }

/-- How often a call at a path may be sent on. A call that is not lost in a circle comes to no
backend twice with the same steps left, and the steps left are always the last ones of the path. -/
def hopBudget (s : System) (p : Path) : Nat := (s.backends.length + 1) * (p.segments.length + 1)

/-- The operations of the backends, for calls at a path. -/
def fileSystems (s : System) (p : Path) : BackendId → FileSystem :=
  fileSystem s.backends (s.hopBudget p)

/-- The outcome of a computation on the volumes, and the system afterwards. -/
def run {α : Type} (s : System) (act : Action Volumes α) : Except FsError α × System :=
  let (result, volumes) := act.runOn s.volumes
  (result, { s with volumes })

/-! ## New backends -/

/-- The number of the next backend. -/
def next (s : System) : BackendId := s.backends.length

/-- The system with a backend added. -/
def add (s : System) (b : Backend) : System := { s with backends := s.backends ++ [b] }

/-- Adds a backend over a new tree. -/
def addMemory (s : System) : System :=
  let v := s.volumes
  { s with
    volumes := { v with
      trees := setAt v.trees s.next (.new v.ambient.now)
      ambient := v.ambient.tick } }.add (.memory s.next)

/-- Adds a backend over a new store, after giving the store a root. -/
def addKeyValue (s : System) (store : RecordStore) (readOnly : Bool) : Except FsError System :=
  let v := s.volumes
  let start := { s with volumes := { v with stores := setAt v.stores s.next store } }
  match start.run (Volumes.withStore s.next RecordTree.initialise) with
  | (.ok (), s) => .ok (s.add (.keyValue s.next readOnly))
  | (.error e, _) => .error e

/-- Adds a backend over the store of another one, after checking its root once more. -/
def addReopened (s : System) (store : Nat) (readOnly : Bool) : Except FsError Unit × System :=
  match s.run (Volumes.withStore store RecordTree.initialise) with
  | (.ok (), s) => (.ok (), s.add (.keyValue store readOnly))
  | (.error e, s) => (.error e, s)

/-- Adds a backend that fails on demand. -/
def addFaulty (s : System) (inner : BackendId) (faults : List Fault)
    (capabilities : Option Capabilities) : System :=
  s.add (.faulty inner faults capabilities)

/-- Adds a composite over an implicit root. -/
def addComposite (s : System) (root : BackendId) : System :=
  let v := s.volumes
  { s with volumes := { v with tables := setAt v.tables s.next (.new root) } }.add
    (.composite s.next)

/-- Adds a backend made of the same volume as another one. -/
def addSharing (s : System) (b : BackendId) : System := s.add (s.backends.getD b default)

/-! ## Operations by number -/

def stat (s : System) (b : BackendId) (p : Path) : Except FsError FileAttr :=
  (s.fileSystems p b).stat s.volumes p

def readdir (s : System) (b : BackendId) (p : Path) : Except FsError (List DirEntry) :=
  (s.fileSystems p b).readdir s.volumes p

def readAll (s : System) (b : BackendId) (p : Path) : Except FsError Bytes :=
  (s.fileSystems p b).readAll s.volumes p

def mkdir (s : System) (b : BackendId) (p : Path) (mode : UInt32) : Except FsError Unit × System :=
  s.run ((s.fileSystems p b).mkdir p mode)

def unlink (s : System) (b : BackendId) (p : Path) : Except FsError Unit × System :=
  s.run ((s.fileSystems p b).unlink p)

def rmdir (s : System) (b : BackendId) (p : Path) : Except FsError Unit × System :=
  s.run ((s.fileSystems p b).rmdir p)

/-- A call at two paths may be sent on as often as one at either of them. -/
def rename (s : System) (b : BackendId) (source target : Path) : Except FsError Unit × System :=
  s.run ((s.fileSystems (source ++ target) b).rename source target)

def openFile (s : System) (b : BackendId) (p : Path) (flags : OpenFlags) (mode : UInt32) :
    Except FsError OpenFile × System :=
  s.run ((s.fileSystems p b).openFile p flags mode)

def sync (s : System) (b : BackendId) (p : Path) (data : Bytes) (attr : FileAttr) :
    Except FsError Unit × System :=
  s.run ((s.fileSystems p b).sync p data attr)

def writeAll (s : System) (b : BackendId) (p : Path) (data : Bytes) :
    Except FsError Unit × System :=
  s.run ((s.fileSystems p b).writeAll (s.fileSystems p) p data)

/-- Opens nothing: a handle over given content, which belongs to a backend. -/
def adopt (s : System) (owner : BackendId) (path : Bytes) (flags : OpenFlags) (attr : FileAttr)
    (data : Bytes) : Except FsError OpenFile × System :=
  s.run (do return OpenFile.load owner path flags attr data (← Volumes.now))

/-- Writes to an open file. -/
def write (s : System) (f : OpenFile) (offset : Nat) (new : Bytes) :
    Except FsError OpenFile × System :=
  s.run (do Action.ofExcept (f.write offset new (← Volumes.now)))

/-- Truncates an open file. -/
def truncate (s : System) (f : OpenFile) (size : Nat) : Except FsError OpenFile × System :=
  s.run (do Action.ofExcept (f.truncate size (← Volumes.now)))

/-- Stores the buffer of an open file. -/
def syncFile (s : System) (f : OpenFile) : Except FsError OpenFile × System :=
  s.run (f.sync (s.fileSystems (Path.ofBytes f.path) f.owner))

/-- Stores the buffer of an open file and gives the file up. -/
def closeFile (s : System) (f : OpenFile) : Except FsError OpenFile × System :=
  s.run (f.close (s.fileSystems (Path.ofBytes f.path) f.owner))

/-- Mounts a backend in the table of a composite. -/
def mount (s : System) (table : Nat) (p : Path) (b : BackendId) : Except FsError Unit × System :=
  s.run (Composite.mount (s.fileSystems p) table p b)

/-- Removes a mount from the table of a composite. -/
def unmount (s : System) (table : Nat) (p : Path) : Except FsError BackendId × System :=
  s.run (Composite.unmount table p)

end System

end MountSpace
