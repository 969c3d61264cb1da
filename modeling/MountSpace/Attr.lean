import MountSpace.Time.Instant

/-!
# Kinds, modes and attributes

What a listing and an inquiry say about an entry, whatever backend holds it.

- `FileKind`: regular file or directory, and its tag in a mode.
- `FileAttr`: size, kind, permission bits, the three times and the numbers that identify an entry.
- `FileAttr.mode`, `FileAttr.ofMode`: the mode of an entry, and the attributes a mode describes.
- `DirEntry`: a name and a kind, one line of a listing.
-/

namespace MountSpace

/-- The bits of a mode that hold the kind. -/
def kindMask : UInt32 := 0xF000

/-- The bits of a mode that hold permissions. -/
def permMask : UInt32 := 0xFFF

/-- What an entry is. -/
inductive FileKind where
  | file
  | directory
  deriving DecidableEq, Repr, Inhabited

namespace FileKind

/-- The kind a mode names: a directory by its tag, a file by any other. -/
def ofMode (mode : UInt32) : FileKind := if mode &&& kindMask = 0x4000 then directory else file

/-- The tag of a kind in a mode. -/
def modeBits : FileKind → UInt32
  | file => 0x8000
  | directory => 0x4000

/-- The mode of an entry of a kind with permissions, of which only the permission bits count. -/
def mode (k : FileKind) (perm : UInt32) : UInt32 := k.modeBits ||| (perm &&& permMask)

def isFile (k : FileKind) : Bool := k == file

def isDir (k : FileKind) : Bool := k == directory

end FileKind

/-- What an inquiry reports about an entry. -/
structure FileAttr where
  /-- Size in bytes. -/
  size : UInt64
  kind : FileKind
  /-- Permission bits, kept as given. -/
  perm : UInt32
  /-- Last access. -/
  atime : Instant
  /-- Last change of the content. -/
  mtime : Instant
  /-- Last change of the entry. -/
  ctime : Instant
  /-- Number of names. -/
  nlink : UInt32
  /-- Device number of the volume. -/
  dev : UInt32
  /-- Number of the entry within its volume. -/
  ino : UInt32
  deriving DecidableEq, Inhabited

namespace FileAttr

/-- Attributes of something created at an instant. -/
def created (kind : FileKind) (size : UInt64) (perm : UInt32) (nlink : UInt32) (now : Instant) :
    FileAttr :=
  { size, kind, perm := perm &&& permMask, atime := now, mtime := now, ctime := now, nlink
    dev := 0, ino := 0 }

/-- Attributes of a new file. -/
def file (size : UInt64) (perm : UInt32) (now : Instant) : FileAttr := created .file size perm 1 now

/-- Attributes of a new directory, which its own `.` names too. -/
def directory (perm : UInt32) (now : Instant) : FileAttr := created .directory 0 perm 2 now

/-- Attributes of a new entry of a mode. -/
def ofMode (mode : UInt32) (size : UInt64) (now : Instant) : FileAttr :=
  match FileKind.ofMode mode with
  | .directory => { directory (mode &&& permMask) now with size }
  | .file => file size (mode &&& permMask) now

/-- Kind tag and permission bits in one. -/
def mode (a : FileAttr) : UInt32 := a.kind.mode a.perm

def isFile (a : FileAttr) : Bool := a.kind.isFile

def isDir (a : FileAttr) : Bool := a.kind.isDir

/-- Marks content and entry as changed at an instant. -/
def touch (a : FileAttr) (now : Instant) : FileAttr := { a with mtime := now, ctime := now }

end FileAttr

/-- One entry of a directory. -/
structure DirEntry where
  name : String
  kind : FileKind
  deriving DecidableEq, Repr, Inhabited

end MountSpace
