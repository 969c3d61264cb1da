import MountSpace.Error
import MountSpace.OpenFlags

/-!
# Open files

An open file is a buffer of the whole content. Reads and changes act on the buffer; storing it again
is the business of the backend that owns the file.

- `OpenFile`: the buffer, its attributes and what its holder may do.
- `OpenFile.load`: a buffer over loaded content, emptied at once if the flags say so.
- `OpenFile.read`, `OpenFile.write`, `OpenFile.truncate`: the operations on the buffer.
- `splice`, `resize`: what a write and a truncation do to the bytes.
-/

namespace MountSpace

/-- A backend is known by a number. -/
abbrev BackendId := Nat

/-- The greatest size of a file, the greatest that an inode record can hold. -/
def maxFileLength : Nat := UInt32.size - 1

/-- Bytes with others laid over them at an offset, any gap filled with zeros. -/
def splice (data : Bytes) (offset : Nat) (new : Bytes) : Bytes :=
  data.take offset ++ List.replicate (offset - data.length) 0 ++ new
    ++ data.drop (offset + new.length)

/-- Bytes cut or filled with zeros to a length. -/
def resize (data : Bytes) (length : Nat) : Bytes :=
  data.take length ++ List.replicate (length - data.length) 0

/-- A file that someone holds open. -/
structure OpenFile where
  /-- The backend that stores the content. -/
  owner : BackendId
  /-- The path within that backend, as it was given. -/
  path : Bytes
  flags : OpenFlags
  /-- The attributes that go with the buffer. -/
  attr : FileAttr
  /-- The buffer. -/
  data : Bytes
  /-- The buffer or the attributes have changed since they were stored. -/
  dirty : Bool
  /-- The file was closed; nothing can be done with it any more. -/
  closed : Bool
  deriving DecidableEq

namespace OpenFile

/-- A buffer over loaded content. Flags that drop the content do so now. -/
def load (owner : BackendId) (path : Bytes) (flags : OpenFlags) (attr : FileAttr) (data : Bytes)
    (now : Instant) : OpenFile :=
  if flags.truncate && !data.isEmpty then
    { owner, path, flags, attr := { attr with size := 0 }.touch now, data := [], dirty := true
      closed := false }
  else { owner, path, flags, attr, data, dirty := false, closed := false }

/-- The path as text. -/
def shownPath (f : OpenFile) : String := String.ofList (Utf8.decodeLossy f.path)

/-- Fails once the file is closed. -/
def checkOpen (f : OpenFile) : Except FsError Unit :=
  if f.closed then .error (.other ("file handle closed: " ++ f.shownPath)) else .ok ()

/-- Fails unless the content may be changed. -/
def checkWriteable (f : OpenFile) : Except FsError Unit := do
  f.checkOpen
  unless f.flags.isWriteable do
    throw (.permissionDenied ("not opened for writing: " ++ f.shownPath))

/-- Up to `size` bytes from an offset on, fewer where the content ends. -/
def read (f : OpenFile) (offset size : Nat) : Except FsError Bytes := do
  f.checkOpen
  unless f.flags.read do
    throw (.permissionDenied ("not opened for reading: " ++ f.shownPath))
  return (f.data.drop offset).take size

/-- The file with a new buffer, changed at an instant. -/
def withData (f : OpenFile) (data : Bytes) (now : Instant) : OpenFile :=
  { f with
    data
    attr := { f.attr with size := data.length.toUInt64 }.touch now
    dirty := true }

/-- Where a write takes place: at the end in append mode, else where it asks. -/
def writeOffset (f : OpenFile) (offset : Nat) : Nat :=
  if f.flags.append then f.data.length else offset

/-- Lays bytes over the buffer. Nothing changes if the end would lie past the greatest size. -/
def write (f : OpenFile) (offset : Nat) (new : Bytes) (now : Instant) :
    Except FsError OpenFile := do
  f.checkWriteable
  let offset := f.writeOffset offset
  if maxFileLength < offset + new.length then
    throw (.fileTooLarge (f.shownPath ++ ": write of " ++ toString new.length ++ " bytes at "
      ++ toString offset))
  return f.withData (splice f.data offset new) now

/-- Cuts the buffer or fills it with zeros. -/
def truncate (f : OpenFile) (size : Nat) (now : Instant) : Except FsError OpenFile := do
  f.checkWriteable
  if maxFileLength < size then
    throw (.fileTooLarge (f.shownPath ++ ": truncate to " ++ toString size))
  return f.withData (resize f.data size) now

end OpenFile

end MountSpace
