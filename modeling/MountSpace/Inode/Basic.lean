import MountSpace.Attr
import MountSpace.Text.Quoted

/-!
# Inode records

What a store keeps about one file or directory apart from its content. The record is a header of 38
bytes, little-endian, followed by the id of the content:

| offset | size | field |
|-------:|-----:|-------|
| 0 | 4 | device number |
| 4 | 4 | inode number |
| 8 | 4 | size |
| 12 | 2 | mode |
| 14 | 8 | last access, floating-point milliseconds |
| 22 | 8 | last change of content |
| 30 | 8 | last change of the entry |
| 38 | rest | id of the content, ASCII |

- `Inode`: the record; its content id is ASCII by type.
- `Inode.encode`, `Inode.writeTo`, `Inode.decode`: the format. `Inode.layout` says where
  each field is written.
- `Inode.toAttr`, `Inode.update`: the record as attributes, and attributes folded back into it.
-/

namespace MountSpace

/-- A text of one-byte characters. -/
def IsAscii (text : String) : Prop := ∀ c ∈ text.toList, c.toNat < 128

instance (text : String) : Decidable (IsAscii text) := List.decidableBAll _ text.toList

/-- Why a record could not be made, read or written. -/
inductive InodeError where
  /-- Fewer bytes than the header takes. -/
  | tooShort (length : Nat)
  /-- Bytes after the header that are no ASCII text. -/
  | undecodableId
  /-- A content id that the record cannot hold. -/
  | nonAsciiId (id : String)
  /-- A buffer that the record does not fit. -/
  | bufferTooSmall (needed available : Nat)
  deriving DecidableEq, Repr

/-- The metadata of one file or directory. -/
structure Inode where
  contentId : String
  dev : UInt32
  ino : UInt32
  /-- Size in bytes. -/
  size : UInt32
  /-- Kind tag and permission bits. -/
  mode : UInt16
  /-- Last access, in milliseconds. -/
  atime : Binary64
  /-- Last change of the content, in milliseconds. -/
  mtime : Binary64
  /-- Last change of the entry, in milliseconds. -/
  ctime : Binary64
  ascii : IsAscii contentId
  deriving DecidableEq

namespace Inode

/-- The number of bytes before the content id. -/
def headerLength : Nat := 38

end Inode

def InodeError.message : InodeError → String
  | tooShort length =>
    "malformed inode record: " ++ toString length ++ " bytes, header needs "
      ++ toString Inode.headerLength
  | undecodableId => "malformed inode record: content id is not ASCII"
  | nonAsciiId id => "content id is not ASCII: " ++ Quoted.text id
  | bufferTooSmall needed available =>
    "buffer too small: need " ++ toString needed ++ " bytes, have " ++ toString available

namespace Inode

/-- A record of the given fields, refused if the content id is not ASCII. -/
def make (contentId : String) (dev ino size : UInt32) (mode : UInt16)
    (atime mtime ctime : Binary64) : Except InodeError Inode :=
  if ascii : IsAscii contentId then
    .ok { contentId, dev, ino, size, mode, atime, mtime, ctime, ascii }
  else .error (.nonAsciiId contentId)

/-- A record whose three times are one instant. -/
def stamped (contentId : String) (size : UInt32) (mode : UInt16) (now : Instant) :
    Except InodeError Inode :=
  make contentId 0 0 size mode now.toMillis now.toMillis now.toMillis

/-! ## The format -/

/-- The low bytes of a number, the lowest first. -/
def littleEndian : Nat → Nat → Bytes
  | 0, _ => []
  | width + 1, n => n.toUInt8 :: littleEndian width (n / 256)

/-- The number whose bytes these are, the lowest first. -/
def ofLittleEndian : Bytes → Nat
  | [] => 0
  | b :: rest => b.toNat + 256 * ofLittleEndian rest

def encodedLength (i : Inode) : Nat := headerLength + i.contentId.toList.length

/-- The bytes of the content id, one for each character. -/
def idBytes (i : Inode) : Bytes := i.contentId.toList.map fun c => c.toNat.toUInt8

/-- The bytes of each field, and where they stand. -/
def layout (i : Inode) : List (Nat × Bytes) := [
  (0, littleEndian 4 i.dev.toNat),
  (4, littleEndian 4 i.ino.toNat),
  (8, littleEndian 4 i.size.toNat),
  (12, littleEndian 2 i.mode.toNat),
  (14, littleEndian 8 i.atime.bits.toNat),
  (22, littleEndian 8 i.mtime.bits.toNat),
  (30, littleEndian 8 i.ctime.bits.toNat),
  (headerLength, i.idBytes)]

/-- A buffer with bytes written over it at an offset. -/
def writeOver (buffer : Bytes) (offset : Nat) (chunk : Bytes) : Bytes :=
  buffer.take offset ++ chunk ++ buffer.drop (offset + chunk.length)

/-- A buffer of the length of the record with all fields written over it. -/
def writeFields (i : Inode) (buffer : Bytes) : Bytes :=
  i.layout.foldl (fun buffer field => writeOver buffer field.1 field.2) buffer

/-- The record as bytes. -/
def encode (i : Inode) : Bytes := i.writeFields (List.replicate i.encodedLength 0)

/-- The record written to the start of a buffer: its length, or why it does not fit, and the buffer
afterwards. -/
def writeTo (i : Inode) (buffer : Bytes) : Except InodeError Nat × Bytes :=
  if buffer.length < i.encodedLength then
    (.error (.bufferTooSmall i.encodedLength buffer.length), buffer)
  else
    (.ok i.encodedLength, i.writeFields (buffer.take i.encodedLength) ++
      buffer.drop i.encodedLength)

/-- The length of the record and the buffer, after the record was written to its start. -/
def encodeInto (i : Inode) (buffer : Bytes) : Except InodeError (Nat × Bytes) :=
  let (written, buffer) := i.writeTo buffer
  written.map fun length => (length, buffer)

/-- The number in the bytes of a field. -/
def field (bytes : Bytes) (offset width : Nat) : Nat :=
  ofLittleEndian ((bytes.drop offset).take width)

/-- The record that a whole byte string holds. -/
def decode (bytes : Bytes) : Except InodeError Inode :=
  let contentId := String.ofList ((bytes.drop headerLength).map fun b => Char.ofNat b.toNat)
  if bytes.length < headerLength then .error (.tooShort bytes.length)
  else if ascii : IsAscii contentId then
    .ok {
      contentId
      dev := (field bytes 0 4).toUInt32
      ino := (field bytes 4 4).toUInt32
      size := (field bytes 8 4).toUInt32
      mode := (field bytes 12 2).toUInt16
      atime := ⟨(field bytes 14 8).toUInt64⟩
      mtime := ⟨(field bytes 22 8).toUInt64⟩
      ctime := ⟨(field bytes 30 8).toUInt64⟩
      ascii }
  else .error .undecodableId

/-! ## The record and attributes -/

/-- The record as attributes. -/
def toAttr (i : Inode) : FileAttr :=
  { FileAttr.ofMode i.mode.toUInt32 i.size.toUInt64 Instant.epoch with
    atime := Instant.ofMillis i.atime
    mtime := Instant.ofMillis i.mtime
    ctime := Instant.ofMillis i.ctime
    dev := i.dev
    ino := i.ino }

def kind (i : Inode) : FileKind := FileKind.ofMode i.mode.toUInt32

def isFile (i : Inode) : Bool := i.kind.isFile

def isDir (i : Inode) : Bool := i.kind.isDir

/-- The size a record keeps of a file: its own, up to the greatest that fits. -/
def recordedSize (size : UInt64) : UInt32 := (min size.toNat (UInt32.size - 1)).toUInt32

/-- Whether an instant differs from a stored time. A stored time finer than a nanosecond is the same
instant as its own reading. -/
def differs (stored : Binary64) (t : Instant) : Bool :=
  !stored.numEq t.toMillis && !(Instant.ofMillis stored).toMillis.numEq t.toMillis

/-- A stored time after an instant is folded into it. -/
def foldTime (stored : Binary64) (t : Instant) : Binary64 :=
  if differs stored t then t.toMillis else stored

/-- Folds size, mode and times of the attributes into a record, and tells whether any of them
differed, so that a caller need not write an unchanged record. -/
def update (i : Inode) (a : FileAttr) : Bool × Inode :=
  let size := recordedSize a.size
  let mode := a.mode.toUInt16
  (i.size != size || i.mode != mode || differs i.atime a.atime || differs i.mtime a.mtime
      || differs i.ctime a.ctime,
    { i with
      size, mode
      atime := foldTime i.atime a.atime
      mtime := foldTime i.mtime a.mtime
      ctime := foldTime i.ctime a.ctime })

end Inode

end MountSpace
