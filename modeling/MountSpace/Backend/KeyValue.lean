import MountSpace.FileSystem

/-!
# Backends over stores of records
-/

namespace MountSpace

/-- Fails if changes are refused. -/
def checkWritable (readOnly : Bool) : Action Volumes Unit := do
  if readOnly then
    throw .readOnly

/-- The backend over a store. A read-only one refuses every change before it looks at the store. -/
def FileSystem.keyValue (self store : Nat) (readOnly : Bool) : FileSystem where
  name := "key-value"
  capabilities := { readOnly, synchronous := true }
  stat v p := RecordTree.stat (v.stores store) p
  readdir v p := RecordTree.readdir (v.stores store) p
  readAll v p := RecordTree.readAll (v.stores store) p
  mkdir p mode := do
    checkWritable readOnly
    Volumes.withStore store (RecordTree.mkdir p mode)
  unlink p := do
    checkWritable readOnly
    Volumes.withStore store (RecordTree.remove p .file)
  rmdir p := do
    checkWritable readOnly
    Volumes.withStore store (RecordTree.remove p .directory)
  rename source target := do
    checkWritable readOnly
    Volumes.withStore store (RecordTree.rename source target)
  openFile p flags mode := do
    if flags.isWriteable || flags.create then
      checkWritable readOnly
    let (attr, data) ← Volumes.withStore store (RecordTree.openFile p flags mode)
    return OpenFile.load self (Utf8.encode p.spelling) flags attr data (← Volumes.now)
  sync p data attr := do
    checkWritable readOnly
    Volumes.withStore store (RecordTree.sync p data attr)

/-- Removes everything from the store of a backend but its root. -/
def emptyStore (store : Nat) (readOnly : Bool) : Action Volumes Unit := do
  checkWritable readOnly
  Volumes.withStore store RecordTree.clear

end MountSpace
