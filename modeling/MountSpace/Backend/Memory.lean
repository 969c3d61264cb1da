import MountSpace.FileSystem

/-!
# Backends over trees in memory
-/

namespace MountSpace

/-- The backend over a tree. Files it opens name it as their owner. -/
def FileSystem.memory (self tree : Nat) : FileSystem where
  name := "memory"
  capabilities := { synchronous := true }
  stat v p := (v.trees tree).stat p
  readdir v p := (v.trees tree).readdir p
  readAll v p := (v.trees tree).readAll p
  mkdir p mode := do
    let now ← Volumes.now
    Volumes.changeTree tree (·.mkdir p mode now)
  unlink p := Volumes.changeTree tree (·.unlink p)
  rmdir p := Volumes.changeTree tree (·.rmdir p)
  rename source target := do
    let now ← Volumes.now
    Volumes.changeTree tree (·.rename source target now)
  openFile p flags mode := do
    let now ← Volumes.now
    let (attr, data, t) ← Action.ofExcept (((← get).trees tree).openFile p flags mode now)
    modify fun v => { v with trees := setAt v.trees tree t }
    return OpenFile.load self (Utf8.encode p.spelling) flags attr data (← Volumes.now)
  sync p data attr := Volumes.changeTree tree (·.sync p data attr)

end MountSpace
