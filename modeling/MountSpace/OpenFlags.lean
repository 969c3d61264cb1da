import MountSpace.Text.Quoted

/-!
# Ways to open a file

- `OpenFlags`: what the holder of a handle may do and what opening does to the file.
- `OpenFlags.ofText`: the flags that a stream mode such as `r+` or `wx` stands for.
-/

namespace MountSpace

/-- What a handle may do and what opening does to the file. -/
structure OpenFlags where
  /-- Content may be read. -/
  read : Bool := true
  /-- Content may be changed. -/
  write : Bool := false
  /-- Every change goes to the end. -/
  append : Bool := false
  /-- An absent file is created. -/
  create : Bool := false
  /-- Content is dropped. -/
  truncate : Bool := false
  /-- A file that exists is refused, where one would be created. -/
  exclusive : Bool := false
  deriving DecidableEq, Repr, Inhabited

/-- A text that is no stream mode. -/
structure InvalidFlags where
  text : String
  deriving DecidableEq, Repr

def InvalidFlags.message (e : InvalidFlags) : String := "invalid open flags: " ++ Quoted.text e.text

namespace OpenFlags

/-- Read what is there. -/
def reading : OpenFlags := {}

/-- Read and change what is there. -/
def writing : OpenFlags := { write := true }

/-- Read and change, creating what is absent. -/
def creating : OpenFlags := { write := true, create := true }

/-- Read and change a file that did not exist before. -/
def creatingNew : OpenFlags := { write := true, create := true, exclusive := true }

/-- Read and change, starting from an empty file. -/
def replacing : OpenFlags := { write := true, create := true, truncate := true }

/-- Add to the end, creating what is absent. -/
def appending : OpenFlags := { read := false, write := true, append := true, create := true }

/-- Whether a handle with these flags may change the file. -/
def isWriteable (f : OpenFlags) : Bool := f.write || f.append

/-- The flags a stream mode stands for. A mark for synchronous access is accepted after
`r` and has no effect. -/
def ofText (text : String) : Except InvalidFlags OpenFlags :=
  match text with
  | "r" | "rs" => .ok reading
  | "r+" | "rs+" => .ok writing
  | "w" => .ok { replacing with read := false }
  | "wx" | "xw" => .ok { creatingNew with read := false, truncate := true }
  | "w+" => .ok replacing
  | "wx+" | "xw+" => .ok { creatingNew with truncate := true }
  | "a" => .ok appending
  | "ax" | "xa" => .ok { appending with exclusive := true }
  | "a+" => .ok { appending with read := true }
  | "ax+" | "xa+" => .ok { appending with read := true, exclusive := true }
  | _ => .error ⟨text⟩

end OpenFlags

end MountSpace
