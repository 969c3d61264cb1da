import MountSpace.System

/-!
# Inspection output

One line about a value, with its fields by name. Texts are quoted as in messages; paths are
quoted as byte strings.
-/

namespace MountSpace.Inspect

/-- A value by its name and fields. -/
def record (name : String) (fields : List (String × String)) : String :=
  name ++ " \x7b " ++ ", ".intercalate (fields.map fun f => f.1 ++ ": " ++ f.2) ++ " \x7d"

def bool (b : Bool) : String := if b then "true" else "false"

/-- A path quoted as a byte string. -/
def path (p : Path) : String := Quoted.bytes (Utf8.encode p.spelling)

def openFlags (f : OpenFlags) : String :=
  record "OpenFlags" [
    ("read", bool f.read), ("write", bool f.write), ("append", bool f.append),
    ("create", bool f.create), ("truncate", bool f.truncate), ("exclusive", bool f.exclusive)]

/-- An open file, its backend by name. -/
def openFile (f : OpenFile) (backend : String) : String :=
  record "BufferedFile" [
    ("backend", Quoted.text backend), ("path", Quoted.bytes f.path), ("flags", openFlags f.flags),
    ("len", toString f.data.length), ("dirty", bool f.dirty)]

/-- Where a path leads, the backend by name. -/
def route (r : Route) (backend : String) : String :=
  record "Resolved" [
    ("backend", Quoted.text backend), ("relative", path r.relative),
    ("mount_path", Quoted.text r.mountPath.toText)]

/-- A mount table, its implicit root by name. -/
def mountTable (t : MountTable) (root : String) : String :=
  record "MountTable" [
    ("root", Quoted.text root),
    ("mounts", "[" ++ ", ".intercalate (t.mounts.keys.map fun p => Quoted.text p.toText) ++ "]")]

/-- A backend, if there is anything to say about one of its making. -/
def backend : Backend → String
  | .keyValue _ readOnly => record "KeyValueBackend" [("read_only", bool readOnly)]
  | .composite _ => record "MountableFileSystem" [("table", Quoted.text "<locked>")]
  | .memory _ | .faulty _ _ _ => ""

end MountSpace.Inspect
