import MountSpace.Toml.Scalar

/-!
# Reading a document

A document is a sequence of lines: assignments, and headers that say which table the following
assignments belong to.

- `Toml.key`, `Toml.value`: a dotted key, and a value with all its parts.
- `Toml.Line`, `Toml.lines`: the lines of a text.
- `Toml.Draft`: the document so far, with the table that is being written set apart.
- `Toml.parse`: the top table of a text.
-/

namespace MountSpace.Toml

/-- Keys and nested values have fewer steps than this. -/
def stepLimit : Nat := 80

/-! ## Keys -/

def isBareKey (c : Char) : Bool := c.isAlphanum || c = '-' || c = '_'

/-- One step of a key: bare, or a text on one line. -/
def keyStep (cs : List Char) : Option (String × List Char) :=
  match cs with
  | '"' :: rest => (basicText rest).map fun (t, rest) => (String.ofList t, rest)
  | '\'' :: rest => (literalText rest).map fun (t, rest) => (String.ofList t, rest)
  | _ =>
    let bare := cs.takeWhile isBareKey
    if bare.isEmpty then none else some (String.ofList bare, cs.dropWhile isBareKey)

/-- The steps of a key with points between them, and the blanks around it. -/
def keySteps : Nat → List Char → Option (List String × List Char)
  | 0, _ => none
  | steps + 1, cs => do
    let (name, rest) ← keyStep (skipSpace cs)
    match skipSpace rest with
    | '.' :: rest =>
      let (names, rest) ← keySteps steps rest
      return (name :: names, rest)
    | rest => return ([name], rest)

/-- A dotted key. -/
def key (cs : List Char) : Option (List String × List Char) := keySteps (stepLimit - 1) cs

/-! ## Values -/

/-- Skips blanks, line ends and comments. A comment ends with its line. -/
def skipTrivia : Bool → List Char → List Char
  | _, [] => []
  | _, '\n' :: rest => skipTrivia false rest
  | _, '\r' :: '\n' :: rest => skipTrivia false rest
  | true, c :: rest => if isVisible c then skipTrivia true rest else c :: rest
  | false, c :: rest =>
    if isSpace c then skipTrivia false rest
    else if c = '#' then skipTrivia true rest
    else c :: rest

/-- Reads the items of an array up to its closing bracket; a comma may follow the last. The bound is
on the number of items. -/
def items (item : List Char → Option (Toml × List Char)) :
    Nat → List Char → Option (List Toml × List Char)
  | 0, _ => none
  | bound + 1, cs =>
    match skipTrivia false cs with
    | ']' :: rest => some ([], rest)
    | cs => do
      let (x, rest) ← item cs
      match skipTrivia false rest with
      | ']' :: rest => return ([x], rest)
      | ',' :: rest =>
        let (xs, rest) ← items item bound rest
        return (x :: xs, rest)
      | _ => none

/-- Reads one assignment. -/
def pair (item : List Char → Option (Toml × List Char)) (cs : List Char) :
    Option ((List String × Toml) × List Char) := do
  let (path, rest) ← key cs
  let (x, rest) ← item (skipSpace (← after? '=' rest))
  return ((path, x), skipSpace rest)

/-- Reads assignments with commas between them up to a closing brace. The bound
is on their number. -/
def pairs (item : List Char → Option (Toml × List Char)) :
    Nat → List Char → Option (List (List String × Toml) × List Char)
  | 0, _ => none
  | bound + 1, cs => do
    let (p, rest) ← pair item cs
    match rest with
    | '}' :: rest => return ([p], rest)
    | ',' :: rest =>
      let (ps, rest) ← pairs item bound rest
      return (p :: ps, rest)
    | _ => none

/-- The table between braces that assignments make. -/
def ofPairs (ps : List (List String × Toml)) : Option Toml := do
  let es ← ps.foldlM (fun es p => assign .braces es p.1 p.2) []
  return .table .braces es

/-- Reads a value with fewer than so many levels of arrays and tables inside each other. -/
def valueWithin : Nat → List Char → Option (Toml × List Char)
  | 0, _ => none
  | levels + 1, cs =>
    match cs with
    | '[' :: rest => do
      guard (0 < levels)
      let (xs, rest) ← items (valueWithin levels) (rest.length + 1) rest
      return (.array xs, rest)
    | '{' :: rest => do
      guard (0 < levels)
      match skipSpace rest with
      | '}' :: rest => return (.table .braces [], rest)
      | rest =>
        let (ps, rest) ← pairs (valueWithin levels) (rest.length + 1) rest
        return (← ofPairs ps, rest)
    | _ => scalar cs

def value (cs : List Char) : Option (Toml × List Char) := valueWithin stepLimit cs

/-! ## Lines -/

/-- A line that says something. -/
inductive Line where
  /-- Opens a table. -/
  | header (path : List String)
  /-- Opens one more table of a name. -/
  | another (path : List String)
  | assignment (path : List String) (value : Toml)

/-- The text after the rest of a line, which holds at most a comment. -/
def restOfLine (cs : List Char) : Option (List Char) :=
  let cs := match skipSpace cs with
    | '#' :: rest => rest.dropWhile isVisible
    | cs => cs
  if cs.isEmpty then some [] else lineEnd? cs

/-- Reads one line that says something. -/
def line (cs : List Char) : Option (Line × List Char) :=
  match cs with
  | '[' :: '[' :: rest => do
    let (path, rest) ← key rest
    let rest ← after? ']' (← after? ']' rest)
    return (.another path, ← restOfLine rest)
  | '[' :: rest => do
    let (path, rest) ← key rest
    return (.header path, ← restOfLine (← after? ']' rest))
  | _ => do
    let ((path, x), rest) ← pair value cs
    return (.assignment path x, ← restOfLine rest)

/-- The lines of a text that say something. The bound is on the number of lines. -/
def lines : Nat → List Char → Option (List Line)
  | 0, _ => none
  | bound + 1, cs =>
    match skipSpace cs with
    | [] => some []
    | c :: rest =>
      if c = '#' || c = '\n' || c = '\r' then do lines bound (← restOfLine (c :: rest))
      else do
        let (l, rest) ← line (c :: rest)
        return l :: (← lines bound rest)

/-! ## Tables -/

/-- A document in the making. -/
structure Draft where
  /-- What is complete. -/
  done : Entries
  /-- The entries of the table that is being written. -/
  current : Entries
  /-- Where that table goes. -/
  path : List String
  /-- It is one more table of its name. -/
  another : Bool

namespace Draft

/-- Nothing yet; the top table is being written. -/
def start : Draft := ⟨[], [], [], false⟩

/-- Puts the table that is being written in its place. -/
def finish (d : Draft) : Option Entries :=
  match d.path.getLast? with
  | none => some d.current
  | some name =>
    let table := Toml.table .header d.current
    let put (_ : TableForm) (es : Entries) : Option (Unit × Entries) :=
      match es.lookup name, d.another with
      | none, true => some ((), es ++ [(name, .tables [table])])
      | none, false => some ((), es ++ [(name, table)])
      | some (.tables items), true => some ((), replace es name (.tables (items ++ [table])))
      | _, _ => none
    (alter false put d.path.dropLast .header d.done).map (·.2)

/-- Starts a table of its own name. One that other headers have passed through is continued. -/
def header (d : Draft) (path : List String) : Option Draft := do
  let done ← d.finish
  let name ← path.getLast?
  let take (_ : TableForm) (es : Entries) : Option (Entries × Entries) :=
    match es.lookup name with
    | none => some ([], es)
    | some (.table .implied inner) => some (inner, es.filter (·.1 ≠ name))
    | some _ => none
  let (current, done) ← alter false take path.dropLast .header done
  return { done, current, path, another := false }

/-- Starts one more table of a name. -/
def anotherHeader (d : Draft) (path : List String) : Option Draft := do
  let done ← d.finish
  let name ← path.getLast?
  let look (_ : TableForm) (es : Entries) : Option (Unit × Entries) :=
    match es.lookup name with
    | none | some (.tables _) => some ((), es)
    | some _ => none
  let (_, done) ← alter false look path.dropLast .header done
  return { done, current := [], path, another := true }

/-- The document after one more line. -/
def next (d : Draft) : Line → Option Draft
  | .header path => d.header path
  | .another path => d.anotherHeader path
  | .assignment path x => do return { d with current := ← assign .header d.current path x }

end Draft

/-- The top table of a text. A mark of the byte order is skipped. -/
def parse (cs : List Char) : Option Entries := do
  let cs := match cs with
    | '\uFEFF' :: rest => rest
    | _ => cs
  let ls ← lines (cs.length + 1) cs
  let d ← ls.foldlM Draft.next Draft.start
  d.finish

end MountSpace.Toml
