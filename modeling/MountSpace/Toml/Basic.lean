/-!
# Documents of tables

- `Toml`: the values of a document. A table remembers how it came to be, because that decides
  whether it may still be extended.
- `Toml.alter`: a change at the end of a dotted path, creating the tables it passes.
- `Toml.assign`: a value put at a dotted path.
-/

namespace MountSpace

/-- How a table came to be. -/
inductive TableForm where
  /-- Written between braces; complete as it stands. -/
  | braces
  /-- Opened by a header of its own. -/
  | header
  /-- Passed through by the header of a table inside it. -/
  | implied
  /-- Passed through by a dotted key. -/
  | dotted
  deriving DecidableEq, Repr

/-- A value of a document. Numbers other than whole ones and dates are kept as such and no more. -/
inductive Toml where
  | string (text : String)
  | integer (n : Int)
  | float
  | boolean (b : Bool)
  | date
  | array (items : List Toml)
  | table (form : TableForm) (entries : List (String × Toml))
  /-- Tables that were opened by headers of one name. -/
  | tables (items : List Toml)
  deriving Inhabited

namespace Toml

/-- The entries of a table. -/
abbrev Entries := List (String × Toml)

/-- Entries with the value at a name replaced. -/
def replace (es : Entries) (name : String) (value : Toml) : Entries :=
  es.map fun e => if e.1 = name then (name, value) else e

/-- Changes the entries at the end of a path. Tables that are missing on the way are created; of
tables that were opened by headers of one name the last is entered. A dotted key enters only tables
that no header opened, and nothing enters a table between braces. -/
def alter {α : Type} (dotted : Bool) (change : TableForm → Entries → Option (α × Entries)) :
    List String → TableForm → Entries → Option (α × Entries)
  | [], form, es => change form es
  | name :: path, _, es =>
    match es.lookup name with
    | none => do
      let form := if dotted then .dotted else .implied
      let (result, inner) ← alter dotted change path form []
      return (result, es ++ [(name, .table form inner)])
    | some (.table form inner) => do
      guard (form ≠ .braces && !(dotted && form = .header))
      let (result, inner) ← alter dotted change path form inner
      return (result, replace es name (.table form inner))
    | some (.tables items) =>
      match items.getLast? with
      | some (.table form inner) => do
        let (result, inner) ← alter dotted change path form inner
        return (result, replace es name (.tables (items.dropLast ++ [.table form inner])))
      | _ => none
    | some _ => none

/-- Puts a value at a dotted path of a table that is being written. A name is given one value, and
the path ends in that very table or in one that dotted keys have made. -/
def assign (form : TableForm) (es : Entries) (path : List String) (value : Toml) :
    Option Entries := do
  let name ← path.getLast?
  let put (form : TableForm) (es : Entries) : Option (Unit × Entries) := do
    guard ((form == .dotted) != path.dropLast.isEmpty)
    guard (es.lookup name).isNone
    return ((), es ++ [(name, value)])
  let (_, es) ← alter true put path.dropLast form es
  return es

end Toml

end MountSpace
