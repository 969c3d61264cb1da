import MountSpace.Error

/-!
# What an operation takes from outside

Operations read the clock and draw random ids. Both are given ahead as endless sequences, so that a
run is a function of them and a statement about all runs is one about all sequences.

- `Uuid`: a random id, its text and the number it lends to an inode.
- `Ambient`: the readings and draws, and how many have been used.
- `Action`: a computation on some state that may fail part of the way; what was done stays done.
-/

namespace MountSpace

/-- A 128-bit id. -/
structure Uuid where
  bits : BitVec 128
  deriving DecidableEq

namespace Uuid

/-- The low digits of a number in lower-case hexadecimal, the highest first. -/
def digits : Nat → Nat → List Char
  | 0, _ => []
  | width + 1, n => digits width (n / 16) ++ [Hex.digit 'a' (n % 16)]

/-- The id as text: digits in groups of eight, four, four, four and twelve. -/
def toText (u : Uuid) : String :=
  let n := u.bits.toNat
  String.ofList (digits 8 (n >>> 96) ++ '-' :: digits 4 (n >>> 80) ++ '-' :: digits 4 (n >>> 64)
    ++ '-' :: digits 4 (n >>> 48) ++ '-' :: digits 12 n)

/-- The low 32 bits. -/
def low (u : Uuid) : UInt32 := u.bits.toNat.toUInt32

end Uuid

/-- The clock and the source of random ids. -/
structure Ambient where
  /-- What the clock shows at each reading. -/
  clock : Nat → Instant
  /-- How often the clock has been read. -/
  readings : Nat
  /-- The id that each draw gives. -/
  ids : Nat → Uuid
  /-- How many ids have been drawn. -/
  draws : Nat

namespace Ambient

/-- What the clock shows next. -/
def now (a : Ambient) : Instant := a.clock a.readings

/-- The state after the clock has been read. -/
def tick (a : Ambient) : Ambient := { a with readings := a.readings + 1 }

/-- The id that comes next. -/
def nextId (a : Ambient) : Uuid := a.ids a.draws

/-- The state after an id has been drawn. -/
def drawn (a : Ambient) : Ambient := { a with draws := a.draws + 1 }

end Ambient

/-- A computation on a state that may fail; the state it has reached then remains. -/
abbrev Action (σ : Type) := ExceptT FsError (StateM σ)

/-- A failure or value as a computation that leaves the state alone. -/
def Action.ofExcept {σ α : Type} : Except FsError α → Action σ α
  | .ok x => pure x
  | .error e => throw e

/-- The outcome and the final state of a computation. -/
def Action.runOn {σ α : Type} (act : Action σ α) (s : σ) : Except FsError α × σ :=
  StateT.run (ExceptT.run act) s

end MountSpace
