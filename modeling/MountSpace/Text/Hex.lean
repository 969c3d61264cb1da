/-!
# Hexadecimal digits

- `Hex.digit`, `Hex.value?`: a digit from its value and back.
- `Hex.number?`: the number that digits write.
-/

namespace MountSpace.Hex

/-- The digit of a value below sixteen, its letter counted from the given one. -/
def digit (ten : Char) (n : Nat) : Char :=
  if n < 10 then Char.ofNat ('0'.toNat + n) else Char.ofNat (ten.toNat + (n - 10))

/-- The value of a digit, in either case. -/
def value? (c : Char) : Option Nat :=
  if '0' ≤ c ∧ c ≤ '9' then some (c.toNat - '0'.toNat)
  else if 'a' ≤ c ∧ c ≤ 'f' then some (c.toNat - 'a'.toNat + 10)
  else if 'A' ≤ c ∧ c ≤ 'F' then some (c.toNat - 'A'.toNat + 10)
  else none

/-- The number that digits write, if all of them are digits. -/
def number? (cs : List Char) : Option Nat :=
  (cs.mapM value?).map fun ds => ds.foldl (fun n d => n * 16 + d) 0

end MountSpace.Hex
