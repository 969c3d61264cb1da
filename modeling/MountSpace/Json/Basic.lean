/-!
# Structured data

- `Json`: the values that the notation can write.

Text and member names are absent where an escape names half of a character; such a value can be read
past but not used. Numbers are kept as far as they matter here: whole ones by value.
-/

namespace MountSpace

/-- A value of the notation. -/
inductive Json where
  | null
  | bool (b : Bool)
  | integer (n : Int)
  /-- A number written with a fraction or an exponent, or a negative zero. -/
  | real
  | string (text : Option String)
  | array (items : List Json)
  /-- Members in the order written, repeated names included. -/
  | object (members : List (Option String × Json))
  deriving Inhabited

end MountSpace
