import MountSpace.Error
import MountSpace.SortedMap

/-!
# Flat stores of records

A store maps keys to byte strings. It may refuse to add a record, as a shared store does when
another writer was faster, and it keeps a journal of the calls that change it.

- `RecordStore`: the records, the refusals to come and the journal.
- `get?`, `put`, `delete`: the operations.
-/

namespace MountSpace

/-- A call that may change a store. -/
inductive StoreCall where
  | put (key : String) (overwrite : Bool) (accepted : Bool)
  | delete (key : String)
  deriving DecidableEq, Repr

/-- A store of records. -/
structure RecordStore where
  records : SortedMap String Bytes
  /-- Whether the store refuses the addition of a given ordinal, counted from one. -/
  refuses : Nat → Bool
  /-- How many additions have been asked for. -/
  additions : Nat
  /-- The calls so far, the last one first. -/
  journal : List StoreCall

namespace RecordStore

/-- A store that refuses nothing, with the given records. -/
def ofRecords (records : SortedMap String Bytes) : RecordStore := ⟨records, fun _ => false, 0, []⟩

instance : Inhabited RecordStore := ⟨ofRecords ∅⟩

/-- The value at a key. -/
def get? (s : RecordStore) (key : String) : Option Bytes := s.records.get? key

def size (s : RecordStore) : Nat := s.records.size

def isEmpty (s : RecordStore) : Bool := s.records.isEmpty

/-- The store with its records changed and nothing else. -/
def withRecords (s : RecordStore) (records : SortedMap String Bytes) : RecordStore :=
  { s with records }

/-- Stores a value. -/
def overwrite (s : RecordStore) (key : String) (value : Bytes) : RecordStore :=
  { s with
    records := s.records.insert key value
    journal := .put key true true :: s.journal }

/-- Whether the next addition would be accepted at a key. -/
def accepts (s : RecordStore) (key : String) : Bool :=
  !s.refuses (s.additions + 1) && !s.records.contains key

/-- Adds a value at a key that is free, and tells whether it was accepted. -/
def add (s : RecordStore) (key : String) (value : Bytes) : Bool × RecordStore :=
  let accepted := s.accepts key
  (accepted,
    { s with
      records := if accepted then s.records.insert key value else s.records
      additions := s.additions + 1
      journal := .put key false accepted :: s.journal })

/-- Stores a value; without leave to overwrite only at a free key. Tells whether it was stored. -/
def put (s : RecordStore) (key : String) (value : Bytes) (overwrite : Bool) : Bool × RecordStore :=
  if overwrite then (true, s.overwrite key value) else s.add key value

/-- Removes a key; a missing one is ignored. -/
def delete (s : RecordStore) (key : String) : RecordStore :=
  { s with
    records := s.records.erase key
    journal := .delete key :: s.journal }

end RecordStore

end MountSpace
