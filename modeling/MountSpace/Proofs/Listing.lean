import MountSpace.KeyValue.Listing
import MountSpace.Proofs.JsonText
import MountSpace.Proofs.SortedMap
import MountSpace.Proofs.Utf8

/-!
# Stored listings read back

The object that a listing is written as reads back, member by member, as the listing itself
(`Listing.decode_encode`).
-/

namespace MountSpace.Listing

open Json (skipBlanks readMembers text_write)

/-- What a member is read as. -/
def readEntry (e : String × String) : Option String × Json := (some e.1, .string (some e.2))

@[simp] theorem entry?_readEntry (e : String × String) : entry? (readEntry e) = some e := rfl

theorem skipBlanks_cons {c : Char} (h : Json.isBlank c = false) (cs : List Char) :
    skipBlanks (c :: cs) = c :: cs := by
  rw [skipBlanks, List.dropWhile_cons, if_neg (by simp [h])]

/-- A written text is read as a value. -/
theorem read_write (s : String) (bound : Nat) (after : List Char) :
    Json.read (bound + 1) ('"' :: (s.toList.flatMap Json.Text.writeChar ++ '"' :: after)) =
      some (.string (some s), after) := by
  rw [Json.read, skipBlanks_cons (by decide)]
  simp [text_write]

/-- The characters of a member, name and value apart. -/
theorem member_append (e : String × String) (cs : List Char) :
    member e ++ cs = '"' :: (e.1.toList.flatMap Json.Text.writeChar ++ '"' :: ':' :: '"' ::
      (e.2.toList.flatMap Json.Text.writeChar ++ '"' :: cs)) := by
  simp [member, Json.Text.write]

/-- The last member is read up to the closing brace. -/
theorem readMembers_last (e : String × String) (bound : Nat) (after : List Char) :
    readMembers (bound + 2) (member e ++ '}' :: after) = some ([readEntry e], after) := by
  rw [member_append, readMembers, skipBlanks_cons (by decide)]
  simp only [text_write, Option.bind_eq_bind, Option.bind_some]
  rw [skipBlanks_cons (by decide)]
  simp only [read_write, Option.bind_some]
  rw [skipBlanks_cons (by decide)]
  rfl

/-- A member before a comma is read, and reading goes on after the comma. -/
theorem readMembers_more (e : String × String) (bound : Nat) (cs : List Char) :
    readMembers (bound + 2) (member e ++ ',' :: cs) =
      (readMembers (bound + 1) cs).bind fun r => some (readEntry e :: r.1, r.2) := by
  rw [member_append, readMembers, skipBlanks_cons (by decide)]
  simp only [text_write, Option.bind_eq_bind, Option.bind_some]
  rw [skipBlanks_cons (by decide)]
  simp only [read_write, Option.bind_some]
  rw [skipBlanks_cons (by decide)]
  rfl

/-- All members are read, given one step more than there are members. -/
theorem readMembers_members (after : List Char) :
    ∀ (e : String × String) (rest : List (String × String)) (bound : Nat), rest.length < bound →
      readMembers (bound + 1) (members (e :: rest) ++ '}' :: after) =
        some ((e :: rest).map readEntry, after)
  | e, [], bound, h => by
    obtain ⟨b, rfl⟩ : ∃ b, bound = b + 1 := ⟨bound - 1, by simp at h; omega⟩
    exact readMembers_last e b after
  | e, d :: rest, bound, h => by
    obtain ⟨b, rfl⟩ : ∃ b, bound = b + 1 := ⟨bound - 1, by simp at h; omega⟩
    have split : members (e :: d :: rest) ++ '}' :: after =
        member e ++ ',' :: (members (d :: rest) ++ '}' :: after) := by
      simp [members]
    rw [split, readMembers_more, readMembers_members after d rest b (by simp at h; omega)]
    rfl

theorem length_members : ∀ l : List (String × String), l.length ≤ (members l).length
  | [] => Nat.le_refl 0
  | [e] => by
    simp only [members, member, List.length_append, List.length_cons, List.length_nil]
    omega
  | e :: d :: rest => by
    have := length_members (d :: rest)
    simp only [members, List.length_append, List.length_cons] at this ⊢
    omega

/-- An object is read from its first member on. -/
theorem read_object (bound : Nat) (cs : List Char) :
    Json.read (bound + 1) ('{' :: '"' :: cs) =
      (readMembers bound ('"' :: cs)).bind fun r => some (.object r.1, r.2) := by
  rw [Json.read, skipBlanks_cons (by decide)]
  simp only
  rw [skipBlanks_cons (by decide)]
  split
  next h => simp at h
  next => rfl

/-- A written object is read as its members. -/
theorem parse_members (l : List (String × String)) :
    Json.parse ('{' :: members l ++ ['}']) = some (.object (l.map readEntry)) := by
  match l with
  | [] => rfl
  | e :: rest =>
    have hlen : rest.length < (members (e :: rest) ++ ['}']).length := by
      have := length_members (e :: rest)
      simp only [List.length_append, List.length_cons] at this ⊢
      omega
    have shape : ∃ cs, members (e :: rest) ++ ['}'] = '"' :: cs := by
      cases rest with
      | nil => exact ⟨_, member_append e _⟩
      | cons d rest => exact ⟨_, (List.append_assoc ..).trans (member_append e _)⟩
    have hread := readMembers_members [] e rest _ hlen
    obtain ⟨cs, hcs⟩ := shape
    rw [hcs] at hread hlen
    rw [List.cons_append, hcs, Json.parse, List.length_cons, read_object, hread]
    rfl

theorem mapM_entry? : ∀ l : List (String × String), (l.map readEntry).mapM entry? = some l
  | [] => rfl
  | e :: rest => by
    rw [List.map_cons, List.mapM_cons, mapM_entry? rest]
    rfl

/-- A stored listing reads back as itself. -/
@[simp] theorem decode_encode (l : Listing) : decode l.encode = some l := by
  rw [decode, encode, Utf8.decode?_encode]
  simp only [Option.bind_eq_bind, Option.bind_some, parse_members, mapM_entry?,
    SortedMap.ofList_toList]
  rfl

end MountSpace.Listing
