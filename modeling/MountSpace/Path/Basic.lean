import MountSpace.SortedMap
import MountSpace.Text.Utf8

/-!
# Absolute paths in normal form

A path is a list of segments below the root. Any byte string names one: separators split it, empty
and `.` pieces are dropped, `..` goes up one level and stops at the root.

- `Segment`: the name of one step, never empty, `.` or `..`, and free of separators.
- `Path`: the segments from the root down.
- `Path.ofText`, `Path.ofBytes`: the path that a spelling names.
- `Path.toText`: the one normal spelling of a path.
- `Path.toText_injective`: paths with one spelling are equal, which makes the order by spelling an
  order of paths (`KeyOrder Path`).
-/

namespace MountSpace

/-- A text that can name an entry of a directory. -/
def IsSegment (text : String) : Prop := text ≠ "" ∧ text ≠ "." ∧ text ≠ ".." ∧ '/' ∉ text.toList

instance (text : String) : Decidable (IsSegment text) := inferInstanceAs (Decidable (_ ∧ _))

/-- One step of a path. -/
structure Segment where
  text : String
  valid : IsSegment text
  deriving DecidableEq

/-- The steps from the root to an entry. -/
structure Path where
  segments : List Segment
  deriving DecidableEq

namespace Path

/-- The path without steps. -/
def root : Path := ⟨[]⟩

instance : Inhabited Path := ⟨root⟩

def isRoot (p : Path) : Bool := p.segments.isEmpty

/-- The entry of a name inside the directory at a path. -/
def child (p : Path) (s : Segment) : Path := ⟨p.segments ++ [s]⟩

/-- The directory that holds the entry at a path. The root is its own parent. -/
def parent (p : Path) : Path := ⟨p.segments.dropLast⟩

/-- The last step, absent at the root. -/
def name? (p : Path) : Option Segment := p.segments.getLast?

/-- The path that continues one path by the steps of another. -/
def append (p q : Path) : Path := ⟨p.segments ++ q.segments⟩

instance : Append Path := ⟨append⟩

/-- Whether a path is another one or lies above it. -/
def isPrefixOf (p q : Path) : Bool := p.segments.isPrefixOf q.segments

/-- The steps that lead from a path to one below it. -/
def relativeTo (q p : Path) : Path := ⟨q.segments.drop p.segments.length⟩

/-- The paths strictly between the root and a path, the shallowest first. -/
def strictAncestors (p : Path) : List Path :=
  (List.range (p.segments.length - 1)).map fun n => ⟨p.segments.take (n + 1)⟩

/-! ## Spelling -/

/-- The segments as characters, each with a separator before it. -/
def spelled (segments : List Segment) : List Char := segments.flatMap fun s => '/' :: s.text.toList

/-- The characters of the normal spelling: a separator before each segment, and a lone one for the
root. -/
def spelling (p : Path) : List Char :=
  match p.segments with
  | [] => ['/']
  | s :: rest => spelled (s :: rest)

/-- The normal spelling of a path. -/
def toText (p : Path) : String := String.ofList p.spelling

/-- The pieces of a text between its separators. -/
def pieces : List Char → List (List Char)
  | [] => [[]]
  | c :: rest =>
    if c = '/' then [] :: pieces rest
    else
      match pieces rest with
      | [] => [[c]]
      | p :: ps => (c :: p) :: ps

/-- Follows one piece of a spelling. The steps so far are given with the last one first. -/
def step (taken : List Segment) (piece : List Char) : List Segment :=
  let text := String.ofList piece
  if valid : IsSegment text then ⟨text, valid⟩ :: taken
  else if text = ".." then taken.tail
  else taken

/-- Follows a spelling from a path. -/
def walk (p : Path) (text : List Char) : Path :=
  ⟨((pieces text).foldl step p.segments.reverse).reverse⟩

/-- The path a text names. -/
def ofText (text : String) : Path := root.walk text.toList

/-- The path a byte string names, ill-formed stretches shown as replacement characters. -/
def ofBytes (bytes : Bytes) : Path := root.walk (Utf8.decodeLossy bytes)

/-! ## Order by spelling -/

theorem takeWhile_spelled (s : Segment) (rest : List Segment) :
    (s.text.toList ++ spelled rest).takeWhile (· ≠ '/') = s.text.toList := by
  have free : ∀ c ∈ s.text.toList, (decide (c ≠ '/')) = true := fun c hc =>
    decide_eq_true fun e => s.valid.2.2.2 (e ▸ hc)
  rw [List.takeWhile_append_of_pos free]
  cases rest <;> simp [spelled]

theorem spelled_injective {a b : List Segment} (h : spelled a = spelled b) : a = b := by
  induction a generalizing b with
  | nil => cases b <;> simp_all [spelled]
  | cons s as ih =>
    cases b with
    | nil => simp [spelled] at h
    | cons t bs =>
      have h : s.text.toList ++ spelled as = t.text.toList ++ spelled bs := by
        simpa [spelled] using h
      have head : s.text.toList = t.text.toList := by
        rw [← takeWhile_spelled s as, h, takeWhile_spelled]
      have tail : spelled as = spelled bs := by
        rw [head] at h
        exact List.append_cancel_left h
      obtain ⟨s, _⟩ := s
      obtain ⟨t, _⟩ := t
      cases String.toList_inj.1 head
      rw [ih tail]

/-- Paths with one spelling are equal. -/
theorem spelling_injective {p q : Path} (h : p.spelling = q.spelling) : p = q := by
  have lone : ∀ (s : Segment) (rest : List Segment), spelled (s :: rest) ≠ ['/'] := by
    intro s rest e
    have : s.text.toList = [] := by simp_all [spelled]
    exact s.valid.1 (String.toList_inj.1 (by simpa using this))
  obtain ⟨_ | ⟨s, as⟩⟩ := p <;> obtain ⟨_ | ⟨t, bs⟩⟩ := q
  · rfl
  · exact absurd h.symm (lone t bs)
  · exact absurd h (lone s as)
  · exact congrArg Path.mk (spelled_injective h)

theorem toText_injective {p q : Path} (h : p.toText = q.toText) : p = q :=
  spelling_injective (String.ofList_inj.1 h)

instance : LT Path := ⟨fun p q => p.spelling < q.spelling⟩
instance : DecidableLT Path := fun p q => inferInstanceAs (Decidable (p.spelling < q.spelling))

instance : KeyOrder Path where
  irrefl p := KeyOrder.irrefl p.spelling
  trans h k := KeyOrder.trans (κ := List Char) h k
  connected h ne := KeyOrder.connected (κ := List Char) h fun e => ne (spelling_injective e)

end Path

end MountSpace
