import Mathlib.Data.List.Basic
import Mathlib.Order.Defs.Unbundled
import MountSpace.Proofs.Separators
import MountSpace.Proofs.Spelling

/-!
# Cuts at offsets are cuts at separators

Where a text is cut before or after a separator, the offset is at the beginning of a character,
whatever bytes the names are spelled with. So no slice is refused, and what comes out is the
encoded answer of the text.

- `Offsets.slice?_encode`: the offsets around a part of a text give that part.
- `Offsets.parent_encode`, `fileName_encode`, `isPrefixOf_encode`: one cut each.
- `Offsets.strictAncestors_encode`: the loop, by induction from one separator to the next.
- `Spelling.answers_by_segments`: on normal spellings all of them are the operations on segments.
-/

namespace MountSpace

namespace Utf8

/-- A separator is in the bytes of a text just if it is in the text. -/
theorem separator_mem_encode {text : List Char} : separator ∈ encode text ↔ '/' ∈ text := by
  rw [← separator_mem_decodeLossy, decodeLossy_encode]

/-- No character begins with a byte that is inside one. -/
theorem exists_first_encodeChar (c : Char) :
    ∃ b rest, encodeChar c = b :: rest ∧ Offsets.isContinuation b = false := by
  have outside : ∀ n, n < 256 → (n < 0x80 ∨ 0xC0 ≤ n) →
      Offsets.isContinuation n.toUInt8 = false := by
    intro n small h
    rw [Offsets.isContinuation, Bool.and_eq_false_iff, decide_eq_false_iff_not,
      decide_eq_false_iff_not, UInt8.le_iff_toNat_le, UInt8.lt_iff_toNat_lt, toNat_toUInt8 small]
    rcases h with h | h
    · exact .inl (Nat.not_le.2 h)
    · exact .inr (Nat.not_lt.2 h)
  have bound : c.toNat < 0x110000 := by
    rcases toNat_bounds c with low | ⟨-, high⟩ <;> omega
  rw [encodeChar]
  generalize c.toNat = n at bound
  split
  · exact ⟨_, _, rfl, outside _ (by omega) (.inl ‹_›)⟩
  split
  · exact ⟨_, _, rfl, outside _ (by omega) (.inr (by omega))⟩
  split
  · exact ⟨_, _, rfl, outside _ (by omega) (.inr (by omega))⟩
  · exact ⟨_, _, rfl, outside _ (by omega) (.inr (by omega))⟩

end Utf8

namespace Offsets

open Utf8 (separator encode encode_append encode_separator_cons)

/-- After the bytes of some of its characters a text can be cut. -/
theorem isBoundary_encode (a b : List Char) :
    isBoundary (encode (a ++ b)) (encode a).length = true := by
  rw [isBoundary, encode_append, List.getElem?_append_right (Nat.le_refl _), Nat.sub_self]
  cases b with
  | nil => simp [encode]
  | cons c b =>
    obtain ⟨first, rest, spelled, outside⟩ := Utf8.exists_first_encodeChar c
    rw [Utf8.encode_cons, spelled]
    simp [outside]

/-- The offsets before and after a part of a text give that part. -/
theorem slice?_encode (a b c : List Char) :
    slice? (encode (a ++ (b ++ c))) (encode a).length (encode (a ++ b)).length =
    some (encode b) := by
  have start := isBoundary_encode a (b ++ c)
  have stop := isBoundary_encode (a ++ b) c
  rw [List.append_assoc] at stop
  have ordered : (encode a).length ≤ (encode (a ++ b)).length := by
    rw [encode_append, List.length_append]
    exact Nat.le_add_right ..
  rw [slice?, if_pos ⟨ordered, start, stop⟩, ← List.append_assoc, encode_append (a ++ b),
    List.take_left, encode_append, List.drop_left]

/-- An offset inside a character is refused. -/
example : slice? (encode "é/".toList) 0 1 = none ∧
    slice? (encode "é/".toList) 0 2 = some (encode "é".toList) := by
  decide +kernel

theorem slice?_encode_start (a b : List Char) :
    slice? (encode (a ++ b)) 0 (encode a).length = some (encode a) :=
  slice?_encode [] a b

theorem slice?_encode_end (a b : List Char) :
    slice? (encode (a ++ b)) (encode a).length (encode (a ++ b)).length = some (encode b) := by
  have whole := slice?_encode a b []
  rwa [List.append_nil] at whole

/-- Past a separator is one byte on. -/
theorem slice?_encode_past (a b : List Char) :
    slice? (encode (a ++ '/' :: b)) ((encode a).length + 1) (encode (a ++ '/' :: b)).length =
    some (encode b) := by
  have past : (encode (a ++ ['/'])).length = (encode a).length + 1 := by
    rw [encode_append, List.length_append]
    rfl
  have cut := slice?_encode_end (a ++ ['/']) b
  rwa [List.append_assoc, past] at cut

/-! ## The last separator -/

theorem lastSeparator_free {bytes : Bytes} (h : separator ∉ bytes) :
    lastSeparator bytes = none := by
  induction bytes with
  | nil => rfl
  | cons b rest ih =>
    rw [List.mem_cons, not_or] at h
    rw [lastSeparator, ih h.2]
    exact if_neg (Ne.symm h.1)

theorem lastSeparator_append {b : Bytes} (h : separator ∉ b) (a : Bytes) :
    lastSeparator (a ++ separator :: b) = some a.length := by
  induction a with
  | nil =>
    rw [List.nil_append, lastSeparator, lastSeparator_free h]
    rfl
  | cons c a ih =>
    rw [List.cons_append, lastSeparator, ih]
    rfl

/-- In the bytes of a text the last separator comes after those of what is before it. -/
theorem lastSeparator_encode {b : List Char} (free : '/' ∉ b) (a : List Char) :
    lastSeparator (encode (a ++ '/' :: b)) = some (encode a).length := by
  rw [encode_append, encode_separator_cons,
    lastSeparator_append (mt Utf8.separator_mem_encode.1 free)]

theorem parent_encode (text : String) :
    parent (encode text.toList) = some (encode (Spelling.parent text).toList) := by
  rw [parent, Spelling.parent]
  rcases Spelling.cutLast_spec text.toList with ⟨free, cut⟩ | ⟨before, after, whole, free, cut⟩
  · rw [cut, lastSeparator_free (mt Utf8.separator_mem_encode.1 free)]
    rfl
  rw [cut, whole, lastSeparator_encode free]
  cases before with
  | nil =>
    have start : (encode []).length = 0 := rfl
    rw [start]
    show some [separator] = some (encode "/".toList)
    rfl
  | cons c before =>
    -- The offset is not that of a leading separator, since a character has at least one byte.
    obtain ⟨first, rest, spelled, -⟩ := Utf8.exists_first_encodeChar c
    have nonempty : (encode (c :: before)).length = (rest ++ encode before).length + 1 := by
      rw [Utf8.encode_cons, spelled]
      rfl
    have upTo := slice?_encode_start (c :: before) ('/' :: after)
    rw [nonempty] at upTo ⊢
    exact upTo.trans (by rw [String.toList_ofList])

theorem fileName_encode (text : String) :
    fileName (encode text.toList) = some (encode (Spelling.fileName text).toList) := by
  rw [fileName, Spelling.fileName]
  rcases Spelling.cutLast_spec text.toList with ⟨free, cut⟩ | ⟨before, after, whole, free, cut⟩
  · rw [cut, lastSeparator_free (mt Utf8.separator_mem_encode.1 free)]
  rw [cut, whole, lastSeparator_encode free]
  exact (slice?_encode_past before after).trans (by rw [String.toList_ofList])

/-! ## A separator after a beginning -/

/-- What follows a beginning is a separator just if the beginning and a
separator are a beginning. -/
theorem separator_after {start text : Bytes} (h : start <+: text) :
    text[start.length]? = some separator ↔ start ++ [separator] <+: text := by
  obtain ⟨rest, rfl⟩ := h
  rw [List.getElem?_append_right (Nat.le_refl _), Nat.sub_self, List.prefix_append_right_inj]
  cases rest <;> simp [eq_comm]

/-- The byte that is looked at is there, and tells what the comparison of texts does. -/
theorem isPrefixOf_encode (start text : String) :
    isPrefixOf (encode start.toList) (encode text.toList) =
    some (Spelling.isPrefixOf start text) := by
  have atRoot : encode start.toList = [separator] ↔ start = "/" :=
    ⟨fun e => String.toList_inj.1 (Utf8.encode_injective (b := ['/']) e), fun e => by rw [e]; rfl⟩
  have same : encode text.toList = encode start.toList ↔ start = text :=
    ⟨fun e => String.toList_inj.1 (Utf8.encode_injective e.symm), fun e => by rw [e]⟩
  have followed : encode start.toList ++ [separator] <+: encode text.toList ↔
      start.toList ++ ['/'] <+: text.toList := by
    rw [← Utf8.encode_prefix_iff, encode_append]
    rfl
  rw [isPrefixOf, Spelling.isPrefixOf]
  by_cases h₁ : start = "/"
  · rw [if_pos (atRoot.2 h₁), h₁]
    rfl
  rw [if_neg (mt atRoot.1 h₁), beq_false_of_ne h₁, Bool.false_or]
  by_cases h₂ : start = text
  · rw [if_pos (same.2 h₂), h₂, beq_self_eq_true, Bool.true_or]
  rw [if_neg (mt same.1 h₂), beq_false_of_ne h₂, Bool.false_or]
  by_cases begins : (encode start.toList).length < (encode text.toList).length ∧
      encode start.toList <+: encode text.toList
  · rw [if_pos begins, List.getElem?_eq_getElem begins.1, Option.map_some, Option.some.injEq,
      Bool.eq_iff_iff, beq_iff_eq, List.isPrefixOf_iff_prefix, ← followed,
      ← separator_after begins.2,
      List.getElem?_eq_getElem begins.1, Option.some.injEq]
  · rw [if_neg begins, Option.some.injEq, eq_comm, Bool.eq_false_iff, ne_eq,
      List.isPrefixOf_iff_prefix, ← followed]
    intro longer
    refine begins ⟨?_, (List.prefix_append ..).trans longer⟩
    have := longer.length_le
    rw [List.length_append, List.length_singleton] at this
    omega

/-! ## The loop -/

theorem idxOf?_append {a : Bytes} (h : separator ∉ a) (b : Bytes) :
    (a ++ separator :: b).idxOf? separator = some a.length := by
  induction a with
  | nil => rfl
  | cons c a ih =>
    rw [List.mem_cons, not_or] at h
    rw [List.cons_append, List.idxOf?_cons, beq_false_of_ne (Ne.symm h.1), ih h.2]
    rfl

/-- The loop ends where no separator follows. -/
theorem ancestorsFrom_last {text rest : Bytes} {offset : Nat}
    (slice : slice? text (offset + 1) text.length = some rest) (free : separator ∉ rest) :
    ancestorsFrom text offset = some [] := by
  rw [ancestorsFrom]
  split
  next refused =>
    rw [slice] at refused
    cases refused
  next rest' slice' =>
    rw [slice] at slice'
    cases slice'
    rw [List.idxOf?_eq_none_iff.2 free]

/-- One turn of the loop goes on to the next separator. -/
theorem ancestorsFrom_next {text a b inner : Bytes} {longer : List Bytes} {offset : Nat}
    (slice : slice? text (offset + 1) text.length = some (a ++ separator :: b))
    (free : separator ∉ a) (cut : slice? text 0 (offset + a.length + 1) = some inner)
    (later : ancestorsFrom text (offset + a.length + 1) = some longer) :
    ancestorsFrom text offset = some (inner :: longer) := by
  rw [ancestorsFrom]
  split
  next refused =>
    rw [slice] at refused
    cases refused
  next rest slice' =>
    rw [slice] at slice'
    cases slice'
    rw [idxOf?_append free]
    dsimp only
    rw [cut, later]

/-- From one separator on, the loop finds what ends before the later ones. -/
theorem ancestorsFrom_encode (after : List Char) : ∀ before : List Char,
    ancestorsFrom (encode (before ++ '/' :: after)) (encode before).length =
      some ((Spelling.beginnings after).map fun inner => encode (before ++ '/' :: inner)) := by
  induction after using cutInduction (x := '/') with
  | free l free =>
    intro before
    rw [ancestorsFrom_last (slice?_encode_past before l) (mt Utf8.separator_mem_encode.1 free),
      Spelling.beginnings_free free]
    rfl
  | cut l m free ih =>
    intro before
    have whole : before ++ '/' :: (l ++ '/' :: m) = (before ++ '/' :: l) ++ '/' :: m := by simp
    have offset : (encode (before ++ '/' :: l)).length =
        (encode before).length + (encode l).length + 1 := by
      rw [encode_append, encode_separator_cons, List.length_append, List.length_cons]
      omega
    have rest := slice?_encode_past before (l ++ '/' :: m)
    rw [encode_append l, encode_separator_cons] at rest
    have inner := slice?_encode_start (before ++ '/' :: l) ('/' :: m)
    have later := ih (before ++ '/' :: l)
    rw [← whole, offset] at inner later
    rw [ancestorsFrom_next rest (mt Utf8.separator_mem_encode.1 free) inner later,
      Spelling.beginnings_append, Spelling.beginnings_free free, List.nil_append, List.map_cons,
      List.map_map]
    simp [Function.comp_def]

/-- The loop on a text that begins with a separator, as spellings do. -/
theorem strictAncestors_encode (p : Path) :
    strictAncestors (encode p.toText.toList) =
      some ((Spelling.strictAncestors p.toText).map fun a => encode a.toList) := by
  obtain ⟨rest, begins⟩ := p.spelling_eq_cons
  rw [strictAncestors, Spelling.strictAncestors, Path.toText, String.toList_ofList, begins]
  have found := ancestorsFrom_encode rest []
  refine found.trans ?_
  simp [Function.comp_def]

end Offsets

/-- The texts that reach one another at a separator are ordered as the paths that
lie above one another. -/
theorem Spelling.isPartialOrder :
    IsPartialOrder Path fun p q => Spelling.isPrefixOf p.toText q.toText = true := by
  simp only [Spelling.isPrefixOf_toText]
  exact { refl := Path.isPrefixOf_self
          trans := fun _ _ _ => Path.isPrefixOf_trans
          antisymm := fun _ _ => Path.isPrefixOf_antisymm }

/-- **Spellings answer for segments.** On normal spellings one text reaches another just if its
segments begin those of the other, which is a partial order with the root below all; the texts
around the last separator are those of the segments but the last and of the last; and the beginnings
before inner separators are the paths strictly between the root and the path, the shallowest first.
The cuts at byte offsets give the same answers: no slice is out of range or inside a character, and
the loop comes to its end. -/
theorem Spelling.answers_by_segments (p q : Path) :
    (isPrefixOf p.toText q.toText = true ↔ p.segments <+: q.segments) ∧
    IsPartialOrder Path (fun a b => isPrefixOf a.toText b.toText = true) ∧
    isPrefixOf "/" p.toText = true ∧
    parent p.toText = (Path.mk p.segments.dropLast).toText ∧
    fileName p.toText = (p.segments.getLast?.map (·.text)).getD "" ∧
    strictAncestors p.toText =
      (List.range (p.segments.length - 1)).map
        (fun n => (Path.mk (p.segments.take (n + 1))).toText) ∧
    (∀ a : Path, a.toText ∈ strictAncestors p.toText ↔
      a.segments <+: p.segments ∧ a.segments ≠ p.segments ∧ a.segments ≠ []) ∧
    Offsets.isPrefixOf (Utf8.encode p.toText.toList) (Utf8.encode q.toText.toList) =
      some (isPrefixOf p.toText q.toText) ∧
    Offsets.parent (Utf8.encode p.toText.toList) = some (Utf8.encode (parent p.toText).toList) ∧
    Offsets.fileName (Utf8.encode p.toText.toList) = some (Utf8.encode (fileName p.toText).toList) ∧
    Offsets.strictAncestors (Utf8.encode p.toText.toList) =
      some ((strictAncestors p.toText).map fun a => Utf8.encode a.toList) := by
  refine ⟨?above, isPartialOrder, ?least, parent_toText p, fileName_toText p, ?list, ?members,
    Offsets.isPrefixOf_encode .., Offsets.parent_encode .., Offsets.fileName_encode ..,
    Offsets.strictAncestors_encode p⟩
  case above => rw [isPrefixOf_toText, Path.isPrefixOf_iff_prefix]
  case least => exact (isPrefixOf_toText .root p).trans (Path.root_isPrefixOf p)
  case list =>
    rw [strictAncestors_toText, Path.strictAncestors, List.map_map]
    rfl
  case members =>
    intro a
    have segments : ∀ b : Path, a.segments = b.segments ↔ a = b :=
      fun b => ⟨Path.ext_segments, congrArg _⟩
    rw [strictAncestors_toText, List.mem_map_of_injective (fun _ _ => Path.toText_injective),
      Path.mem_strictAncestors, Path.isPrefixOf_iff_prefix, ne_eq, ← segments, ne_eq, ← segments]
    rfl

end MountSpace
