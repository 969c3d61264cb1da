import MountSpace.Proofs.Separators
import MountSpace.Proofs.Spelling

/-!
# The normal form of a byte path

A byte path leads through names: it is cut at its separators while it is still bytes, empty and `.`
pieces are passed over, `..` takes the last name back, and any other piece is shown as text. The
path that a byte string names is cut after it is shown as text, and has the same names, because
showing makes neither a separator nor a piece of dots.

- `Path.names`: the names that a byte path leads through.
- `Path.texts_walk`: to follow a spelling from a path is to follow its bytes from
  the names of the path.
- `Path.toText_eq_intercalate`, `Path.pieces_spelling`: the normal spelling is its names
  with separators between.
- `Path.ofBytes_normal_form`: the spelling of what a byte path names is normal, and is the same
  just for the same names.
-/

namespace MountSpace.Path

/-- The names of the steps from the root to an entry. -/
def texts (p : Path) : List String := p.segments.map (·.text)

/-- Follows one piece of a byte path from the names so far. -/
def follow (taken : List String) (piece : Bytes) : List String :=
  if piece = [] ∨ piece = [0x2E] then taken
  else if piece = [0x2E, 0x2E] then taken.dropLast
  else taken ++ [String.ofList (Utf8.decodeLossy piece)]

/-- Follows a byte path from the names so far. -/
def names (taken : List String) (bytes : Bytes) : List String :=
  (bytes.splitOn Utf8.separator).foldl follow taken

/-! ## Bytes and names -/

theorem names_free {bytes : Bytes} (h : Utf8.separator ∉ bytes) (taken : List String) :
    names taken bytes = follow taken bytes := by
  rw [names, List.splitOn_eq_singleton h]
  rfl

/-- What follows a separator is followed from the names before it. -/
theorem names_append_separator (taken : List String) (a b : Bytes) :
    names taken (a ++ Utf8.separator :: b) = names (names taken a) b := by
  rw [names, List.splitOn_append_cons_self, List.foldl_append]
  rfl

theorem ofList_decodeLossy_eq_iff {bytes : Bytes} {text : String} (plain : '\uFFFD' ∉ text.toList) :
    String.ofList (Utf8.decodeLossy bytes) = text ↔ bytes = Utf8.encode text.toList := by
  rw [← Utf8.decodeLossy_eq_iff plain, ← String.toList_inj, String.toList_ofList]

/-- Text pieces are followed as the bytes that they were shown for. -/
theorem step_decodeLossy {piece : Bytes} (free : Utf8.separator ∉ piece) (taken : List Segment) :
    (step taken (Utf8.decodeLossy piece)).reverse.map (·.text) =
    follow (taken.reverse.map (·.text)) piece := by
  have none : String.ofList (Utf8.decodeLossy piece) = "" ↔ piece = [] :=
    ofList_decodeLossy_eq_iff (by decide)
  have one : String.ofList (Utf8.decodeLossy piece) = "." ↔ piece = [0x2E] :=
    ofList_decodeLossy_eq_iff (by decide)
  have two : String.ofList (Utf8.decodeLossy piece) = ".." ↔ piece = [0x2E, 0x2E] :=
    ofList_decodeLossy_eq_iff (by decide)
  have whole : '/' ∉ (String.ofList (Utf8.decodeLossy piece)).toList := by
    rw [String.toList_ofList, Utf8.separator_mem_decodeLossy]
    exact free
  simp only [step, follow]
  by_cases passed : piece = [] ∨ piece = [0x2E]
  · have notSegment : ¬IsSegment (String.ofList (Utf8.decodeLossy piece)) := fun valid =>
      passed.elim (fun e => valid.1 (none.2 e)) (fun e => valid.2.1 (one.2 e))
    have notUp : String.ofList (Utf8.decodeLossy piece) ≠ ".." := fun e => by
      rcases passed with h | h <;> exact absurd (h.symm.trans (two.1 e)) (by decide)
    rw [if_pos passed, dif_neg notSegment, if_neg notUp]
  rw [if_neg passed]
  by_cases up : piece = [0x2E, 0x2E]
  · rw [if_pos up, dif_neg fun valid => valid.2.2.1 (two.2 up), if_pos (two.2 up)]
    simp
  · have valid : IsSegment (String.ofList (Utf8.decodeLossy piece)) :=
      ⟨fun e => passed (.inl (none.1 e)), fun e => passed (.inr (one.1 e)),
        fun e => up (two.1 e), whole⟩
    rw [if_neg up, dif_pos valid]
    simp

/-- To follow a byte path as text is to follow its pieces as bytes. -/
theorem foldl_step_pieces (bytes : Bytes) : ∀ taken : List Segment,
    ((pieces (Utf8.decodeLossy bytes)).foldl step taken).reverse.map (·.text) =
      names (taken.reverse.map (·.text)) bytes := by
  induction bytes using cutInduction (x := Utf8.separator) with
  | free l free =>
    intro taken
    rw [pieces_free (mt Utf8.separator_mem_decodeLossy.1 free), List.foldl_cons, List.foldl_nil,
      step_decodeLossy free, names_free free]
  | cut l m free ih =>
    intro taken
    rw [Utf8.decodeLossy_append_separator, pieces_append (mt Utf8.separator_mem_decodeLossy.1 free),
      List.foldl_cons, ih, step_decodeLossy free, names_append_separator, names_free free]

/-- The path that bytes lead to from another one has the names that they lead through. -/
theorem texts_walk (p : Path) (bytes : Bytes) :
    (p.walk (Utf8.decodeLossy bytes)).texts = names p.texts bytes := by
  rw [walk, texts, foldl_step_pieces, List.reverse_reverse, texts]

theorem texts_ofBytes (bytes : Bytes) : (ofBytes bytes).texts = names [] bytes :=
  texts_walk root bytes

theorem texts_injective {p q : Path} (h : p.texts = q.texts) : p = q :=
  ext_segments (List.map_inj_right (fun _ _ => Segment.ext_text) |>.1 h)

/-! ## Names and the normal spelling -/

/-- A separator before each name is separators between the names, and one before them all. -/
theorem spelled_cons_eq_intercalate (s : Segment) (l : List Segment) :
    spelled (s :: l) = '/' :: ['/'].intercalate ((s :: l).map fun r => r.text.toList) := by
  induction l generalizing s with
  | nil => simp [spelled]
  | cons t l ih =>
    rw [spelled, List.flatMap_cons, ← spelled, ih, List.map_cons, List.map_cons, List.map_cons,
      List.intercalate_cons_cons, List.append_assoc]
    rfl

theorem toText_eq_intercalate (p : Path) : p.toText = "/" ++ "/".intercalate p.texts := by
  rw [← String.toList_inj, toText, String.toList_ofList, String.toList_append,
    String.toList_intercalate, texts, List.map_map]
  obtain ⟨_ | ⟨s, l⟩⟩ := p
  · rfl
  · exact spelled_cons_eq_intercalate s l

/-- After its leading separator a normal spelling is nothing, or pieces that can
each name an entry. -/
theorem pieces_spelling (p : Path) : ∃ rest, p.spelling = '/' :: rest ∧
    (rest = [] ∨ ∀ piece ∈ rest.splitOn '/', IsSegment (String.ofList piece)) := by
  obtain ⟨_ | ⟨s, l⟩⟩ := p
  · exact ⟨[], rfl, .inl rfl⟩
  · refine ⟨s.text.toList ++ spelled l, rfl, .inr ?_⟩
    rw [← pieces_eq_splitOn, pieces_spelled l s.valid.2.2.2]
    intro piece mem
    rw [← List.map_cons (f := fun r : Segment => r.text.toList)] at mem
    obtain ⟨r, -, rfl⟩ := List.mem_map.1 mem
    rw [String.ofList_toList]
    exact r.valid

/-- Only the spelling of the root ends in a separator. -/
theorem getLast?_spelling {p : Path} (h : p ≠ root) : p.spelling.getLast? ≠ some '/' := by
  obtain ⟨q, s, rfl⟩ := (root_or_child p).resolve_left h
  have named : s.text.toList ≠ [] := fun e => s.valid.1 (String.toList_inj.1 e)
  rw [spelling_child, List.getLast?_append, List.getLast?_cons_of_ne_nil named,
    List.getLast?_eq_some_getLast named, Option.some_or, ne_eq, Option.some.injEq]
  exact fun last => s.valid.2.2.2 (last ▸ List.getLast_mem named)

/-- **Normal form.** What a byte path names is spelled with a leading separator, without empty
pieces and pieces of dots and without a trailing separator; the spelling leads through the names
that the byte path does, so that it is its own normal spelling; byte paths have one normal
spelling just if they lead through the same names; and what follows a separator is followed from
the names before it. -/
theorem ofBytes_normal_form (bytes : Bytes) :
    (∃ rest, (ofBytes bytes).toText.toList = '/' :: rest ∧
      (rest = [] ∨ ∀ piece ∈ rest.splitOn '/', piece ≠ [] ∧ piece ≠ ['.'] ∧ piece ≠ ['.', '.'])) ∧
    ((ofBytes bytes).toText = "/" ∨ (ofBytes bytes).toText.toList.getLast? ≠ some '/') ∧
    (ofBytes bytes).texts = names [] bytes ∧
    (ofBytes bytes).toText = "/" ++ "/".intercalate (names [] bytes) ∧
    (ofBytes (Utf8.encode (ofBytes bytes).toText.toList)).texts = (ofBytes bytes).texts ∧
    (ofBytes (Utf8.encode (ofBytes bytes).toText.toList)).toText = (ofBytes bytes).toText ∧
    (∀ other, (ofBytes other).toText = (ofBytes bytes).toText ↔
      (ofBytes other).texts = (ofBytes bytes).texts) ∧
    ∀ more, (ofBytes (bytes ++ Utf8.separator :: more)).texts =
    names (ofBytes bytes).texts more := by
  have again : ofBytes (Utf8.encode (ofBytes bytes).toText.toList) = ofBytes bytes := by
    rw [toText, String.toList_ofList, ofBytes_spelling]
  refine ⟨?pieces, ?trailing, texts_ofBytes bytes, ?spelled, congrArg texts again,
    congrArg toText again, ?same, ?more⟩
  case pieces =>
    obtain ⟨rest, spelled, pieces⟩ := (ofBytes bytes).pieces_spelling
    refine ⟨rest,
      by rw [toText, String.toList_ofList, spelled], pieces.imp_right fun valid piece mem => ?_⟩
    obtain ⟨empty, dot, dots, -⟩ := valid piece mem
    exact ⟨fun e => empty (by rw [e]), fun e => dot (by rw [e]), fun e => dots (by rw [e])⟩
  case trailing =>
    by_cases h : ofBytes bytes = root
    · exact .inl (by rw [h, toText_root])
    · exact .inr (by rw [toText, String.toList_ofList]; exact getLast?_spelling h)
  case spelled => rw [toText_eq_intercalate, texts_ofBytes]
  case same =>
    intro other
    rw [toText_inj]
    exact ⟨congrArg texts, texts_injective⟩
  case more =>
    intro more
    rw [texts_ofBytes, names_append_separator, texts_ofBytes]

/-- An ill-formed byte does not make a piece of dots. -/
example : names [] [0x61, 0x2F, 0x2E, 0x2E, 0x2F, 0x2F, 0x2E, 0xFF, 0x2F, 0x2E] = [".\uFFFD"] := by
  decide +kernel

end MountSpace.Path
