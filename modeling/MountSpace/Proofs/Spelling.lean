import MountSpace.Path.Spelling
import MountSpace.Proofs.Path

/-!
# Spellings that continue one another

Away from the root the spelling of a continuation is one spelling after the other, and a spelling
reaches another one at a separator just if its path lies above the other path: names that begin
alike do not matter, because a name is followed by a separator or by nothing.

- `Path.toText_append`: the spelling of a path that continues another one.
- `Path.prefix_of_spelled`: what a cut at a separator says about the segments.
- `Spelling.cutLast_spec`, `beginnings_append`: where the last separator and all
  separators cut a text.
- `Spelling.parent_toText`, `fileName_toText`, `strictAncestors_toText`, `isPrefixOf_toText`: on
  normal spellings the answers of the texts are those of the segments.
-/

namespace MountSpace

namespace Path

variable {p q k : Path}

theorem isPrefixOf_iff_prefix : p.isPrefixOf q = true ↔ p.segments <+: q.segments := by
  rw [isPrefixOf, List.isPrefixOf_iff_prefix]

@[simp] theorem toText_root : root.toText = "/" := rfl

theorem toText_inj : p.toText = q.toText ↔ p = q := ⟨toText_injective, fun h => h ▸ rfl⟩

theorem spelled_append (a b : List Segment) : spelled (a ++ b) = spelled a ++ spelled b :=
  List.flatMap_append ..

theorem spelling_of_ne_root (h : p ≠ root) : p.spelling = spelled p.segments := by
  obtain ⟨_ | ⟨s, l⟩⟩ := p
  · exact absurd rfl h
  · rfl

/-- A spelling begins with a separator. -/
theorem spelling_eq_cons (p : Path) : ∃ rest, p.spelling = '/' :: rest := by
  obtain ⟨_ | ⟨s, l⟩⟩ := p
  · exact ⟨[], rfl⟩
  · exact ⟨s.text.toList ++ spelled l, rfl⟩

theorem spelling_append (hp : p ≠ root) (hk : k ≠ root) :
    (p ++ k).spelling = p.spelling ++ k.spelling := by
  have hpk : p ++ k ≠ root := fun e => hp (append_eq_root.1 e).1
  rw [spelling_of_ne_root hpk, spelling_of_ne_root hp, spelling_of_ne_root hk, segments_append,
    spelled_append]

theorem toText_append (hp : p ≠ root) (hk : k ≠ root) : (p ++ k).toText = p.toText ++ k.toText := by
  rw [toText, spelling_append hp hk, String.ofList_append, toText, toText]

/-- Only the spelling of the root is a lone separator. -/
theorem one_lt_utf8ByteSize (h : p ≠ root) : 1 < p.toText.utf8ByteSize := by
  obtain ⟨s, l, rfl⟩ := exists_first h
  have spelled' : (root.child s ++ l).toText
      = String.ofList ['/'] ++ (s.text ++ String.ofList (spelled l.segments)) := by
    rw [toText, spelling_of_ne_root h, ← String.ofList_toList (s := s.text), ← String.ofList_append,
      ← String.ofList_append]
    rfl
  have separator : (String.ofList ['/']).utf8ByteSize = 1 := rfl
  have named : s.text.utf8ByteSize ≠ 0 := fun e => s.valid.1 (String.utf8ByteSize_eq_zero_iff.1 e)
  rw [spelled', String.utf8ByteSize_append, String.utf8ByteSize_append, separator]
  omega

/-- Of two different paths, one above the other, the upper one is spelled in fewer bytes. -/
theorem utf8ByteSize_toText_lt (above : p.isPrefixOf q = true) (ne : p ≠ q) :
    p.toText.utf8ByteSize < q.toText.utf8ByteSize := by
  obtain ⟨k, rfl⟩ := isPrefixOf_iff.1 above
  have hk : k ≠ root := fun e => ne (by rw [e, append_root])
  by_cases hp : p = root
  · rw [hp]
    exact one_lt_utf8ByteSize hk
  · rw [toText_append hp hk, String.utf8ByteSize_append]
    have := one_lt_utf8ByteSize hk
    omega

/-- A name that is followed by a separator ends there. -/
theorem takeWhile_followed (s : Segment) (a : List Segment) (rest : List Char) :
    (s.text.toList ++ (spelled a ++ '/' :: rest)).takeWhile (· ≠ '/') = s.text.toList := by
  have free : ∀ c ∈ s.text.toList, (decide (c ≠ '/')) = true := fun c hc =>
    decide_eq_true fun e => s.valid.2.2.2 (e ▸ hc)
  rw [List.takeWhile_append_of_pos free]
  cases a <;> simp [spelled]

/-- Where a spelling is followed by a separator in another one, its segments begin those of the
other, and more follow. -/
theorem prefix_of_spelled {a b : List Segment} {rest : List Char}
    (h : spelled b = spelled a ++ '/' :: rest) : a <+: b := by
  induction a generalizing b with
  | nil => exact List.nil_prefix
  | cons s as ih =>
    cases b with
    | nil => simp [spelled] at h
    | cons t bs =>
      have h : t.text.toList ++ spelled bs = s.text.toList ++ (spelled as ++ '/' :: rest) := by
        simpa [spelled] using h
      have head : t.text.toList = s.text.toList := by
        rw [← takeWhile_spelled t bs, h, takeWhile_followed]
      have tail : spelled bs = spelled as ++ '/' :: rest := by
        rw [head] at h
        exact List.append_cancel_left h
      rw [Segment.ext_text (String.toList_inj.1 head)]
      exact (List.prefix_cons_inj s).2 (ih tail)

end Path

namespace Spelling

/-! ## The last separator -/

theorem cutLast_free {l : List Char} (h : '/' ∉ l) : cutLast l = none := by
  induction l with
  | nil => rfl
  | cons c l ih =>
    rw [List.mem_cons, not_or] at h
    rw [cutLast, ih h.2]
    exact if_neg (Ne.symm h.1)

theorem cutLast_append {b : List Char} (h : '/' ∉ b) (a : List Char) :
    cutLast (a ++ '/' :: b) = some (a, b) := by
  induction a with
  | nil =>
    rw [List.nil_append, cutLast, cutLast_free h]
    rfl
  | cons c a ih =>
    rw [List.cons_append, cutLast, ih]

/-- A text without a separator is not cut, and any other one is cut where no separator follows. -/
theorem cutLast_spec (l : List Char) :
    '/' ∉ l ∧ cutLast l = none ∨ ∃ a b, l = a ++ '/' :: b ∧ '/' ∉ b ∧ cutLast l = some (a, b) := by
  by_cases h : '/' ∈ l
  · obtain ⟨b, a, e, none⟩ := List.eq_append_cons_of_mem (List.mem_reverse.2 h)
    have whole : l = a.reverse ++ '/' :: b.reverse := by
      rw [← List.reverse_reverse l, e]
      simp
    have free : '/' ∉ b.reverse := mt List.mem_reverse.1 none
    exact .inr ⟨a.reverse, b.reverse, whole, free, by rw [whole, cutLast_append free]⟩
  · exact .inl ⟨h, cutLast_free h⟩

/-- On normal spellings the text before the last separator is that of the directory. -/
theorem parent_toText (p : Path) : parent p.toText = p.parent.toText := by
  rcases Path.root_or_child p with rfl | ⟨q, s, rfl⟩
  · rfl
  rw [Path.parent_child, parent, Path.toText, String.toList_ofList, Path.spelling_child,
    cutLast_append s.valid.2.2.2]
  obtain ⟨_ | ⟨t, l⟩⟩ := q
  · rfl
  · rfl

/-- On normal spellings the text after the last separator is that of the last segment. -/
theorem fileName_toText (p : Path) : fileName p.toText = (p.name?.map (·.text)).getD "" := by
  rcases Path.root_or_child p with rfl | ⟨q, s, rfl⟩
  · rfl
  rw [fileName, Path.toText, String.toList_ofList, Path.spelling_child,
    cutLast_append s.valid.2.2.2]
  simp

/-! ## All separators -/

theorem beginnings_free {l : List Char} (h : '/' ∉ l) : beginnings l = [] := by
  induction l with
  | nil => rfl
  | cons c l ih =>
    rw [List.mem_cons, not_or] at h
    rw [beginnings, ih h.2]
    exact if_neg (Ne.symm h.1)

/-- Around a separator the beginnings are those before it, what is before it, and those after it. -/
theorem beginnings_append (a b : List Char) :
    beginnings (a ++ '/' :: b) = beginnings a ++ a :: (beginnings b).map fun inner =>
    a ++ '/' :: inner := by
  induction a with
  | nil => rfl
  | cons c a ih =>
    rw [List.cons_append, beginnings, beginnings, ih]
    by_cases h : c = '/' <;> simp [h, Function.comp_def]

/-- The beginnings of a normal spelling are nothing and the spellings of the strict ancestors. -/
theorem beginnings_spelling (p : Path) :
    beginnings p.spelling = [] :: p.strictAncestors.map Path.spelling := by
  induction p using Path.childInduction with
  | atRoot => rfl
  | atChild q s ih =>
    rw [Path.spelling_child, beginnings_append, beginnings_free s.valid.2.2.2,
      Path.strictAncestors_child]
    by_cases h : q = .root
    · rw [if_pos h, h]
      rfl
    · rw [if_neg h, ← Path.spelling_of_ne_root h, ih]
      simp

/-- On normal spellings the beginnings before an inner separator are the strict ancestors. -/
theorem strictAncestors_toText (p : Path) :
    strictAncestors p.toText = p.strictAncestors.map Path.toText := by
  obtain ⟨rest, begins⟩ := p.spelling_eq_cons
  have all := beginnings_spelling p
  rw [begins, beginnings, if_pos rfl, List.cons.injEq] at all
  rw [strictAncestors, Path.toText, String.toList_ofList, begins]
  have shown := congrArg (List.map String.ofList) all.2
  rwa [List.map_map, List.map_map] at shown

end Spelling

/-- On normal spellings, a text reaches another one at a separator just if its path
lies above the other. -/
theorem Spelling.isPrefixOf_toText (p q : Path) :
    Spelling.isPrefixOf p.toText q.toText = p.isPrefixOf q := by
  have atRoot : (p.toText == "/") = true ↔ p = .root := by
    rw [beq_iff_eq, ← Path.toText_root, Path.toText_inj]
  have same : (p.toText == q.toText) = true ↔ p = q := by rw [beq_iff_eq, Path.toText_inj]
  rw [Bool.eq_iff_iff, Spelling.isPrefixOf, Bool.or_eq_true, Bool.or_eq_true, atRoot, same,
    List.isPrefixOf_iff_prefix, Path.toText, Path.toText, String.toList_ofList,
    String.toList_ofList]
  constructor
  · rintro ((rfl | rfl) | ⟨rest, cut⟩)
    · exact Path.root_isPrefixOf q
    · exact Path.isPrefixOf_self p
    · rw [List.append_assoc, List.singleton_append] at cut
      by_cases hp : p = .root
      · rw [hp]
        exact Path.root_isPrefixOf q
      have hq : q ≠ .root := by
        rintro rfl
        rw [Path.spelling_of_ne_root hp] at cut
        have := congrArg List.length cut
        obtain ⟨⟨_ | ⟨s, l⟩⟩⟩ := p
        · exact hp rfl
        · simp [Path.spelled, Path.spelling, Path.root] at this
      rw [Path.spelling_of_ne_root hp, Path.spelling_of_ne_root hq] at cut
      exact Path.isPrefixOf_iff_prefix.2 (Path.prefix_of_spelled cut.symm)
  · intro above
    obtain ⟨k, rfl⟩ := Path.isPrefixOf_iff.1 above
    by_cases hp : p = .root
    · exact .inl (.inl hp)
    by_cases hk : k = .root
    · exact .inl (.inr (by rw [hk, Path.append_root]))
    -- What follows begins with a separator.
    obtain ⟨rest, begins⟩ := k.spelling_eq_cons
    refine .inr ⟨rest, ?_⟩
    rw [Path.spelling_append hp hk, begins, List.append_assoc, List.singleton_append]

end MountSpace
