import MountSpace.Path.Basic
import MountSpace.Proofs.Utf8

/-!
# The algebra of paths

A path is either the root or a child, and lies below another one exactly when it continues it.

- `Path.eq_child`, `Path.childInduction`: every path but the root is a child of its parent.
- `Path.isPrefixOf_iff`: a prefix is a path that another one continues (`Path.append`).
- `Path.isPrefixOf_child`: what lies above a child is the child itself or lies above its parent.
- `Path.above_append`, `length_lt_of_isPrefixOf`: paths above one and how long they are.
- `Path.name_lt`: the children of a path are ordered by their names.
- `Path.ofBytes_spelling`: the bytes of the normal spelling name the path.
-/

namespace MountSpace

@[ext] theorem Segment.ext_text {s t : Segment} (h : s.text = t.text) : s = t := by
  cases s; cases t; cases h; rfl

namespace Path

@[ext] theorem ext_segments {p q : Path} (h : p.segments = q.segments) : p = q := by
  cases p; cases q; cases h; rfl

/-! ## Roots and children -/

@[simp] theorem segments_root : root.segments = [] := rfl

@[simp] theorem segments_child (p : Path) (s : Segment) :
    (p.child s).segments = p.segments ++ [s] :=
  rfl

@[simp] theorem segments_append (p q : Path) : (p ++ q).segments = p.segments ++ q.segments := rfl

@[simp] theorem parent_child (p : Path) (s : Segment) : (p.child s).parent = p :=
  ext_segments (List.dropLast_concat ..)

@[simp] theorem name?_child (p : Path) (s : Segment) : (p.child s).name? = some s := by
  simp [name?]

@[simp] theorem parent_root : root.parent = root := rfl

@[simp] theorem name?_root : root.name? = none := rfl

@[simp] theorem child_ne_root (p : Path) (s : Segment) : p.child s ≠ root := by
  intro h
  have := congrArg segments h
  simp at this

theorem child_injective {p q : Path} {s t : Segment} (h : p.child s = q.child t) :
    p = q ∧ s = t := by
  have hp := congrArg parent h
  have hn := congrArg name? h
  rw [parent_child, parent_child] at hp
  rw [name?_child, name?_child] at hn
  exact ⟨hp, Option.some.inj hn⟩

@[simp] theorem child_inj {p q : Path} {s t : Segment} : p.child s = q.child t ↔ p = q ∧ s = t :=
  ⟨child_injective, fun h => by rw [h.1, h.2]⟩

theorem child_ne_self (p : Path) (s : Segment) : p.child s ≠ p := by
  intro h
  have := congrArg (fun q : Path => q.segments.length) h
  simp at this

@[simp] theorem isRoot_iff {p : Path} : p.isRoot = true ↔ p = root := by
  rw [isRoot, List.isEmpty_iff]
  exact ⟨fun h => ext_segments h, fun h => by rw [h]; rfl⟩

/-- A path with a last step is the child of its parent by that step. -/
theorem eq_child {p : Path} {s : Segment} (h : p.name? = some s) : p = p.parent.child s := by
  obtain ⟨before, hb⟩ := List.getLast?_eq_some_iff.1 h
  apply ext_segments
  rw [segments_child, parent, hb, List.dropLast_concat]

theorem name?_eq_none_iff {p : Path} : p.name? = none ↔ p = root := by
  rw [name?, List.getLast?_eq_none_iff]
  exact ⟨fun h => ext_segments h, fun h => by rw [h]; rfl⟩

/-- Only the root has no last step. -/
theorem exists_name {p : Path} (h : p ≠ root) : ∃ s, p.name? = some s := by
  cases hn : p.name? with
  | none => exact absurd (name?_eq_none_iff.1 hn) h
  | some s => exact ⟨s, rfl⟩

/-- Every path is the root or a child. -/
theorem root_or_child (p : Path) : p = root ∨ ∃ (q : Path) (s : Segment), p = q.child s := by
  cases hn : p.name? with
  | none => exact .inl (name?_eq_none_iff.1 hn)
  | some s => exact .inr ⟨_, s, eq_child hn⟩

/-- Induction from the root down, step by step. -/
theorem childInduction {motive : Path → Prop} (atRoot : motive root)
    (atChild : ∀ p s, motive p → motive (p.child s)) (p : Path) : motive p := by
  obtain ⟨l⟩ := p
  suffices h : ∀ r : List Segment, motive ⟨r.reverse⟩ by simpa using h l.reverse
  intro r
  induction r with
  | nil => exact atRoot
  | cons s r ih => simpa [child] using atChild ⟨r.reverse⟩ s ih

/-! ## Continuations -/

@[simp] theorem append_root (p : Path) : p ++ root = p := ext_segments (List.append_nil _)

@[simp] theorem root_append (p : Path) : root ++ p = p := rfl

theorem append_assoc (p q r : Path) : p ++ q ++ r = p ++ (q ++ r) :=
  ext_segments (List.append_assoc ..)

@[simp] theorem append_child (p q : Path) (s : Segment) : p ++ q.child s = (p ++ q).child s :=
  ext_segments (List.append_assoc ..).symm

theorem child_append (p q : Path) (s : Segment) : p.child s ++ q = p ++ (root.child s ++ q) :=
  append_assoc p (root.child s) q

/-- A continuation begins with a step. -/
theorem exists_first {k : Path} (h : k ≠ root) :
    ∃ (s : Segment) (l : Path), k = root.child s ++ l := by
  obtain ⟨_ | ⟨s, l⟩⟩ := k
  · exact absurd rfl h
  · exact ⟨s, ⟨l⟩, rfl⟩

theorem append_cancel {p q r : Path} : p ++ q = p ++ r ↔ q = r := by
  constructor
  · intro h
    exact ext_segments (List.append_cancel_left (congrArg segments h))
  · exact fun h => h ▸ rfl

theorem append_right_cancel {p q r : Path} : p ++ r = q ++ r ↔ p = q := by
  refine ⟨fun h => ext_segments ?_, fun h => by rw [h]⟩
  exact List.append_cancel_right (congrArg segments h)

@[simp] theorem append_eq_left {p q : Path} : p ++ q = p ↔ q = root := by
  conv => lhs; rhs; rw [← append_root p]
  exact append_cancel

@[simp] theorem append_eq_root {p q : Path} : p ++ q = root ↔ p = root ∧ q = root := by
  constructor
  · intro h
    have := congrArg segments h
    simp only [segments_append, segments_root, List.append_eq_nil_iff] at this
    exact ⟨ext_segments this.1, ext_segments this.2⟩
  · rintro ⟨rfl, rfl⟩
    rfl

@[simp] theorem relativeTo_append (p k : Path) : (p ++ k).relativeTo p = k :=
  ext_segments (List.drop_left)

@[simp] theorem relativeTo_self (p : Path) : p.relativeTo p = root := by
  simpa using relativeTo_append p root

theorem isPrefixOf_iff {p q : Path} : p.isPrefixOf q = true ↔ ∃ k : Path, q = p ++ k := by
  rw [isPrefixOf, List.isPrefixOf_iff_prefix]
  constructor
  · rintro ⟨k, hk⟩
    exact ⟨⟨k⟩, ext_segments hk.symm⟩
  · rintro ⟨k, rfl⟩
    exact ⟨k.segments, rfl⟩

@[simp] theorem isPrefixOf_append (p k : Path) : p.isPrefixOf (p ++ k) = true :=
  isPrefixOf_iff.2 ⟨k, rfl⟩

@[simp] theorem isPrefixOf_self (p : Path) : p.isPrefixOf p = true := by
  simpa using isPrefixOf_append p root

@[simp] theorem root_isPrefixOf (p : Path) : root.isPrefixOf p = true := isPrefixOf_append root p

/-- A path above another one and the steps between them. -/
theorem append_relativeTo {p q : Path} (h : p.isPrefixOf q = true) : p ++ q.relativeTo p = q := by
  obtain ⟨k, rfl⟩ := isPrefixOf_iff.1 h
  rw [relativeTo_append]

theorem isPrefixOf_trans {p q r : Path} (h : p.isPrefixOf q = true) (k : q.isPrefixOf r = true) :
    p.isPrefixOf r = true := by
  obtain ⟨a, rfl⟩ := isPrefixOf_iff.1 h
  obtain ⟨b, rfl⟩ := isPrefixOf_iff.1 k
  rw [append_assoc]
  exact isPrefixOf_append ..

theorem isPrefixOf_antisymm {p q : Path} (h : p.isPrefixOf q = true) (k : q.isPrefixOf p = true) :
    p = q := by
  obtain ⟨a, rfl⟩ := isPrefixOf_iff.1 h
  obtain ⟨b, hb⟩ := isPrefixOf_iff.1 k
  rw [append_assoc, eq_comm, append_eq_left, append_eq_root] at hb
  rw [hb.1, append_root]

/-- Above a child lie the child itself and what lies above its parent. -/
theorem isPrefixOf_child {p q : Path} {s : Segment} :
    p.isPrefixOf (q.child s) = true ↔ p = q.child s ∨ p.isPrefixOf q = true := by
  constructor
  · intro h
    obtain ⟨k, hk⟩ := isPrefixOf_iff.1 h
    rcases root_or_child k with rfl | ⟨k, t, rfl⟩
    · exact .inl (by simpa using hk.symm)
    · rw [append_child, child_inj] at hk
      exact .inr (hk.1 ▸ isPrefixOf_append p k)
  · rintro (rfl | h)
    · exact isPrefixOf_self _
    · exact isPrefixOf_trans h (isPrefixOf_iff.2 ⟨root.child s, by rw [append_child, append_root]⟩)

@[simp] theorem isPrefixOf_root {p : Path} : p.isPrefixOf root = true ↔ p = root :=
  ⟨fun h => isPrefixOf_antisymm h (root_isPrefixOf p), fun h => h ▸ isPrefixOf_self _⟩

theorem parent_isPrefixOf (p : Path) : p.parent.isPrefixOf p = true := by
  rcases root_or_child p with rfl | ⟨q, s, rfl⟩
  · exact isPrefixOf_self _
  · rw [parent_child]
    exact isPrefixOf_child.2 (.inr (isPrefixOf_self q))

/-- No path but the root lies above its own parent. -/
theorem not_isPrefixOf_parent {p : Path} (h : p ≠ root) : ¬p.isPrefixOf p.parent = true := by
  rcases root_or_child p with rfl | ⟨q, s, rfl⟩
  · exact absurd rfl h
  · intro hp
    have := isPrefixOf_antisymm hp (parent_isPrefixOf _)
    rw [parent_child] at this
    exact child_ne_self _ _ this

theorem child_not_isPrefixOf (p : Path) (s : Segment) : ¬(p.child s).isPrefixOf p = true := by
  simpa using not_isPrefixOf_parent (child_ne_root p s)

/-- Of two paths above a third one, one lies above the other. -/
theorem isPrefixOf_total {p q r : Path} (h : p.isPrefixOf r = true) (k : q.isPrefixOf r = true) :
    p.isPrefixOf q = true ∨ q.isPrefixOf p = true := by
  rw [isPrefixOf, List.isPrefixOf_iff_prefix] at h k ⊢
  rw [isPrefixOf, List.isPrefixOf_iff_prefix]
  exact List.prefix_or_prefix_of_prefix h k

/-- Above a continuation lie what lies above the path itself and continuations of it. -/
theorem above_append {p q k : Path} (h : p.isPrefixOf (q ++ k) = true) :
    p.isPrefixOf q = true ∨ ∃ l, p = q ++ l ∧ l.isPrefixOf k = true := by
  rcases isPrefixOf_total h (isPrefixOf_append q k) with above | below
  · exact .inl above
  · obtain ⟨l, rfl⟩ := isPrefixOf_iff.1 below
    obtain ⟨r, hr⟩ := isPrefixOf_iff.1 h
    rw [append_assoc, append_cancel] at hr
    exact .inr ⟨l, rfl, hr ▸ isPrefixOf_append l r⟩

/-- A path has no fewer steps than one above it. -/
theorem length_le_of_isPrefixOf {p q : Path} (h : p.isPrefixOf q = true) :
    p.segments.length ≤ q.segments.length := by
  obtain ⟨k, rfl⟩ := isPrefixOf_iff.1 h
  rw [segments_append, List.length_append]
  exact Nat.le_add_right ..

/-- Of two paths above a third one, the one with fewer steps lies above the other. -/
theorem isPrefixOf_of_length_le {p q r : Path} (h : p.isPrefixOf r = true)
    (k : q.isPrefixOf r = true) (le : p.segments.length ≤ q.segments.length) :
    p.isPrefixOf q = true := by
  rw [isPrefixOf, List.isPrefixOf_iff_prefix] at h k ⊢
  exact List.prefix_of_prefix_length_le h k le

/-- Two paths above a third one that have equally many steps are the same. -/
theorem eq_of_isPrefixOf_of_length {p q r : Path} (h : p.isPrefixOf r = true)
    (k : q.isPrefixOf r = true) (e : p.segments.length = q.segments.length) : p = q :=
  isPrefixOf_antisymm (isPrefixOf_of_length_le h k (Nat.le_of_eq e))
    (isPrefixOf_of_length_le k h (Nat.le_of_eq e.symm))

/-- A path has more steps than any other one above it. -/
theorem length_lt_of_isPrefixOf {p q : Path} (h : p.isPrefixOf q = true) (ne : p ≠ q) :
    p.segments.length < q.segments.length := by
  rcases Nat.lt_or_ge p.segments.length q.segments.length with lt | ge
  · exact lt
  · exact absurd (isPrefixOf_antisymm h (isPrefixOf_of_length_le (isPrefixOf_self q) h ge)) ne

/-- The strict ancestors of a path lie above it. -/
theorem above_of_mem_strictAncestors {p a : Path} (h : a ∈ p.strictAncestors) :
    a.isPrefixOf p = true ∧ a ≠ p := by
  rw [strictAncestors, List.mem_map] at h
  obtain ⟨n, hn, rfl⟩ := h
  rw [List.mem_range] at hn
  refine ⟨isPrefixOf_iff.2 ⟨⟨p.segments.drop (n + 1)⟩,
    ext_segments (List.take_append_drop ..).symm⟩, ?_⟩
  intro e
  have := congrArg (fun q : Path => q.segments.length) e
  simp only [List.length_take] at this
  omega

/-- The strict ancestors of a path are the paths above it, apart from the root
and the path itself. -/
theorem mem_strictAncestors {p a : Path} :
    a ∈ p.strictAncestors ↔ a.isPrefixOf p = true ∧ a ≠ p ∧ a ≠ root := by
  constructor
  · intro mem
    obtain ⟨above, ne⟩ := above_of_mem_strictAncestors mem
    refine ⟨above, ne, ?_⟩
    rintro rfl
    rw [strictAncestors, List.mem_map] at mem
    obtain ⟨n, hn, e⟩ := mem
    rw [List.mem_range] at hn
    have := congrArg (fun q : Path => q.segments.length) e
    simp only [List.length_take, segments_root, List.length_nil] at this
    omega
  · rintro ⟨above, ne, nonroot⟩
    have shorter := length_lt_of_isPrefixOf above ne
    have longer : 0 < a.segments.length :=
      List.length_pos_iff.2 fun e => nonroot (ext_segments e)
    obtain ⟨k, rfl⟩ := isPrefixOf_iff.1 above
    rw [strictAncestors, List.mem_map]
    refine ⟨a.segments.length - 1, List.mem_range.2 (by omega), ext_segments ?_⟩
    rw [Nat.sub_add_cancel longer, segments_append, List.take_left]

/-- Strictly above an entry lie its directory, unless that is the root, and what lies
strictly above that. -/
theorem strictAncestors_child (p : Path) (s : Segment) :
    (p.child s).strictAncestors = if p = root then [] else p.strictAncestors ++ [p] := by
  rw [strictAncestors, segments_child, List.length_append, List.length_singleton,
    Nat.add_sub_cancel]
  by_cases e : p = root
  · rw [if_pos e, e]
    rfl
  · obtain ⟨k, hk⟩ : ∃ k, p.segments.length = k + 1 :=
      Nat.exists_eq_succ_of_ne_zero fun none => e (ext_segments (List.length_eq_zero_iff.1 none))
    rw [if_neg e, hk, List.range_succ, List.map_append, List.map_singleton, strictAncestors, hk,
      Nat.add_sub_cancel]
    congr 1
    · refine List.map_congr_left fun n hn => congrArg Path.mk ?_
      exact List.take_append_of_le_length (by have := List.mem_range.1 hn; omega)
    · refine congrArg (fun q => [q]) (ext_segments ?_)
      show (p.segments ++ [s]).take (k + 1) = p.segments
      rw [List.take_left' hk]

/-! ## The order of siblings -/

theorem append_lt_append_left {l m n : List Char} (h : l ++ m < l ++ n) : m < n := by
  induction l with
  | nil => exact h
  | cons c l ih => exact ih (List.cons_lt_cons_self.1 h)

/-- The name of an entry comes after the separator that comes after its directory. -/
theorem spelling_child (p : Path) (s : Segment) :
    (p.child s).spelling = spelled p.segments ++ '/' :: s.text.toList := by
  obtain ⟨_ | ⟨a, l⟩⟩ := p <;> simp [spelling, spelled, child]

/-- Spellings of the entries of one directory ascend as the names of the entries do. -/
theorem name_lt {p : Path} {s s' : Segment} (h : p.child s < p.child s') : s.text < s'.text := by
  have h : (p.child s).spelling < (p.child s').spelling := h
  rw [spelling_child, spelling_child] at h
  exact List.cons_lt_cons_self.1 (append_lt_append_left h)

/-! ## Reading the normal spelling -/

/-- A piece goes up to the next separator. -/
theorem pieces_append {l : List Char} (h : '/' ∉ l) (m : List Char) :
    pieces (l ++ '/' :: m) = l :: pieces m := by
  induction l with
  | nil => rw [List.nil_append, pieces, if_pos rfl]
  | cons c l ih =>
    rw [List.mem_cons, not_or] at h
    rw [List.cons_append, pieces, if_neg (Ne.symm h.1), ih h.2]

theorem pieces_free {l : List Char} (h : '/' ∉ l) : pieces l = [l] := by
  induction l with
  | nil => rfl
  | cons c l ih =>
    rw [List.mem_cons, not_or] at h
    rw [pieces, if_neg (Ne.symm h.1), ih h.2]

theorem pieces_spelled (rest : List Segment) {l : List Char} (h : '/' ∉ l) :
    pieces (l ++ spelled rest) = l :: rest.map fun s => s.text.toList := by
  induction rest generalizing l with
  | nil => rw [spelled, List.flatMap_nil, List.append_nil, pieces_free h, List.map_nil]
  | cons s rest ih =>
    rw [spelled, List.flatMap_cons, List.cons_append, pieces_append h]
    exact congrArg (l :: ·) (ih s.valid.2.2.2)

theorem step_segment (taken : List Segment) (s : Segment) :
    step taken s.text.toList = s :: taken := by
  simp only [step, String.ofList_toList]
  rw [dif_pos s.valid]

theorem foldl_step (taken : List Segment) (l : List Segment) :
    (l.map fun s => s.text.toList).foldl step taken = l.reverse ++ taken := by
  induction l generalizing taken with
  | nil => rfl
  | cons s l ih => rw [List.map_cons, List.foldl_cons, step_segment, ih, List.reverse_cons,
      List.append_assoc, List.singleton_append]

@[simp] theorem walk_spelling (p : Path) : root.walk p.spelling = p := by
  have empty : ∀ taken, step taken [] = taken := fun taken => by rfl
  obtain ⟨_ | ⟨s, l⟩⟩ := p
  · rfl
  · apply ext_segments
    show ((pieces ([] ++ spelled (s :: l))).foldl step []).reverse = s :: l
    rw [pieces_spelled _ List.not_mem_nil, List.foldl_cons, empty, foldl_step, List.append_nil,
      List.reverse_reverse]

/-- The normal spelling names the path. -/
@[simp] theorem ofText_toText (p : Path) : ofText p.toText = p := by
  rw [ofText, toText, String.toList_ofList, walk_spelling]

/-- The bytes of the normal spelling name the path. -/
@[simp] theorem ofBytes_spelling (p : Path) : ofBytes (Utf8.encode p.spelling) = p := by
  rw [ofBytes, Utf8.decodeLossy_encode, walk_spelling]

end Path

end MountSpace
