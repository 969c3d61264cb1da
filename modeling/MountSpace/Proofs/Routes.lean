import MountSpace.MountTable
import MountSpace.Proofs.Path
import MountSpace.Proofs.SortedMap

/-!
# Where a mount table leads

The mount that owns a path is the one with the longest path above it, and so a path is known by the
backend that owns it and the path inside that backend, as long as no backend is mounted twice.

- `MountTable.owner?_eq_some_iff`, `owner?_eq_none_iff`: the mount that owns a path.
- `MountTable.resolve_cases`: the two ways in which a table finds where a path leads;
  `resolve_congr`: the mounts above a path and the implicit root decide.
- `MountTable.Valid`: no backend is mounted twice. Tables that are built by insertions and removals
  are valid (`Valid.insert`, `Valid.remove`).
- `MountTable.relative_of_isMountPoint`: a mount point is the root of what is mounted there.
- `MountTable.resolve_child`, `resolve_parent`: any other path is in the backend of
  the directory above it.
- `MountTable.mem_childMounts`, `hasMountBeneath_iff`: the mounts inside and below a directory.
- `MountTable.isClear_iff`, `IsClear.resolve_append`: a path at which and below
  which nothing is mounted.
- `MountTable.Valid.resolve_injective`: no two paths lead to the same path in the same backend.
-/

namespace MountSpace

namespace MountTable

variable {t t' : MountTable} {p q : Path} {b c : BackendId} {name : String}

/-! ## The owner of a path -/

/-- The longest of some mounts and a first one. -/
theorem foldl_longer (l : List (Path × BackendId)) (start : Option (Path × BackendId)) :
    (l.foldl longer start = none → start = none ∧ l = []) ∧
      ∀ m, l.foldl longer start = some m → (start = some m ∨ m ∈ l) ∧
        (∀ x, start = some x ∨ x ∈ l → x.1.segments.length ≤ m.1.segments.length) := by
  induction l generalizing start with
  | nil => exact ⟨fun h => ⟨h, rfl⟩, fun m h => ⟨.inl h, fun x hx => by
      rcases hx with hx | hx
      · cases hx.symm.trans h
        exact Nat.le_refl _
      · cases hx⟩⟩
  | cons e l ih =>
    obtain ⟨none', some'⟩ := ih (longer start e)
    -- One mount is compared with the best so far; what wins is no shorter than either.
    have better : ∃ x, longer start e = some x ∧ (start = some x ∨ x = e) ∧
        e.1.segments.length ≤ x.1.segments.length ∧
        ∀ y, start = some y → y.1.segments.length ≤ x.1.segments.length := by
      cases start with
      | none => exact ⟨e, rfl, .inr rfl, Nat.le_refl _, nofun⟩
      | some y =>
        by_cases lt : e.1.segments.length < y.1.segments.length
        · refine ⟨y, if_pos lt, .inl rfl, Nat.le_of_lt lt, fun z hz => ?_⟩
          cases hz
          exact Nat.le_refl _
        · refine ⟨e, if_neg lt, .inr rfl, Nat.le_refl _, fun z hz => ?_⟩
          cases hz
          exact Nat.le_of_not_lt lt
    obtain ⟨x, hx, source, longest, longest'⟩ := better
    refine ⟨fun h => ?_, fun m h => ?_⟩
    · exact absurd (hx.symm.trans (none' h).1) nofun
    · obtain ⟨found, bound⟩ := some' m h
      have above := bound x (.inl hx)
      refine ⟨?_, fun y hy => ?_⟩
      · rcases found with found | found
        · cases hx.symm.trans found
          rcases source with source | rfl
          · exact .inl source
          · exact .inr List.mem_cons_self
        · exact .inr (List.mem_cons_of_mem _ found)
      · rcases hy with hy | hy
        · exact Nat.le_trans (longest' y hy) above
        · rcases List.mem_cons.1 hy with rfl | hy
          · exact Nat.le_trans longest above
          · exact bound y (.inr hy)

theorem mem_candidates {m : Path × BackendId} :
    m ∈ (t.mounts.toList.filter fun m => m.1.isPrefixOf p) ↔
      t.mounts.get? m.1 = some m.2 ∧ m.1.isPrefixOf p = true := by
  rw [List.mem_filter, SortedMap.get?_eq_some_iff]

/-- The owner of a path is a mount above it, and no mount above it is longer. -/
theorem owner?_some {m : Path × BackendId} (h : t.owner? p = some m) :
    t.mounts.get? m.1 = some m.2 ∧ m.1.isPrefixOf p = true ∧
      ∀ q, t.isMountPoint q = true → q.isPrefixOf p = true →
      q.segments.length ≤ m.1.segments.length := by
  obtain ⟨found, longest⟩ := (foldl_longer _ none).2 m h
  obtain ⟨mounted, above⟩ := mem_candidates.1 (found.resolve_left nofun)
  refine ⟨mounted, above, fun q hq hp => ?_⟩
  obtain ⟨b, hb⟩ := SortedMap.contains_iff.1 hq
  exact longest (q, b) (.inr (mem_candidates.2 ⟨hb, hp⟩))

/-- A path without an owner lies at or below no mount. -/
theorem owner?_none (h : t.owner? p = none) (mounted : t.isMountPoint q = true) :
    ¬q.isPrefixOf p = true := by
  intro above
  obtain ⟨b, hb⟩ := SortedMap.contains_iff.1 mounted
  have := List.eq_nil_iff_forall_not_mem.1 ((foldl_longer _ none).1 h).2 (q, b)
  exact this (mem_candidates.2 ⟨hb, above⟩)

/-- A mount owns the paths below it that no longer mount lies above. -/
theorem owner?_eq_some_iff {m : Path × BackendId} : t.owner? p = some m ↔
    t.mounts.get? m.1 = some m.2 ∧ m.1.isPrefixOf p = true ∧
      ∀ q, t.isMountPoint q = true → q.isPrefixOf p = true →
      q.segments.length ≤ m.1.segments.length := by
  refine ⟨owner?_some, fun ⟨mounted, above, longest⟩ => ?_⟩
  have isMount : t.isMountPoint m.1 = true := SortedMap.contains_iff.2 ⟨m.2, mounted⟩
  cases ho : t.owner? p with
  | none => exact absurd above (owner?_none ho isMount)
  | some o =>
    obtain ⟨mounted', above', longest'⟩ := owner?_some ho
    have isMount' : t.isMountPoint o.1 = true := SortedMap.contains_iff.2 ⟨o.2, mounted'⟩
    -- Neither of the two is longer than the other, and both lie above the path.
    have same : o.1 = m.1 := Path.eq_of_isPrefixOf_of_length above' above
      (Nat.le_antisymm (longest _ isMount' above') (longest' _ isMount above))
    rw [same, mounted] at mounted'
    exact congrArg some (Prod.ext same (Option.some.inj mounted').symm)

theorem owner?_eq_none_iff :
    t.owner? p = none ↔ ∀ q, t.isMountPoint q = true → ¬q.isPrefixOf p = true := by
  refine ⟨fun h q mounted => owner?_none h mounted, fun free => ?_⟩
  cases ho : t.owner? p with
  | none => rfl
  | some o =>
    obtain ⟨mounted, above, -⟩ := owner?_some ho
    exact absurd above (free o.1 (SortedMap.contains_iff.2 ⟨o.2, mounted⟩))

/-- A path that continues the longest mount above it leads to what is mounted there. -/
theorem resolve_mounted {k : Path} (mounted : t.mounts.get? p = some b)
    (longest : ∀ q, t.isMountPoint q = true → q.isPrefixOf (p ++ k) = true →
      q.segments.length ≤ p.segments.length) : t.resolve (p ++ k) = ⟨b, k, p⟩ := by
  have owner : t.owner? (p ++ k) = some (p, b) :=
    owner?_eq_some_iff.2 ⟨mounted, Path.isPrefixOf_append p k, longest⟩
  rw [resolve, owner]
  dsimp only
  rw [Path.relativeTo_append]

/-- A path below no mount stays in the implicit root. -/
theorem resolve_free (free : ∀ q, t.isMountPoint q = true → ¬q.isPrefixOf p = true) :
    t.resolve p = ⟨t.root, p, .root⟩ := by
  rw [resolve, owner?_eq_none_iff.2 free]

/-- The two ways in which a table finds where a path leads. -/
theorem resolve_cases (t : MountTable) (p : Path) :
    (∃ m b k, t.mounts.get? m = some b ∧ p = m ++ k ∧ t.resolve p = ⟨b, k, m⟩ ∧
      ∀ q, t.isMountPoint q = true → q.isPrefixOf p = true →
      q.segments.length ≤ m.segments.length) ∨
    t.resolve p = ⟨t.root, p, .root⟩ ∧ ∀ q, t.isMountPoint q = true → ¬q.isPrefixOf p = true := by
  cases ho : t.owner? p with
  | none => exact .inr ⟨resolve_free (owner?_eq_none_iff.1 ho), owner?_eq_none_iff.1 ho⟩
  | some o =>
    obtain ⟨mounted, above, longest⟩ := owner?_some ho
    obtain ⟨k, rfl⟩ := Path.isPrefixOf_iff.1 above
    exact .inl ⟨o.1, o.2, k, mounted, rfl, resolve_mounted mounted longest, longest⟩

/-- Where a path leads depends on the implicit root and on the mounts above the path. -/
theorem resolve_congr (root : t'.root = t.root)
    (above : ∀ m : Path, m.isPrefixOf p = true → t'.mounts.get? m = t.mounts.get? m) :
    t'.resolve p = t.resolve p := by
  have isMount : ∀ m : Path, m.isPrefixOf p = true → t'.isMountPoint m = t.isMountPoint m :=
    fun m hm => congrArg Option.isSome (above m hm)
  rcases t.resolve_cases p with ⟨m, b, k, mounted, rfl, leads, longest⟩ | ⟨leads, free⟩
  · rw [leads]
    rw [← above m (Path.isPrefixOf_append m k)] at mounted
    exact resolve_mounted mounted fun q hq hp => longest q (isMount q hp ▸ hq) hp
  · rw [leads, ← root]
    exact resolve_free fun q hq hp => free q (isMount q hp ▸ hq) hp

/-- A path is the mount that matched and what is left of it. -/
theorem mountPath_append_relative (t : MountTable) (p : Path) :
    p = (t.resolve p).mountPath ++ (t.resolve p).relative := by
  rcases t.resolve_cases p with ⟨m, b, k, -, e, leads, -⟩ | ⟨leads, -⟩
  · rw [leads]
    exact e
  · rw [leads]
    rfl

/-- The path inside the backend is what is left of a path. -/
theorem relative_suffix (t : MountTable) (p : Path) : ∃ m : Path, p = m ++ (t.resolve p).relative :=
  ⟨_, t.mountPath_append_relative p⟩

/-- No mount above a path is longer than the one that matched. -/
theorem length_le_mountPath (mounted : t.isMountPoint q = true) (above : q.isPrefixOf p = true) :
    q.segments.length ≤ (t.resolve p).mountPath.segments.length := by
  rcases t.resolve_cases p with ⟨m, b, k, -, -, leads, longest⟩ | ⟨-, free⟩
  · rw [leads]
    exact longest q mounted above
  · exact absurd above (free q mounted)

/-- A mount owns its own path, which is the root of what is mounted. -/
theorem resolve_mount (mounted : t.mounts.get? p = some b) : t.resolve p = ⟨b, .root, p⟩ := by
  have longest : ∀ q : Path, t.isMountPoint q = true → q.isPrefixOf (p ++ .root) = true →
      q.segments.length ≤ p.segments.length := by
    intro q _ above
    rw [Path.append_root] at above
    exact Path.length_le_of_isPrefixOf above
  simpa using resolve_mounted mounted longest

/-- Where a path leads to, the path that matched is the root of. -/
theorem resolve_mountPath (t : MountTable) (p : Path) :
    t.resolve (t.resolve p).mountPath = ⟨(t.resolve p).backend, .root,
      (t.resolve p).mountPath⟩ := by
  rcases t.resolve_cases p with ⟨n, b, l, mounted, -, leads, -⟩ | ⟨leads, free⟩
  · rw [leads]
    exact resolve_mount mounted
  · rw [leads]
    exact resolve_free fun q hq above =>
      free q hq (Path.isPrefixOf_trans above (Path.root_isPrefixOf p))

theorem relative_of_isMountPoint (h : t.isMountPoint p = true) :
    (t.resolve p).relative = .root := by
  obtain ⟨b, mounted⟩ := SortedMap.contains_iff.1 h
  rw [resolve_mount mounted]

/-- A path below the root that leads to the root of a backend is where the backend is mounted. -/
theorem isMountPoint_of_relative (nonroot : p ≠ .root) (h : (t.resolve p).relative = .root) :
    t.isMountPoint p = true := by
  rcases t.resolve_cases p with ⟨m, b, k, mounted, rfl, leads, -⟩ | ⟨leads, -⟩
  · rw [leads] at h
    rw [show k = .root from h, Path.append_root]
    exact SortedMap.contains_iff.2 ⟨b, mounted⟩
  · rw [leads] at h
    exact absurd h nonroot

/-! ## Around a path -/

/-- A table sends calls to its implicit root and to what is mounted. -/
def Names (t : MountTable) (b : BackendId) : Prop := b = t.root ∨ ∃ m, t.mounts.get? m = some b

theorem names_resolve (t : MountTable) (p : Path) : t.Names (t.resolve p).backend := by
  rw [resolve]
  cases ho : t.owner? p with
  | none => exact .inl rfl
  | some m => exact .inr ⟨m.1, (owner?_some ho).1⟩

theorem names_iff : t.Names b ↔ b ∈ t.root :: t.mounts.values := by
  rw [Names, List.mem_cons, SortedMap.values, List.mem_map]
  refine or_congr_right ⟨?_, ?_⟩
  · rintro ⟨m, mounted⟩
    exact ⟨(m, b), SortedMap.get?_eq_some_iff.1 mounted, rfl⟩
  · rintro ⟨⟨m, c⟩, mem, rfl⟩
    exact ⟨m, SortedMap.get?_eq_some_iff.2 mem⟩

/-- The name that a mount adds to the listing of a directory. -/
theorem listed_name_iff {m : Path} {s : Segment} :
    (match m.name? with
      | some name => if m.parent = p then some name else none
      | none => none) = some s ↔ m = p.child s := by
  rcases Path.root_or_child m with rfl | ⟨r, name, rfl⟩
  · simp [fun s => (Path.child_ne_root p s).symm]
  · by_cases here : r = p
    · simp [here]
    · simp [here]

/-- The mounts directly inside a directory are its children at which something is mounted. -/
theorem mem_childMounts {s : Segment} :
    s ∈ t.childMounts p ↔ t.isMountPoint (p.child s) = true := by
  rw [childMounts, List.mem_filterMap, isMountPoint, SortedMap.contains_iff,
    ← SortedMap.mem_keys_iff]
  constructor
  · rintro ⟨m, mounted, found⟩
    rwa [← listed_name_iff.1 found]
  · exact fun mounted => ⟨p.child s, mounted, listed_name_iff.2 rfl⟩

/-- The mounts inside a directory ascend by name. -/
theorem childMounts_ascending (t : MountTable) (p : Path) :
    (t.childMounts p).Pairwise (·.text < ·.text) := by
  rw [childMounts, List.pairwise_filterMap, SortedMap.keys, List.pairwise_map]
  refine t.mounts.ascending.imp fun {a b} lt s hs s' hs' => ?_
  rw [listed_name_iff.1 hs, listed_name_iff.1 hs'] at lt
  exact Path.name_lt lt

/-- Directories with mounts of the same names list the same mounts. -/
theorem childMounts_congr (same : ∀ s, t'.isMountPoint (q.child s) = t.isMountPoint (p.child s)) :
    t'.childMounts q = t.childMounts p :=
  SortedMap.eq_of_mem_iff Segment.text (t'.childMounts_ascending q)
      (t.childMounts_ascending p) fun s => by
    rw [mem_childMounts, mem_childMounts, same]

theorem hasMountBeneath_iff : t.hasMountBeneath p = true ↔
    ∃ m, t.isMountPoint m = true ∧ m ≠ p ∧ p.isPrefixOf m = true := by
  rw [hasMountBeneath, List.any_eq_true]
  constructor
  · rintro ⟨m, mounted, below⟩
    rw [Bool.and_eq_true, decide_eq_true_eq] at below
    exact ⟨m, SortedMap.contains_iff.2 (SortedMap.mem_keys_iff.1 mounted), below⟩
  · rintro ⟨m, mounted, below⟩
    refine ⟨m, SortedMap.mem_keys_iff.2 (SortedMap.contains_iff.1 mounted), ?_⟩
    rwa [Bool.and_eq_true, decide_eq_true_eq]

/-- A path is not a mount point, and no mount lies below it. -/
def IsClear (t : MountTable) (p : Path) : Prop :=
  t.isMountPoint p = false ∧ t.hasMountBeneath p = false

instance (t : MountTable) (p : Path) : Decidable (t.IsClear p) :=
  inferInstanceAs (Decidable (_ ∧ _))

/-- A path is clear if no mount lies at or below it. -/
theorem isClear_iff : t.IsClear p ↔ ∀ m, t.isMountPoint m = true → ¬p.isPrefixOf m = true := by
  constructor
  · rintro ⟨free, none'⟩ m mounted below
    refine Bool.eq_false_iff.1 none' (hasMountBeneath_iff.2 ⟨m, mounted, ?_, below⟩)
    rintro rfl
    exact Bool.eq_false_iff.1 free mounted
  · intro free
    refine ⟨Bool.eq_false_iff.2 fun mounted => free p mounted (Path.isPrefixOf_self p), ?_⟩
    refine Bool.eq_false_iff.2 fun beneath => ?_
    obtain ⟨m, mounted, -, below⟩ := hasMountBeneath_iff.1 beneath
    exact free m mounted below

theorem IsClear.not_below {m : Path} (clear : t.IsClear p) (mounted : t.mounts.get? m = some c) :
    ¬p.isPrefixOf m = true :=
  isClear_iff.1 clear m (SortedMap.contains_iff.2 ⟨c, mounted⟩)

theorem IsClear.get?_below {m : Path} (clear : t.IsClear p) (below : p.isPrefixOf m = true) :
    t.mounts.get? m = none :=
  Option.eq_none_iff_forall_ne_some.2 fun _ mounted => clear.not_below mounted below

/-- Everything below a path without mounts is in the backend of the path. -/
theorem IsClear.resolve_append (clear : t.IsClear p) (k : Path) : t.resolve (p ++ k) =
    ⟨(t.resolve p).backend, (t.resolve p).relative ++ k, (t.resolve p).mountPath⟩ := by
  have higher : ∀ q : Path, t.isMountPoint q = true → q.isPrefixOf (p ++ k) = true →
      q.isPrefixOf p = true := by
    intro q mounted above
    rcases Path.above_append above with higher | ⟨l, rfl, -⟩
    · exact higher
    · exact absurd (Path.isPrefixOf_append p l) (isClear_iff.1 clear _ mounted)
  rcases t.resolve_cases p with ⟨n, b, l, mounted, rfl, leads, longest⟩ | ⟨leads, free⟩
  · rw [leads, Path.append_assoc]
    refine resolve_mounted mounted fun q hq above => longest q hq (higher q hq ?_)
    rwa [Path.append_assoc]
  · rw [leads]
    exact resolve_free fun q hq above => free q hq (higher q hq above)

/-- Where nothing is mounted at a child, it has the owner of the path above. -/
theorem owner?_child {s : Segment} (free : t.isMountPoint (p.child s) = false) :
    t.owner? (p.child s) = t.owner? p := by
  have same : ∀ m ∈ t.mounts.toList, m.1.isPrefixOf (p.child s) = m.1.isPrefixOf p := by
    rintro ⟨m, b⟩ mem
    refine Bool.eq_iff_iff.2 (Path.isPrefixOf_child.trans (or_iff_right ?_))
    rintro rfl
    exact Bool.eq_false_iff.1 free (SortedMap.contains_iff.2 ⟨b, SortedMap.get?_eq_some_iff.2 mem⟩)
  rw [owner?, owner?, List.filter_congr same]

/-- Where nothing is mounted at a child, it leads to a child in the backend of the path above. -/
theorem resolve_child {s : Segment} (free : t.isMountPoint (p.child s) = false) :
    (t.resolve (p.child s)).backend = (t.resolve p).backend ∧
      (t.resolve (p.child s)).relative = (t.resolve p).relative.child s := by
  rw [resolve, resolve, owner?_child free]
  cases ho : t.owner? p with
  | none => exact ⟨rfl, rfl⟩
  | some m =>
    obtain ⟨k, rfl⟩ := Path.isPrefixOf_iff.1 (owner?_some ho).2.1
    refine ⟨rfl, ?_⟩
    show ((m.1 ++ k).child s).relativeTo m.1 = ((m.1 ++ k).relativeTo m.1).child s
    rw [← Path.append_child, Path.relativeTo_append, Path.relativeTo_append]

/-- Where nothing is mounted at a path, the directory above it is in the same backend. -/
theorem resolve_parent (free : t.isMountPoint p = false) :
    (t.resolve p.parent).backend = (t.resolve p).backend ∧
      (t.resolve p.parent).relative = (t.resolve p).relative.parent := by
  rcases Path.root_or_child p with rfl | ⟨q, s, rfl⟩
  · obtain ⟨m, hm⟩ := t.relative_suffix .root
    obtain ⟨-, relative⟩ := Path.append_eq_root.1 hm.symm
    rw [Path.parent_root, relative]
    exact ⟨rfl, rfl⟩
  · obtain ⟨backend, relative⟩ := resolve_child free
    rw [Path.parent_child, backend, relative, Path.parent_child]
    exact ⟨rfl, rfl⟩

/-! ## Tables that mount nothing twice -/

/-- No backend is mounted at two paths, and the implicit root at none but `/`. -/
structure Valid (t : MountTable) : Prop where
  once : ∀ p q b, t.mounts.get? p = some b → t.mounts.get? q = some b → p = q
  root : ∀ p, t.mounts.get? p = some t.root → p = .root

theorem Valid.new (b : BackendId) : (MountTable.new b).Valid := ⟨nofun, nofun⟩

theorem pathOf?_none (h : t.pathOf? b = none) (p : Path) : t.mounts.get? p ≠ some b := by
  intro mounted
  rw [pathOf?, Option.map_eq_none_iff, List.find?_eq_none] at h
  exact h (p, b) (SortedMap.get?_eq_some_iff.1 mounted) (decide_eq_true rfl)

/-- A backend that the table does not name can be mounted wherever nothing is mounted. -/
theorem checkAvailable_new (new : ¬t.Names b) (p : Path) (name : String) :
    t.checkAvailable p b name =
    if t.isMountPoint p then .error (.alreadyMounted p.toText) else .ok () := by
  have unmounted : t.pathOf? b = none := by
    rw [pathOf?, Option.map_eq_none_iff, List.find?_eq_none]
    rintro ⟨m, c⟩ mem e
    exact new (.inr ⟨m, of_decide_eq_true e ▸ SortedMap.get?_eq_some_iff.2 mem⟩)
  have notRoot : decide (b = t.root) = false := decide_eq_false fun e => new (.inl e)
  rw [checkAvailable, unmounted, notRoot, Bool.and_false]
  cases t.isMountPoint p <;> rfl

/-- What is available for a mount: a path without one, and a backend that is not mounted. -/
theorem checkAvailable_ok (h : t.checkAvailable p b name = .ok ()) :
    t.isMountPoint p = false ∧ (b = t.root → p = .root) ∧ t.pathOf? b = none := by
  rw [checkAvailable] at h
  by_cases taken : t.isMountPoint p = true
  · rw [if_pos taken] at h
    cases h
  rw [if_neg taken] at h
  by_cases root : (!p.isRoot && decide (b = t.root)) = true
  · rw [if_pos root] at h
    cases h
  rw [if_neg root] at h
  refine ⟨Bool.eq_false_iff.2 taken, fun e => ?_, ?_⟩
  · rw [decide_eq_true e, Bool.and_true, Bool.not_eq_true', Bool.not_eq_false] at root
    exact Path.isRoot_iff.1 root
  · cases hp : t.pathOf? b with
    | none => rfl
    | some q =>
      rw [hp] at h
      cases h

/-- An insertion that succeeds adds a mount. -/
theorem insert_ok (h : t.insert p b name = .ok t') :
    t' = { t with mounts := t.mounts.insert p b } := by
  rw [insert] at h
  cases hc : t.checkAvailable p b name with
  | error e =>
    rw [hc] at h
    cases h
  | ok _ =>
    rw [hc] at h
    cases h
    rfl

/-- A removal that succeeds takes a mount away. -/
theorem remove_ok (h : t.remove p = .ok (b, t')) : t' = { t with mounts := t.mounts.erase p } := by
  rw [remove] at h
  split at h <;> cases h
  rfl

theorem names_insert (h : t.insert p b name = .ok t') (named : t'.Names c) : t.Names c ∨ c = b := by
  rw [insert_ok h] at named
  rcases named with root | ⟨m, mounted⟩
  · exact .inl (.inl root)
  · rw [SortedMap.get?_insert] at mounted
    split at mounted
    · exact .inr (Option.some.inj mounted).symm
    · exact .inl (.inr ⟨m, mounted⟩)

theorem names_remove (h : t.remove p = .ok (b, t')) (named : t'.Names c) : t.Names c := by
  rw [remove_ok h] at named
  rcases named with root | ⟨m, mounted⟩
  · exact .inl root
  · rw [SortedMap.get?_erase] at mounted
    split at mounted
    · cases mounted
    · exact .inr ⟨m, mounted⟩

theorem Valid.insert (valid : t.Valid) (h : t.insert p b name = .ok t') : t'.Valid := by
  rw [MountTable.insert] at h
  cases hc : t.checkAvailable p b name with
  | error e =>
    rw [hc] at h
    cases h
  | ok _ =>
    rw [hc] at h
    cases h
    obtain ⟨-, root, unmounted⟩ := checkAvailable_ok hc
    have fresh := pathOf?_none unmounted
    refine ⟨fun q r c hq hr => ?_, fun q hq => ?_⟩
    · rw [SortedMap.get?_insert] at hq hr
      split at hq <;> split at hr
      next e e' => exact e.trans e'.symm
      next => exact absurd (Option.some.inj hq ▸ hr) (fresh r)
      next => exact absurd (Option.some.inj hr ▸ hq) (fresh q)
      next => exact valid.once q r c hq hr
    · rw [SortedMap.get?_insert] at hq
      split at hq
      next e => exact e.trans (root (Option.some.inj hq))
      next => exact valid.root q hq

theorem Valid.remove (valid : t.Valid) (h : t.remove p = .ok (b, t')) : t'.Valid := by
  rw [MountTable.remove] at h
  split at h
  next =>
    cases h
    refine ⟨fun q r c hq hr => ?_, fun q hq => ?_⟩
    · rw [SortedMap.get?_erase] at hq hr
      split at hq
      · cases hq
      · split at hr
        · cases hr
        · exact valid.once q r c hq hr
    · rw [SortedMap.get?_erase] at hq
      split at hq
      · cases hq
      · exact valid.root q hq
  next => cases h

/-- A path is the relative one below a place that depends on the backend alone. -/
theorem Valid.resolve_eq (valid : t.Valid) (b : BackendId) :
    ∃ m : Path, ∀ p, (t.resolve p).backend = b →
    p = m ++ (t.resolve p).relative := by
  by_cases mounted : ∃ m, t.mounts.get? m = some b
  · obtain ⟨m, hm⟩ := mounted
    refine ⟨m, fun p hp => ?_⟩
    rw [resolve] at hp ⊢
    cases ho : t.owner? p with
    | none =>
      rw [ho] at hp
      subst hp
      rw [valid.root m hm]
      rfl
    | some o =>
      rw [ho] at hp
      obtain ⟨mounted, above, -⟩ := owner?_some ho
      rw [valid.once m o.1 b hm (hp ▸ mounted)]
      exact (Path.append_relativeTo above).symm
  · refine ⟨.root, fun p hp => ?_⟩
    rw [resolve] at hp ⊢
    cases ho : t.owner? p with
    | none => rfl
    | some o =>
      rw [ho] at hp
      exact absurd ⟨o.1, hp ▸ (owner?_some ho).1⟩ mounted

/-- No two paths lead to the same path in the same backend. -/
theorem Valid.resolve_injective (valid : t.Valid)
    (backend : (t.resolve p).backend = (t.resolve q).backend)
    (relative : (t.resolve p).relative = (t.resolve q).relative) : p = q := by
  obtain ⟨m, hm⟩ := valid.resolve_eq (t.resolve q).backend
  rw [hm p backend, relative, ← hm q rfl]

end MountTable

end MountSpace
