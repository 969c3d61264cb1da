import MountSpace.Proofs.Routes
import MountSpace.Proofs.Spelling

/-!
# Everything that can be done with a mount table

A table begins with an implicit root, and is changed by insertions and removals at paths in any
spelling. A change that fails leaves the table as it was.

- `TableChange`, `MountTable.changed`, `MountTable.after`: one change, and a history of them.
- `Valid.changed`, `mounted_changed`: what one change keeps. No backend comes to be mounted twice,
  and what is mounted was mounted before or is what the change inserts.
- `Valid.after`, `mounted_after`: what a history keeps.
- `after_resolve_injective`: in a table that can come about, no two paths lead to
  one path in one backend.
- `after_resolve_longest`: a path leads to the mount with the longest path above it, by segments as
  by bytes, or to the implicit root, and inside it to what the path has more.
-/

namespace MountSpace

/-- A change of a mount table that a caller can ask for. -/
inductive TableChange where
  | insert (path : Bytes) (backend : BackendId) (name : String)
  | remove (path : Bytes)

namespace MountTable

/-- The table after a change, and the same table if the change fails. -/
def changed (t : MountTable) : TableChange → MountTable
  | .insert path b name => (t.insert (.ofBytes path) b name).toOption.getD t
  | .remove path => ((t.remove (.ofBytes path)).toOption.map (·.2)).getD t

/-- The table after a history of changes. -/
def after (t : MountTable) (history : List TableChange) : MountTable := history.foldl changed t

variable {t t' : MountTable} {p m : Path} {b c : BackendId} {name : String}

/-! ## One change -/

/-- A change fails, or is an insertion or a removal that succeeds. -/
theorem changed_cases (t : MountTable) (change : TableChange) :
    t.changed change = t ∨
      (∃ path b name, change = .insert path b name ∧
        t.insert (.ofBytes path) b name = .ok (t.changed change)) ∨
      ∃ path b, change = .remove path ∧ t.remove (.ofBytes path) = .ok (b, t.changed change) := by
  cases change with
  | insert path b name =>
    cases hi : t.insert (.ofBytes path) b name with
    | error e => exact .inl (by rw [changed, hi]; rfl)
    | ok t' =>
      have kept : t.changed (.insert path b name) = t' := by rw [changed, hi]; rfl
      exact .inr (.inl ⟨path, b, name, rfl, by rw [kept, hi]⟩)
  | remove path =>
    cases hr : t.remove (.ofBytes path) with
    | error e => exact .inl (by rw [changed, hr]; rfl)
    | ok r =>
      have kept : t.changed (.remove path) = r.2 := by rw [changed, hr]; rfl
      exact .inr (.inr ⟨path, r.1, rfl, by rw [kept, hr]⟩)

theorem Valid.changed (valid : t.Valid) (change : TableChange) : (t.changed change).Valid := by
  rcases t.changed_cases change with same | ⟨path, b, name, -, inserted⟩ | ⟨path, b, -, removed⟩
  · rwa [same]
  · exact valid.insert inserted
  · exact valid.remove removed

theorem root_changed (t : MountTable) (change : TableChange) :
    (t.changed change).root = t.root := by
  rcases t.changed_cases change with same | ⟨path, b, name, -, inserted⟩ | ⟨path, b, -, removed⟩
  · rw [same]
  · rw [insert_ok inserted]
  · rw [remove_ok removed]

/-- What is mounted after a change was mounted before, or is what the change inserts. -/
theorem mounted_changed {change : TableChange} (h : (t.changed change).mounts.get? m = some c) :
    t.mounts.get? m = some c ∨
    ∃ path name, change = .insert path c name ∧ Path.ofBytes path = m := by
  rcases t.changed_cases change with same | ⟨path, b, name, e, inserted⟩ | ⟨path, b, -, removed⟩
  · rw [same] at h
    exact .inl h
  · rw [insert_ok inserted, SortedMap.get?_insert] at h
    split at h
    next here =>
      cases h
      exact .inr ⟨path, name, e, here.symm⟩
    next => exact .inl h
  · rw [remove_ok removed, SortedMap.get?_erase] at h
    split at h
    next => cases h
    next => exact .inl h

/-! ## A history of changes -/

theorem Valid.after (valid : t.Valid) (history : List TableChange) : (t.after history).Valid := by
  induction history generalizing t with
  | nil => exact valid
  | cons change history ih => exact ih (valid.changed change)

theorem root_after (t : MountTable) (history : List TableChange) :
    (t.after history).root = t.root := by
  induction history generalizing t with
  | nil => rfl
  | cons change history ih => exact (ih (t.changed change)).trans (t.root_changed change)

/-- What is mounted in the end was mounted in the beginning, or was inserted on the way. -/
theorem mounted_after {history : List TableChange} (h : (t.after history).mounts.get? m = some c) :
    t.mounts.get? m = some c ∨
      ∃ path name, .insert path c name ∈ history ∧ Path.ofBytes path = m := by
  induction history generalizing t with
  | nil => exact .inl h
  | cons change history ih =>
    rcases ih h with before | ⟨path, name, mem, e⟩
    · rcases mounted_changed before with before | ⟨path, name, rfl, e⟩
      · exact .inl before
      · exact .inr ⟨path, name, List.mem_cons_self, e⟩
    · exact .inr ⟨path, name, List.mem_cons_of_mem _ mem, e⟩

/-- **No aliasing**: in a table that can come about by insertions and removals, every mount path is
the normal form of a path that was inserted, no backend is mounted at two paths, and the implicit
root is mounted at none but `/`. Hence two spellings lead to the same path in the same backend just
if they name one path. -/
theorem after_resolve_injective (root : BackendId) (history : List TableChange) :
    let t := (new root).after history
    (∀ m c, t.mounts.get? m = some c → (Path.ofText m.toText).toText = m.toText ∧
      ∃ path name, .insert path c name ∈ history ∧ Path.ofBytes path = m) ∧
    (∀ m n c, t.mounts.get? m = some c → t.mounts.get? n = some c → m = n) ∧
    (∀ m, t.mounts.get? m = some root → m = .root) ∧
    ∀ a b : Bytes, (t.resolve (.ofBytes a)).backend = (t.resolve (.ofBytes b)).backend ∧
        (t.resolve (.ofBytes a)).relative = (t.resolve (.ofBytes b)).relative ↔
      Path.ofBytes a = Path.ofBytes b := by
  intro t
  have valid : t.Valid := (Valid.new root).after history
  have kept : t.root = root := (new root).root_after history
  refine ⟨fun m c mounted => ⟨?_, ?_⟩, valid.once, fun m mounted => ?_, fun a b =>
    ⟨?_, fun e => ?_⟩⟩
  · rw [Path.ofText_toText]
  · exact (mounted_after mounted).resolve_left nofun
  · exact valid.root m (kept ▸ mounted)
  · rintro ⟨backend, relative⟩
    exact valid.resolve_injective backend relative
  · rw [e]
    exact ⟨rfl, rfl⟩

/-- **Longest match**: in a table that can come about, a path in any spelling leads to the mount
whose segments are the longest beginning of its own among all mounts, and to the implicit root just
if no mount lies above it. The segments of the mount path and of the relative path, which is an
absolute path in normal form, make up those of the path.

On the texts this is the comparison at separators, the greatest number of bytes, and
the text that follows. -/
theorem after_resolve_longest (root : BackendId) (history : List TableChange) (path : Bytes) :
    let t := (new root).after history
    let p := Path.ofBytes path
    let r := t.resolve p
    (t.mounts.get? r.mountPath = some r.backend ∧ r.mountPath.segments <+: p.segments ∨
      r.backend = root ∧ r.mountPath = .root ∧
        ∀ m c, t.mounts.get? m = some c → ¬m.segments <+: p.segments) ∧
    (∀ m c, t.mounts.get? m = some c → m.segments <+: p.segments → m ≠ r.mountPath →
      m.segments.length < r.mountPath.segments.length ∧
        m.toText.utf8ByteSize < r.mountPath.toText.utf8ByteSize) ∧
    (∀ m c, t.mounts.get? m = some c →
      (Spelling.isPrefixOf m.toText p.toText = true ↔ m.segments <+: p.segments)) ∧
    r.mountPath.segments ++ r.relative.segments = p.segments ∧
    (r.mountPath ≠ .root → r.relative ≠ .root →
      p.toText = r.mountPath.toText ++ r.relative.toText) ∧
    (Path.ofText r.relative.toText).toText = r.relative.toText ∧
    ∃ rest, r.relative.toText.toList = '/' :: rest := by
  intro t p r
  have kept : t.root = root := (new root).root_after history
  have absolute : ∃ rest, r.relative.toText.toList = '/' :: rest := by
    rw [Path.toText, String.toList_ofList]
    exact r.relative.spelling_eq_cons
  have split : p = r.mountPath ++ r.relative := t.mountPath_append_relative p
  have spelled : r.mountPath ≠ .root → r.relative ≠ .root →
      p.toText = r.mountPath.toText ++ r.relative.toText := fun hm hr =>
    (congrArg Path.toText split).trans (Path.toText_append hm hr)
  refine ⟨?_, fun m c mounted above ne => ?_, fun m c _ => ?_, congrArg Path.segments split.symm,
    spelled, ?_, absolute⟩
  · rcases t.resolve_cases p with ⟨m, b, k, mounted, e, leads, -⟩ | ⟨leads, free⟩
    · refine .inl ?_
      rw [show r = ⟨b, k, m⟩ from leads]
      exact ⟨mounted, e ▸ List.prefix_append ..⟩
    · refine .inr ?_
      rw [show r = ⟨t.root, p, .root⟩ from leads]
      exact ⟨kept, rfl, fun m c mounted above =>
        free m (SortedMap.contains_iff.2 ⟨c, mounted⟩) (Path.isPrefixOf_iff_prefix.2 above)⟩
  · have above := Path.isPrefixOf_iff_prefix.2 above
    have upper : m.isPrefixOf r.mountPath = true :=
      Path.isPrefixOf_of_length_le above (split ▸ Path.isPrefixOf_append ..)
        (t.length_le_mountPath (SortedMap.contains_iff.2 ⟨c, mounted⟩) above)
    exact ⟨Path.length_lt_of_isPrefixOf upper ne, Path.utf8ByteSize_toText_lt upper ne⟩
  · rw [Spelling.isPrefixOf_toText, Path.isPrefixOf_iff_prefix]
  · rw [Path.ofText_toText]

end MountTable

end MountSpace
