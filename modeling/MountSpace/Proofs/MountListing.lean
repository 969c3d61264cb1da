import MountSpace.Proofs.Directories
import MountSpace.Proofs.MountHistory

/-!
# What a mount table adds to a listing

A table keeps its mounts in the order of their whole paths, where the mounts inside a
directory, those further below and those of siblings whose names begin alike come mixed. Picked
out, the mounts inside a directory ascend by name. A listing takes up their names one at a
time, each in place or at the end.

- `MountTable.childMounts_toText`, `hasMountBeneath_toText`: the questions as they
  are asked of spellings.
- `MountTable.hasMountBeneath_iff_prefix`: a mount lies beneath a path if its segments go on
  from those of the path.
- `Composite.marked`, `mergeName_known`, `mergeListing_eq`: one name that is
  merged, and all of them.
- `MountTable.after_listing`: both for a table that can come about.
-/

namespace MountSpace

namespace MountTable

variable {t : MountTable} {p : Path}

/-- The names of the mounts inside a directory, as its spelling and those of the mounts tell. -/
theorem childMounts_toText (t : MountTable) (p : Path) :
    (t.childMounts p).map (·.text) =
      ((t.mounts.keys.map Path.toText).filter fun m => m ≠ "/" ∧ Spelling.parent m = p.toText).map
        Spelling.fileName := by
  rw [childMounts]
  induction t.mounts.keys with
  | nil => rfl
  | cons m rest ih =>
    rw [List.map_cons, List.filter_cons, List.filterMap_cons]
    rcases Path.root_or_child m with rfl | ⟨q, s, rfl⟩
    · simpa using ih
    · have below : (q.child s).toText ≠ "/" :=
        fun e => Path.child_ne_root q s (Path.toText_injective e)
      simp only [Path.name?_child, Path.parent_child, Spelling.parent_toText, Path.toText_inj,
        ne_eq, below, not_false_eq_true, true_and]
      by_cases here : q = p
      · simp [here, ih, Spelling.fileName_toText]
      · simp [here, ih]

/-- Whether a mount lies below a path, as its spelling and those of the mounts tell. -/
theorem hasMountBeneath_toText (t : MountTable) (p : Path) :
    t.hasMountBeneath p =
      (t.mounts.keys.map Path.toText).any fun m =>
      m ≠ p.toText && Spelling.isPrefixOf p.toText m := by
  simp only [hasMountBeneath, List.any_map, Function.comp_def, Spelling.isPrefixOf_toText, ne_eq,
    Path.toText_inj]

/-- A mount lies below a path if its segments are those of the path and more. -/
theorem hasMountBeneath_iff_prefix : t.hasMountBeneath p = true ↔
    ∃ m b, t.mounts.get? m = some b ∧ p.segments <+: m.segments ∧ m.segments ≠ p.segments := by
  rw [hasMountBeneath_iff]
  refine exists_congr fun m => ?_
  rw [isMountPoint, SortedMap.contains_iff, exists_and_right, Path.isPrefixOf_iff_prefix,
    and_comm (a := m ≠ p)]
  have apart : m ≠ p ↔ m.segments ≠ p.segments := not_congr ⟨congrArg _, Path.ext_segments⟩
  rw [apart]

end MountTable

/-! ## Merging names -/

namespace Composite

variable {entries : List DirEntry} {name : String} {names : List String}

/-- An entry of a listing, which is a directory if it has the name of a mount. -/
def marked (names : List String) (e : DirEntry) : DirEntry :=
  if e.name ∈ names then { e with kind := .directory } else e

/-- An entry is marked for the first name, and then for the others. -/
theorem marked_cons (name : String) (names : List String) (e : DirEntry) :
    marked (name :: names) e = marked names (marked [name] e) := by
  simp only [marked, List.mem_cons, List.not_mem_nil, or_false]
  by_cases first : e.name = name <;> by_cases later : e.name ∈ names <;> simp [first, later]

theorem map_marked_of_not_mem (new : name ∉ entries.map (·.name)) :
    entries.map (marked [name]) = entries := by
  refine (List.map_congr_left fun e mem => ?_).trans (List.map_id _)
  exact if_neg fun same => new (List.mem_map.2 ⟨e, mem, List.mem_singleton.1 same⟩)

/-- A name that is listed already stays where it is. -/
theorem mergeName_known (distinct : (entries.map (·.name)).Nodup)
    (known : name ∈ entries.map (·.name)) :
    mergeName name entries = entries.map (marked [name]) := by
  induction entries with
  | nil => exact absurd known List.not_mem_nil
  | cons e rest ih =>
    obtain ⟨new, distinct'⟩ := List.nodup_cons.1 distinct
    rw [mergeName, List.map_cons, marked]
    by_cases here : e.name = name
    · rw [if_pos here, if_pos (List.mem_singleton.2 here), map_marked_of_not_mem (here ▸ new)]
    · rw [if_neg here, if_neg (mt List.mem_singleton.1 here)]
      exact congrArg (e :: ·) (ih distinct' ((List.mem_cons.1 known).resolve_left (Ne.symm here)))

/-- A merged listing is the entries in their order, those with names that are merged as directories,
and then a directory of each name that is new, in the order of the names. -/
theorem mergeListing_eq (distinct : (entries.map (·.name)).Nodup) (once : names.Nodup) :
    mergeListing entries names = entries.map (marked names) ++
      (names.filter (· ∉ entries.map (·.name))).map fun name => ⟨name, .directory⟩ := by
  induction names generalizing entries with
  | nil =>
    have same : entries.map (marked []) = entries :=
      (List.map_congr_left fun _ _ => if_neg List.not_mem_nil).trans (List.map_id _)
    rw [same]
    exact (List.append_nil _).symm
  | cons name names ih =>
    obtain ⟨other, once'⟩ := List.nodup_cons.1 once
    have step :
        mergeListing entries (name :: names) = mergeListing (mergeName name entries) names := rfl
    have marks : entries.map (marked (name :: names)) =
        (entries.map (marked [name])).map (marked names) := by
      rw [List.map_map]
      exact List.map_congr_left fun e _ => marked_cons name names e
    rw [step, ih (mergeName_distinct distinct name) once', names_mergeName, marks, List.filter_cons]
    by_cases known : name ∈ entries.map (·.name)
    · rw [if_pos known, mergeName_known distinct known, if_neg (by simpa using known)]
    · have added : marked names ⟨name, .directory⟩ = ⟨name, .directory⟩ := by
        rw [marked]
        split <;> rfl
      have later : names.filter (· ∉ entries.map (·.name) ++ [name]) =
          names.filter (· ∉ entries.map (·.name)) := by
        refine List.filter_congr fun n mem => ?_
        have apart : n ≠ name := fun e => other (e ▸ mem)
        simp [apart]
      rw [if_neg known, later, mergeName_new known, if_pos (by simpa using known),
        map_marked_of_not_mem known, List.map_append, List.map_singleton, added, List.append_assoc,
        List.map_cons, List.singleton_append]

end Composite

namespace MountTable

/-- **Mounts in a listing**: in a table that can come about, the names of the mounts inside a
directory ascend in the order of bytes and are just those that make a mount path together with the
directory, and a mount lies beneath a path just if its segments go on from those of the path; the
spellings of the mounts tell both. A listing that names nothing twice is merged with these names
to its own entries in their order, which become directories where a mount has their name and stay
as they are otherwise, and after them a directory for each other name, ascending; and it still
names nothing twice. -/
theorem after_listing (root : BackendId) (history : List TableChange) (path : Bytes)
    (entries : List DirEntry) (distinct : (entries.map (·.name)).Nodup) :
    let t := (new root).after history
    let p := Path.ofBytes path
    let names := (t.childMounts p).map (·.text)
    let added := names.filter (· ∉ entries.map (·.name))
    names.Pairwise (fun a b => Utf8.encode a.toList < Utf8.encode b.toList) ∧
    (∀ n, n ∈ names ↔
      ∃ (s : Segment) (b : BackendId), s.text = n ∧ t.mounts.get? (p.child s) = some b) ∧
    (t.hasMountBeneath p = true ↔
      ∃ m b, t.mounts.get? m = some b ∧ p.segments <+: m.segments ∧ m.segments ≠ p.segments) ∧
    names = ((t.mounts.keys.map Path.toText).filter fun m =>
      m ≠ "/" ∧ Spelling.parent m = p.toText).map Spelling.fileName ∧
    (t.hasMountBeneath p = (t.mounts.keys.map Path.toText).any fun m =>
      m ≠ p.toText && Spelling.isPrefixOf p.toText m) ∧
    Composite.mergeListing entries names =
      entries.map (fun e => if e.name ∈ names then { e with kind := .directory } else e) ++
        added.map (fun name => ⟨name, .directory⟩) ∧
    added.Pairwise (fun a b => Utf8.encode a.toList < Utf8.encode b.toList) ∧
    ((Composite.mergeListing entries names).map (·.name)).Nodup := by
  intro t p names added
  have ascending : names.Pairwise fun a b => Utf8.encode a.toList < Utf8.encode b.toList :=
    List.pairwise_map.2 ((t.childMounts_ascending p).imp fun lt => Utf8.encode_lt_iff.2 lt)
  refine ⟨ascending, fun n => ?_, hasMountBeneath_iff_prefix, childMounts_toText t p,
    hasMountBeneath_toText t p,
    Composite.mergeListing_eq distinct (Composite.mountNames_distinct t p), ascending.filter _,
    Composite.mergeListing_distinct distinct names⟩
  rw [List.mem_map]
  constructor
  · rintro ⟨s, mem, e⟩
    obtain ⟨b, mounted⟩ := SortedMap.contains_iff.1 (mem_childMounts.1 mem)
    exact ⟨s, b, e, mounted⟩
  · rintro ⟨s, b, e, mounted⟩
    exact ⟨s, mem_childMounts.2 (SortedMap.contains_iff.2 ⟨b, mounted⟩), e⟩

/-- Mounts at `/a/c`, `/a-b`, `/a` and `/`. -/
def interleaving : List TableChange :=
  [.insert (Utf8.encode "/a/c".toList) 1 "c", .insert (Utf8.encode "/a-b".toList) 2 "b",
    .insert (Utf8.encode "/a".toList) 3 "a", .insert (Utf8.encode "/".toList) 4 "root"]

/-- By their paths `/a-b` comes between `/a` and `/a/c`. In a listing of the root the file `a`
becomes the mount, and `a-b` is added after the native entries. -/
theorem after_listing_interleaving :
    let t := (new 0).after interleaving
    t.mounts.keys.map Path.toText = ["/", "/a", "/a-b", "/a/c"] ∧
    Composite.mergeListing [⟨"z", .file⟩, ⟨"a", .file⟩]
      ((t.childMounts (.ofBytes [0x2F])).map (·.text)) =
      [⟨"z", .file⟩, ⟨"a", .directory⟩, ⟨"a-b", .directory⟩] := by
  intro t
  have names : (t.childMounts (.ofBytes [0x2F])).map (·.text) = ["a", "a-b"] := by decide +kernel
  obtain ⟨-, -, -, -, -, merged, -⟩ :=
    after_listing 0 interleaving [0x2F] [⟨"z", .file⟩, ⟨"a", .file⟩] (by decide)
  refine ⟨by decide +kernel, merged.trans ?_⟩
  rw [names]
  decide

end MountTable

end MountSpace
