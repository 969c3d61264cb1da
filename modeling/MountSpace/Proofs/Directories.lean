import MountSpace.Proofs.Located
import MountSpace.Proofs.Session

/-!
# Listings and what is found below them

A composite adds the mounts directly inside a directory to what the backend lists that has the
directory, and lists them alone where the backend does not have it. This module says when a listing
succeeds, and that it names just what an inquiry finds.

- `Composite.mergeListing_distinct`, `mem_mergeListing`: a merged listing names nothing twice. A
  mount hides the entry of its name.
- `Volumes.Enumerates`, `readdir_enumerates`: a listing names the children at whose
  place something stands.
- `AboveMount`, `readdir_located`: where a listing succeeds although the backend has no directory.
- `System.Built`: a backend over which every path leads to a place.
- `System.readdir_isOk_iff`: a listing succeeds at a directory, and above a mount
  where nothing is found.
- `System.mem_readdir_iff_stat`: listings and inquiries agree entry by entry.
-/

namespace MountSpace

/-! ## Merged listings -/

namespace Composite

variable {entries : List DirEntry} {name : String} {d : DirEntry}

theorem names_mergeName (name : String) (entries : List DirEntry) :
    (mergeName name entries).map (·.name) =
      if name ∈ entries.map (·.name) then entries.map (·.name)
        else entries.map (·.name) ++ [name] := by
  induction entries with
  | nil => rfl
  | cons e rest ih =>
    rw [mergeName]
    by_cases here : e.name = name
    · rw [if_pos here, if_pos (List.mem_map.2 ⟨e, List.mem_cons_self, here⟩)]
      rfl
    · rw [if_neg here, List.map_cons, ih]
      simp only [List.map_cons, List.mem_cons, or_iff_right (Ne.symm here)]
      split <;> rfl

theorem mergeName_distinct (distinct : (entries.map (·.name)).Nodup) (name : String) :
    ((mergeName name entries).map (·.name)).Nodup := by
  rw [names_mergeName]
  split
  next => exact distinct
  next new =>
    refine List.nodup_append.2 ⟨distinct, List.nodup_singleton _, fun a ha b hb e => new ?_⟩
    rwa [← List.mem_singleton.1 hb, ← e]

/-- Of the name that is merged there is a directory; entries of other names are as before. -/
theorem mem_mergeName (distinct : (entries.map (·.name)).Nodup) :
    d ∈ mergeName name entries ↔ if d.name = name then d.kind = .directory else d ∈ entries := by
  induction entries with
  | nil =>
    obtain ⟨n, kind⟩ := d
    rw [mergeName, List.mem_singleton, DirEntry.mk.injEq]
    by_cases e : n = name <;> simp [e]
  | cons e rest ih =>
    obtain ⟨new, distinct'⟩ := List.nodup_cons.1 distinct
    rw [mergeName]
    by_cases here : e.name = name
    · -- The entry of the name is the first one, and there is no other.
      rw [if_pos here, List.mem_cons, List.mem_cons]
      by_cases same : d.name = name
      · have other : d ∉ rest := fun mem => new (List.mem_map.2 ⟨d, mem, same.trans here.symm⟩)
        rw [if_pos same, or_iff_left other]
        constructor
        · rintro rfl
          rfl
        · intro kind
          obtain ⟨n, k⟩ := d
          cases kind
          cases same.trans here.symm
          rfl
      · have first : d ≠ e := fun h => same (h ▸ here)
        have first' : d ≠ { e with kind := .directory } := fun h => same (h ▸ here)
        rw [if_neg same, or_iff_right first', or_iff_right first]
    · rw [if_neg here, List.mem_cons, List.mem_cons, ih distinct']
      by_cases same : d.name = name
      · have first : d ≠ e := fun h => here (h ▸ same)
        rw [if_pos same, if_pos same, or_iff_right first]
      · rw [if_neg same, if_neg same]

theorem mergeListing_distinct (distinct : (entries.map (·.name)).Nodup) (names : List String) :
    ((mergeListing entries names).map (·.name)).Nodup := by
  induction names generalizing entries with
  | nil => exact distinct
  | cons name names ih => exact ih (mergeName_distinct distinct name)

/-- A merged listing shows a directory of each name that is merged, and the other entries. -/
theorem mem_mergeListing (distinct : (entries.map (·.name)).Nodup) (names : List String) :
    d ∈ mergeListing entries names ↔ if d.name ∈ names then d.kind = .directory
      else d ∈ entries := by
  induction names generalizing entries with
  | nil => exact (if_neg List.not_mem_nil).symm.to_iff
  | cons name names ih =>
    have first : d ∈ mergeListing entries (name :: names) ↔
        if d.name ∈ names then d.kind = .directory else d ∈ mergeName name entries :=
      ih (mergeName_distinct distinct name)
    rw [first, mem_mergeName distinct]
    by_cases later : d.name ∈ names
    · rw [if_pos later, if_pos (List.mem_cons_of_mem _ later)]
    · simp only [List.mem_cons, later, or_false, if_false]

/-- A name that is new comes last. -/
theorem mergeName_new (new : name ∉ entries.map (·.name)) :
    mergeName name entries = entries ++ [⟨name, .directory⟩] := by
  induction entries with
  | nil => rfl
  | cons e rest ih =>
    rw [List.map_cons, List.mem_cons, not_or] at new
    rw [mergeName, if_neg (Ne.symm new.1), ih new.2, List.cons_append]

/-- Names that are new come last, in their order. -/
theorem mergeListing_new {names : List String} (distinct : (entries.map (·.name) ++ names).Nodup) :
    mergeListing entries names = entries ++ names.map fun name => ⟨name, .directory⟩ := by
  induction names generalizing entries with
  | nil => exact (List.append_nil _).symm
  | cons name names ih =>
    have new : name ∉ entries.map (·.name) := fun mem =>
      (List.nodup_append.1 distinct).2.2 name mem name List.mem_cons_self rfl
    show mergeListing (mergeName name entries) names = _
    rw [mergeName_new new, ih, List.map_cons, List.append_assoc, List.singleton_append]
    rwa [List.map_append, List.append_assoc]

/-- The names of the mounts inside a directory are those of the children that are mount points. -/
theorem mem_mountNames {t : MountTable} {p : Path} {s : Segment} :
    s.text ∈ (t.childMounts p).map (·.text) ↔ t.isMountPoint (p.child s) = true := by
  rw [← MountTable.mem_childMounts, List.mem_map]
  constructor
  · rintro ⟨s', mem, e⟩
    rwa [← Segment.ext_text e]
  · exact fun mem => ⟨s, mem, rfl⟩

/-- The names of the mounts inside a directory differ. -/
theorem mountNames_distinct (t : MountTable) (p : Path) :
    ((t.childMounts p).map (·.text)).Nodup := by
  have ascending := t.childMounts_ascending p
  refine List.nodup_iff_pairwise_ne.2 (List.pairwise_map.2 (ascending.imp fun {a b} lt same => ?_))
  exact KeyOrder.irrefl _ (same ▸ lt)

end Composite

/-! ## Entries of a listing -/

section

variable {backends : List Backend} {tables : Nat → MountTable} {hops hops' : Nat} {b : BackendId}
variable {p : Path} {pl ql : Place} {v : Volumes}

/-- A listing of a path in a backend names each child once that leads to something, with the kind of
what stands there. If it fails because nothing was found, there is nothing at any child. -/
def Volumes.Enumerates (v : Volumes) (backends : List Backend) (b : BackendId) (p : Path) :
    Except FsError (List DirEntry) → Prop
  | .ok entries => (entries.map (·.name)).Nodup ∧
      ∀ (s : Segment) hops pl, locate backends v.tables hops b (p.child s) = some pl →
        ∀ kind, ⟨s.text, kind⟩ ∈ entries ↔ (v.at pl).map Entry.kind = some kind
  | .error e => e.isNotFound = true →
      ∀ (s : Segment) hops pl, locate backends v.tables hops b (p.child s) = some pl →
      v.at pl = none

/-- A backend that keeps a tree itself lists the entries of the directory. -/
theorem enumerates_arrived (inOrder : v.InOrder backends)
    (arr : arrived backends (pl.backend, pl.path) = some pl) :
    v.Enumerates backends pl.backend pl.path ((pl.fileSystem backends).readdir v pl.path) := by
  have sound := pl.sound arr inOrder
  have enumerates := (pl.serves arr).readdir v pl.path sound
  have child : ∀ (s : Segment) hops ql,
      locate backends v.tables hops pl.backend (pl.path.child s) = some ql →
      v.at ql = v.space pl.volume (pl.path.child s) := by
    intro s hops ql hq
    rw [locate_unique hq (locate_beside arr _ hops)]
    rfl
  generalize (pl.fileSystem backends).readdir v pl.path = r at enumerates
  cases r with
  | ok entries =>
    obtain ⟨-, ascending, mem⟩ := enumerates
    refine ⟨?_, fun s hops ql hq kind => ?_⟩
    · refine List.nodup_iff_pairwise_ne.2 (List.pairwise_map.2 (ascending.imp fun {a b} lt e => ?_))
      exact KeyOrder.irrefl _ (e ▸ lt)
    · rw [mem, child s hops ql hq, Option.map_eq_some_iff]
      constructor
      · rintro ⟨s', e, found, here⟩
        obtain ⟨text, rfl⟩ := DirEntry.mk.inj here
        cases Segment.ext_text text
        exact ⟨e, found, rfl⟩
      · rintro ⟨e, found, rfl⟩
        exact ⟨s, e, found, rfl⟩
  | error e =>
    intro _ s hops ql hq
    rw [child s hops ql hq]
    exact Classical.byContradiction fun taken => enumerates (sound.tree.parent _ s taken)

/-- A child of a path in a composite is a mount point, and leads to a root, which is a directory. Or
it leads where the child of the path leads in the next backend. -/
theorem locate_child_cases (inOrder : v.InOrder backends) {table : Nat}
    (hb : backends[b]? = some (.composite table)) {s : Segment}
    (h : locate backends v.tables hops b (p.child s) = some ql) :
    ((v.tables table).isMountPoint (p.child s) = true ∧ ∃ perm, v.at ql = some (.directory perm)) ∨
      (v.tables table).isMountPoint (p.child s) = false ∧ ∃ hops',
        locate backends v.tables hops' ((v.tables table).resolve p).backend
          (((v.tables table).resolve p).relative.child s) = some ql := by
  cases hops with
  | zero =>
    rw [locate, hb] at h
    cases h
  | succ hops =>
    rw [locate, hb] at h
    dsimp only at h
    cases mounted : (v.tables table).isMountPoint (p.child s) with
    | true =>
      rw [MountTable.relative_of_isMountPoint mounted] at h
      have root := (ql.sound (locate_arrived h) inOrder).tree.root
      rw [← locate_root h] at root
      exact .inl ⟨rfl, root⟩
    | false =>
      obtain ⟨backend, relative⟩ := MountTable.resolve_child mounted
      rw [backend, relative] at h
      exact .inr ⟨rfl, hops, h⟩

/-- A composite adds the mounts inside the directory to what the backend lists. -/
theorem enumerates_onward (inOrder : v.InOrder backends) {table : Nat}
    (hb : backends[b]? = some (.composite table)) {child : BackendId → FileSystem}
    (next : v.Enumerates backends ((v.tables table).resolve p).backend
      ((v.tables table).resolve p).relative
      ((child ((v.tables table).resolve p).backend).readdir v
        ((v.tables table).resolve p).relative)) :
    v.Enumerates backends b p (Composite.readdir child (v.tables table) v p) := by
  -- Merging is right whatever was listed, if the children that are not mount points
  -- are listed rightly.
  have merged : ∀ entries : List DirEntry, (entries.map (·.name)).Nodup →
      (∀ (s : Segment) hops ql, locate backends v.tables hops ((v.tables table).resolve p).backend
        (((v.tables table).resolve p).relative.child s) = some ql →
        ∀ kind, ⟨s.text, kind⟩ ∈ entries ↔ (v.at ql).map Entry.kind = some kind) →
      v.Enumerates backends b p
        (.ok (Composite.mergeListing entries (((v.tables table).childMounts p).map (·.text)))) := by
    intro entries distinct native
    refine ⟨Composite.mergeListing_distinct distinct _, fun s hops ql hq kind => ?_⟩
    rw [Composite.mem_mergeListing distinct]
    dsimp only
    rcases locate_child_cases inOrder hb hq with ⟨mounted, perm, found⟩ | ⟨free, hops', hq'⟩
    · rw [if_pos (Composite.mem_mountNames.2 mounted), found]
      exact ⟨fun k => congrArg some k.symm, fun k => (Option.some.inj k).symm⟩
    · rw [if_neg fun mem => Bool.eq_false_iff.1 free (Composite.mem_mountNames.1 mem)]
      exact native s hops' ql hq' kind
  rw [Composite.readdir]
  generalize (child ((v.tables table).resolve p).backend).readdir v
    ((v.tables table).resolve p).relative = r at next
  cases r with
  | ok entries => exact merged entries next.1 next.2
  | error e =>
    dsimp only
    split
    next missing =>
      obtain ⟨notFound, -⟩ := Bool.and_eq_true_iff.1 missing
      refine merged [] List.nodup_nil fun s hops ql hq kind => ?_
      rw [next notFound s hops ql hq]
      exact ⟨nofun, nofun⟩
    next above =>
      intro notFound s hops ql hq
      rw [notFound, Bool.true_and] at above
      -- Without a mount below the path, no child is a mount point.
      rcases locate_child_cases inOrder hb hq with ⟨mounted, -⟩ | ⟨-, hops', hq'⟩
      · refine absurd
          (MountTable.hasMountBeneath_iff.2 ⟨_, mounted, Path.child_ne_self p s, ?_⟩) above
        exact Path.isPrefixOf_child.2 (.inr (Path.isPrefixOf_self p))
      · exact next notFound s hops' ql hq'

/-- A listing at a path that leads to a place names what stands at the children of the path. -/
theorem readdir_enumerates (inOrder : v.InOrder backends)
    (h : locate backends v.tables hops b p = some pl) :
    v.Enumerates backends b p ((fileSystem backends hops b).readdir v p) := by
  refine locate_induction (motive := fun hops b p =>
    v.Enumerates backends b p ((fileSystem backends hops b).readdir v p)) (fun hops e => ?_) ?_ h
  · rw [e]
    exact enumerates_arrived inOrder (locate_arrived h)
  · intro hops b p table hb _ ih
    rw [fileSystem_composite hb]
    exact enumerates_onward inOrder hb ih

/-! ## Listings without a directory -/

/-- A path lies strictly above a mount, in the table of a composite on its way. -/
inductive AboveMount (backends : List Backend) (tables : Nat → MountTable) : BackendId → Path → Prop
  | here {b : BackendId} {p : Path} {table : Nat} (there : backends[b]? = some (.composite table))
      (beneath : (tables table).hasMountBeneath p = true) : AboveMount backends tables b p
  | onward {b : BackendId} {p : Path} {table : Nat} (there : backends[b]? = some (.composite table))
      (next : AboveMount backends tables ((tables table).resolve p).backend
        ((tables table).resolve p).relative) : AboveMount backends tables b p

theorem aboveMount_composite {table : Nat} (hb : backends[b]? = some (.composite table)) :
    AboveMount backends tables b p ↔ (tables table).hasMountBeneath p = true ∨
      AboveMount backends tables ((tables table).resolve p).backend
        ((tables table).resolve p).relative := by
  constructor
  · intro h
    cases h with
    | here there beneath =>
      cases hb.symm.trans there
      exact .inl beneath
    | onward there next =>
      cases hb.symm.trans there
      exact .inr next
  · rintro (beneath | next)
    · exact .here hb beneath
    · exact .onward hb next

/-- There are no mounts inside a backend that keeps a tree itself. -/
theorem not_aboveMount_arrived (arr : arrived backends (b, p) = some pl) :
    ¬AboveMount backends tables b p := by
  have leaf : ∀ table, backends[b]? ≠ some (.composite table) := by
    intro table hb
    rw [arrived, hb] at arr
    cases arr
  intro h
  cases h with
  | here there beneath => exact leaf _ there
  | onward there next => exact leaf _ there

section

variable (inOrder : v.InOrder backends) (arr : arrived backends (pl.backend, pl.path) = some pl)
include inOrder arr

/-- A backend that keeps a tree itself lists what it reports to be a directory. -/
theorem readdir_isOk_arrived : ((pl.fileSystem backends).readdir v pl.path).isOk = true ↔
    ∃ attr, (pl.fileSystem backends).stat v pl.path = .ok attr ∧ attr.isDir = true := by
  have sound := pl.sound arr inOrder
  have stats := (pl.serves arr).stat v pl.path sound
  have enumerates := (pl.serves arr).readdir v pl.path sound
  generalize (pl.fileSystem backends).stat v pl.path = answer at stats
  generalize (pl.fileSystem backends).readdir v pl.path = native at enumerates
  constructor
  · intro listed
    cases native with
    | error e => cases listed
    | ok entries =>
      obtain ⟨⟨perm, found⟩, -⟩ := enumerates
      cases answer with
      | error e => exact absurd (found.symm.trans stats) (Option.some_ne_none _)
      | ok attr =>
        obtain ⟨e, found', shows⟩ := stats
        cases found.symm.trans found'
        exact ⟨attr, rfl, by rw [FileAttr.isDir, shows.kind]; rfl⟩
  · rintro ⟨attr, rfl, isDir⟩
    obtain ⟨e, found, shows⟩ := stats
    rw [FileAttr.isDir, shows.kind] at isDir
    cases native with
    | ok entries => rfl
    | error e' => exact absurd (Space.isDirectory_of_kind found (beq_iff_eq.1 isDir)) enumerates

/-- A backend that keeps a tree itself does not find what to list where it
finds nothing to report. -/
theorem readdir_notFound_arrived :
    (∃ e, (pl.fileSystem backends).readdir v pl.path = .error e ∧ e.isNotFound = true) ↔
      ∃ e, (pl.fileSystem backends).stat v pl.path = .error e ∧ e.isNotFound = true := by
  -- A listing fails as the inquiry does, or because there is a file.
  have same : ∀ e, (pl.fileSystem backends).readdir v pl.path = .error e →
      (pl.fileSystem backends).stat v pl.path = .error e ∨
        ((pl.fileSystem backends).stat v pl.path).isOk = true ∧ e.isNotFound = false := by
    rcases arrived_cases arr with ⟨i, hb, -⟩ | ⟨j, readOnly, hb, -⟩
    · rw [Place.fileSystem, fileSystem_memory hb]
      exact fun e => MemoryTree.readdir_error
    · obtain ⟨F, h⟩ : v.SoundAt (.store j) := inOrder.sound _ _ _ hb rfl
      rw [Place.fileSystem, fileSystem_keyValue hb]
      exact fun e => RecordTree.readdir_error h
  constructor
  · rintro ⟨e, failed, notFound⟩
    rcases same e failed with missing | ⟨-, found⟩
    · exact ⟨e, missing, notFound⟩
    · cases notFound.symm.trans found
  · rintro ⟨e, missing, notFound⟩
    cases failed : (pl.fileSystem backends).readdir v pl.path with
    | ok entries =>
      obtain ⟨attr, found, -⟩ := (readdir_isOk_arrived inOrder arr).1 (by rw [failed]; rfl)
      cases missing.symm.trans found
    | error e' =>
      rcases same e' failed with missing' | ⟨found, -⟩
      · cases missing.symm.trans missing'
        exact ⟨e, rfl, notFound⟩
      · rw [missing] at found
        cases found

end

/-- What comes of a listing: it succeeds where the backend at the end of the way lists a
directory, and where that backend finds nothing but a mount lies below. Otherwise it fails
as that backend does. -/
def ListsAs (backends : List Backend) (tables : Nat → MountTable) (b : BackendId) (p : Path)
    (native answer : Except FsError (List DirEntry)) : Prop :=
  (answer.isOk = true ∧ (native.isOk = true ∨
    (∃ e, native = .error e ∧ e.isNotFound = true) ∧ AboveMount backends tables b p)) ∨
  ∃ e, native = .error e ∧ answer = .error e ∧ ¬(e.isNotFound = true ∧
    AboveMount backends tables b p)

theorem listsAs_arrived (arr : arrived backends (b, p) = some pl)
    (native : Except FsError (List DirEntry)) : ListsAs backends tables b p native native := by
  cases native with
  | ok entries => exact .inl ⟨rfl, .inl rfl⟩
  | error e => exact .inr ⟨e, rfl, rfl, fun h => not_aboveMount_arrived arr h.2⟩

theorem listsAs_onward {table : Nat} (hb : backends[b]? = some (.composite table))
    {child : BackendId → FileSystem} {native : Except FsError (List DirEntry)}
    (next : ListsAs backends v.tables ((v.tables table).resolve p).backend
      ((v.tables table).resolve p).relative native
      ((child ((v.tables table).resolve p).backend).readdir v
        ((v.tables table).resolve p).relative)) :
    ListsAs backends v.tables b p native (Composite.readdir child (v.tables table) v p) := by
  rw [Composite.readdir]
  rcases next with ⟨ok, source⟩ | ⟨e, failed, answer, neither⟩
  · refine .inl ⟨?_, source.imp_right fun h => ⟨h.1, .onward hb h.2⟩⟩
    generalize (child ((v.tables table).resolve p).backend).readdir v
      ((v.tables table).resolve p).relative = r at ok
    cases r with
    | ok entries => rfl
    | error e => cases ok
  · rw [answer]
    dsimp only
    by_cases above : (e.isNotFound && (v.tables table).hasMountBeneath p) = true
    · rw [if_pos above]
      obtain ⟨notFound, beneath⟩ := Bool.and_eq_true_iff.1 above
      exact .inl ⟨rfl, .inr ⟨⟨e, failed, notFound⟩, .here hb beneath⟩⟩
    · rw [if_neg above]
      refine .inr ⟨e, failed, rfl, fun ⟨notFound, h⟩ => ?_⟩
      rcases (aboveMount_composite hb).1 h with beneath | h
      · exact above (Bool.and_eq_true_iff.2 ⟨notFound, beneath⟩)
      · exact neither ⟨notFound, h⟩

/-- A listing at a path that leads to a place. -/
theorem readdir_located (h : locate backends v.tables hops b p = some pl) :
    ListsAs backends v.tables b p ((pl.fileSystem backends).readdir v pl.path)
      ((fileSystem backends hops b).readdir v p) := by
  refine locate_induction (motive := fun hops b p =>
    ListsAs backends v.tables b p ((pl.fileSystem backends).readdir v pl.path)
      ((fileSystem backends hops b).readdir v p)) (fun hops e => ?_) ?_ h
  · rw [e]
    exact listsAs_arrived (locate_arrived h) _
  · intro hops b p table hb _ ih
    rw [fileSystem_composite hb]
    exact listsAs_onward hb ih

theorem readdir_lost (plain : ∀ (b : Nat) (x : Backend), backends[b]? = some x → ∃ n, x.Within n)
    (h : locate backends v.tables hops b p = none) :
    (fileSystem backends hops b).readdir v p = .error .endless := by
  refine lost_induction plain (motive := fun hops b p =>
    (fileSystem backends hops b).readdir v p = .error .endless)
      (fun hops b p e => by rw [e]; rfl) ?_ h
  intro hops b p table hb ih
  rw [fileSystem_composite hb]
  show Composite.readdir _ (v.tables table) v p = _
  rw [Composite.readdir, ih]
  rfl

end

namespace System

variable {s : System} {b : BackendId} {p : Path}

/-- A path in a backend lies strictly above a mount. -/
def AboveMount (s : System) (b : BackendId) (p : Path) : Prop :=
  MountSpace.AboveMount s.backends s.volumes.tables b p

/-- **Listing without inquiry**: a listing succeeds where an inquiry reports a directory. It also
succeeds where the inquiry finds nothing and a mount lies below the path, and nowhere else. -/
theorem readdir_isOk_iff (reachable : s.Reachable) (b : BackendId) (p : Path) :
    (s.readdir b p).isOk = true ↔
      (∃ attr, s.stat b p = .ok attr ∧ attr.isDir = true) ∨
        (∃ e, s.stat b p = .error e ∧ e.isNotFound = true) ∧ s.AboveMount b p := by
  have inOrder := reachable.inOrder
  rw [readdir, stat, fileSystems]
  cases h : s.locate b p with
  | none =>
    rw [readdir_lost inOrder.plain h, stat_lost inOrder.plain h]
    constructor
    · intro listed
      cases listed
    · rintro (⟨attr, found, -⟩ | ⟨⟨e, missing, notFound⟩, -⟩)
      · cases found
      · cases missing
        cases notFound
  | some pl =>
    have arr := locate_arrived h
    rw [stat_located inOrder.volumes h, ← readdir_isOk_arrived inOrder.volumes arr,
      ← readdir_notFound_arrived inOrder.volumes arr]
    rcases readdir_located h with ⟨ok, source⟩ | ⟨e, failed, answer, neither⟩
    · exact ⟨fun _ => source, fun _ => ok⟩
    · rw [failed, answer]
      constructor
      · intro listed
        cases listed
      · rintro (listed | ⟨⟨e', same, notFound⟩, above⟩)
        · cases listed
        · cases same
          exact absurd ⟨notFound, above⟩ neither

/-- A composite over trees in memory. What was mounted at `/a` holds the directories above the mount
at `/a/b/c`, and has been detached. -/
def detached : System :=
  let s := (empty .counting).addMemory.addMemory.addMemory.addComposite 0
  let s := (s.mount 3 (.ofText "/a") 1).2
  let s := (s.mount 3 (.ofText "/a/b/c") 2).2
  (s.unmount 3 (.ofText "/a")).2

theorem detached_reached :
    detached.Reached [.memory 0, .memory 1, .memory 2, .composite 3] := by
  have trees := (Reached.empty .counting).addMemory.addMemory.addMemory
  have made := trees.addComposite (show 0 < _ by decide)
  have mounted := made.mount (b := 3) rfl (show 1 < _ by decide) (.ofText "/a")
  have below := mounted.mount (b := 3) rfl (show 2 < _ by decide) (.ofText "/a/b/c")
  exact below.unmount (b := 3) rfl (.ofText "/a")

/-- A listing succeeds where nothing is found. -/
theorem listed_without_directory :
    detached.Reachable ∧ detached.backends = [.memory 0, .memory 1, .memory 2, .composite 3] ∧
      detached.readdir 3 (.ofText "/a") = .ok [] ∧
      detached.stat 3 (.ofText "/a") = .error (.notFound "/a") :=
  ⟨detached_reached.reachable, detached_reached.backends, by decide +kernel⟩

/-- The path that is listed there lies above a mount. -/
theorem readdir_isOk_iff_detached : detached.Reachable ∧
    (detached.readdir 3 (.ofText "/a")).isOk = true ∧ detached.AboveMount 3 (.ofText "/a") := by
  have listed : (detached.readdir 3 (.ofText "/a")).isOk = true := by decide +kernel
  have missing : detached.stat 3 (.ofText "/a") = .error (.notFound "/a") := by decide +kernel
  refine ⟨detached_reached.reachable, listed, ?_⟩
  rcases (readdir_isOk_iff detached_reached.reachable 3 (.ofText "/a")).1 listed
    with ⟨attr, found, -⟩ | ⟨-, above⟩
  · cases missing.symm.trans found
  · exact above

/-- A composite over backends that lead nowhere else: trees in memory and stores, or
composites over such. -/
inductive Built (s : System) : BackendId → Prop
  | memory {b : BackendId} {tree : Nat} (there : s.backends[b]? = some (.memory tree)) : Built s b
  | keyValue {b : BackendId} {store : Nat} {readOnly : Bool}
      (there : s.backends[b]? = some (.keyValue store readOnly)) : Built s b
  | composite {b : BackendId} {table : Nat} (there : s.backends[b]? = some (.composite table))
      (parts : ∀ c, (s.volumes.tables table).Names c → Built s c) : Built s b

/-- Every path in a backend that is built from others leads to a place. -/
theorem Built.locate (built : s.Built b) (p : Path) : ∃ pl, s.locate b p = some pl := by
  induction built generalizing p with
  | @memory b tree there =>
    have arr : arrived s.backends (b, p) = some ⟨b, .tree tree, false, p⟩ := by
      rw [arrived, there]; rfl
    exact ⟨_, locate_of (locate_of_arrived arr 0)⟩
  | @keyValue b store readOnly there =>
    have arr : arrived s.backends (b, p) = some ⟨b, .store store, readOnly, p⟩ := by
      rw [arrived, there]
      rfl
    exact ⟨_, locate_of (locate_of_arrived arr 0)⟩
  | @composite b table there parts ih =>
    let r := (s.volumes.tables table).resolve p
    obtain ⟨pl, h⟩ := ih r.backend (MountTable.names_resolve _ p) r.relative
    have onward : MountSpace.locate s.backends s.volumes.tables (s.hopBudget r.relative + 1) b p =
        some pl := by
      rw [MountSpace.locate, there]
      exact h
    exact ⟨pl, locate_of onward⟩

/-- **Listings and inquiries agree**: a listing names nothing twice, and names just what an inquiry
finds inside the directory, with the kind that the inquiry reports. -/
theorem mem_readdir_iff_stat (reachable : s.Reachable) (built : s.Built b) {entries : List DirEntry}
    (listed : s.readdir b p = .ok entries) :
    (entries.map (·.name)).Nodup ∧ ∀ (n : Segment) (kind : FileKind),
      ⟨n.text, kind⟩ ∈ entries ↔ ∃ attr, s.stat b (p.child n) = .ok attr ∧ attr.kind = kind := by
  have inOrder := reachable.inOrder
  obtain ⟨pl, h⟩ := built.locate p
  have enumerates := readdir_enumerates inOrder.volumes h
  rw [readdir, fileSystems] at listed
  rw [listed] at enumerates
  refine ⟨enumerates.1, fun n kind => ?_⟩
  obtain ⟨ql, hq⟩ := built.locate (p.child n)
  rw [enumerates.2 n _ ql hq kind, ← look_located hq, inOrder.stat_kind_iff]

/-- A composite over a tree that has a file `/m` and a directory `/d`. Another composite is
mounted over the file. -/
def mountedOverFile : System :=
  let s := ((empty .counting).addMemory.addMemory.addComposite 1).addComposite 0
  let s := (s.writeAll 3 (.ofText "/m") [120]).2
  let s := (s.mkdir 3 (.ofText "/d") 0o755).2
  (s.mount 3 (.ofText "/m") 2).2

theorem mountedOverFile_reached :
    mountedOverFile.Reached [.memory 0, .memory 1, .composite 2, .composite 3] := by
  have inner := (Reached.empty .counting).addMemory.addMemory.addComposite (show 1 < _ by decide)
  have outer := inner.addComposite (show 0 < _ by decide)
  have filled := (outer.writeAll 3 (.ofText "/m") [120]).mkdir 3 (.ofText "/d") 0o755
  exact filled.mount (b := 3) rfl (show 2 < _ by decide) (.ofText "/m")

theorem mountedOverFile_built : mountedOverFile.Built 3 := by
  have tables : (let t := mountedOverFile.volumes.tables 2; t.root :: t.mounts.values) = [1] ∧
      (let t := mountedOverFile.volumes.tables 3; t.root :: t.mounts.values) = [0, 2] := by
    decide +kernel
  obtain ⟨inner, outer⟩ := tables
  have reached := mountedOverFile_reached
  have nested : mountedOverFile.Built 2 := by
    refine .composite (reached.at' rfl) fun c named => ?_
    rw [MountTable.names_iff, inner, List.mem_singleton] at named
    subst named
    exact .memory (reached.at' rfl)
  refine .composite (reached.at' rfl) fun c named => ?_
  rw [MountTable.names_iff, outer, List.mem_pair] at named
  rcases named with rfl | rfl
  · exact .memory (reached.at' rfl)
  · exact nested

/-- The file that the mount hides is listed as a directory, and an inquiry finds one. -/
theorem mem_readdir_iff_stat_mountedOverFile :
    mountedOverFile.readdir 3 .root = .ok [⟨"d", .directory⟩, ⟨"m", .directory⟩] ∧
      ∃ attr, mountedOverFile.stat 3 (.ofText "/m") = .ok attr ∧ attr.kind = .directory := by
  have listed : mountedOverFile.readdir 3 .root = .ok [⟨"d", .directory⟩, ⟨"m", .directory⟩] := by
    decide +kernel
  obtain ⟨-, agree⟩ :=
    mem_readdir_iff_stat mountedOverFile_reached.reachable mountedOverFile_built listed
  exact ⟨listed, (agree ⟨"m", by decide⟩ .directory).1 (List.mem_cons_of_mem _ List.mem_cons_self)⟩

end System

end MountSpace
