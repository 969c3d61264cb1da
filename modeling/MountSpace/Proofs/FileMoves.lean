import MountSpace.Proofs.Rename

/-!
# Renaming a file in a composite

A composite over backends that keep a tree each renames a file by the backend's own rename or by
copying it. Both come to the same: the file moves if there is room for it at the target, and
nothing else looks different.

- `Space.Receives`: there is room for a file at a path.
- `IsTree.opens_replacing_iff`, `movable_iff`, `relocate_file`: a copy can be opened there, and a
  file moves there, just if there is room.
- `MovesFile`: what comes of a move of a file. `movesFile_within`, `movesFile_across`: both ways of
  moving one come to it.
- `System.Unshared`, `look_volume`, `look_routed`: backends that keep a tree each,
  and what stands in them.
- `System.Separate`, `System.Leads`: each path of the composite has a place of its own.
- `rename_file`: when a rename of a file succeeds, and what it leaves.
-/

namespace MountSpace

/-! ## Room for a file -/

namespace Space

variable {S : Space} {p source target : Path} {perm : UInt32} {data : Bytes}

/-- There is room for a file at a path: a directory to hold it, and no directory in its place. -/
def Receives (S : Space) (p : Path) : Prop := S.IsDirectory p.parent ∧ ¬S.IsDirectory p

theorem file_or_none (h : ¬S.IsDirectory p) : S.IsFile p ∨ S p = none := by
  cases found : S p with
  | none => exact .inr rfl
  | some e =>
    cases e with
    | file perm data => exact .inl ⟨perm, data, found⟩
    | directory perm => exact absurd ⟨perm, found⟩ h

namespace IsTree

variable (tree : S.IsTree)
include tree

/-- Below what is not a directory there is nothing. -/
theorem nothing_below_nondirectory (h : ¬S.IsDirectory p) {k : Path} (strict : k ≠ .root) :
    S (p ++ k) = none :=
  tree.nothing_below (fun ⟨s, hs⟩ => h (tree.parent p s hs)) strict

theorem opens_replacing_iff : S.Opens p .replacing ↔ S.Receives p := by
  constructor
  · rintro (⟨file, -⟩ | ⟨free, -⟩)
    · exact ⟨tree.parent_of_file file, file.not_isDirectory⟩
    · exact ⟨free.2, fun directory => directory.ne_none free.1⟩
  · rintro ⟨holder, nodir⟩
    rcases file_or_none nodir with file | absent
    · exact .inl ⟨file, nofun⟩
    · exact .inr ⟨⟨absent, holder⟩, rfl⟩

theorem movable_iff (file : S.IsFile source) (ne : source ≠ target) :
    S.Movable source target ↔ S.Receives target := by
  obtain ⟨perm, data, found⟩ := file
  constructor
  · rintro ⟨-, e, he, same | ⟨-, holder, replaceable⟩⟩
    · exact absurd same ne
    · cases found.symm.trans he
      refine ⟨holder, fun ⟨perm', directory⟩ => ?_⟩
      cases (replaceable _ directory).1
  · rintro ⟨holder, nodir⟩
    refine ⟨tree.file_ne_root ⟨perm, data, found⟩, _, found,
      .inr ⟨fun below => ?_, holder, fun e he => ?_⟩⟩
    · -- Below the file there is nothing, and so no directory that could hold the target.
      obtain ⟨k, rfl⟩ := Path.isPrefixOf_iff.1 below
      rcases Path.root_or_child k with rfl | ⟨k, s, rfl⟩
      · exact ne (Path.append_root _).symm
      · rw [Path.append_child, Path.parent_child] at holder
        have nodir : ¬S.IsDirectory source := IsFile.not_isDirectory ⟨perm, data, found⟩
        by_cases hk : k = .root
        · rw [hk, Path.append_root] at holder
          exact nodir holder
        · exact holder.ne_none (tree.nothing_below_nondirectory nodir hk)
    · cases e with
      | directory perm' => exact absurd ⟨perm', he⟩ nodir
      | file perm' data' => exact ⟨rfl, tree.file_no_entries ⟨perm', data', he⟩⟩

/-- A file that moves takes nothing with it, and what it replaces has nothing below. -/
theorem relocate_file (found : S source = some (.file perm data)) (receives : S.Receives target)
    (ne : source ≠ target) :
    S.relocate source target = (S.put target (.file perm data)).remove source := by
  have file : S.IsFile source := ⟨perm, data, found⟩
  funext q
  by_cases below : target.isPrefixOf q = true
  · obtain ⟨k, rfl⟩ := Path.isPrefixOf_iff.1 below
    rw [relocate_below]
    by_cases hk : k = .root
    · rw [hk, Path.append_root, Path.append_root, remove_other ne.symm, put_self, found]
    · have here : target ++ k ≠ target := fun e => hk (Path.append_eq_left.1 e)
      rw [tree.nothing_below_nondirectory file.not_isDirectory hk]
      by_cases left : target ++ k = source
      · rw [left, remove_self]
      · rw [remove_other left, put_other _ here, tree.nothing_below_nondirectory receives.2 hk]
  · have here : q ≠ target := by
      rintro rfl
      exact below (Path.isPrefixOf_self q)
    by_cases left : source.isPrefixOf q = true
    · rw [relocate_left below left]
      obtain ⟨k, rfl⟩ := Path.isPrefixOf_iff.1 left
      by_cases hk : k = .root
      · rw [hk, Path.append_root, remove_self]
      · have away : source ++ k ≠ source := fun e => hk (Path.append_eq_left.1 e)
        rw [remove_other away, put_other _ here,
          tree.nothing_below_nondirectory file.not_isDirectory hk]
    · have away : q ≠ source := by
        rintro rfl
        exact left (Path.isPrefixOf_self q)
      rw [relocate_other below left, remove_other away, put_other _ here]

end IsTree

end Space

/-! ## Moving a file from place to place -/

/-- What comes of a move of a file with some content from one place to another: it stands at the
target and nowhere else is anything different, or there is no room for it. -/
def MovesFile (backends : List Backend) (v : Volumes) (pl pl' : Place) (data : Bytes) :
    Except FsError Unit × Volumes → Prop
  | (.ok _, v') => (v.space pl'.volume).Receives pl'.path ∧ ∃ perm, v.Becomes backends v'
      (setEntry (setEntry v.space pl' (some (.file perm data))) pl none)
  | (.error _, _) => ¬(v.space pl'.volume).Receives pl'.path

section

variable {backends : List Backend} {v : Volumes} {pl pl' : Place} {perm : UInt32} {data : Bytes}
variable (inOrder : v.InOrder backends) (arr : arrived backends (pl.backend, pl.path) = some pl)
variable (file : v.at pl = some (.file perm data))
include inOrder arr file

/-- A file at a place is reported as one and can be read. -/
theorem Place.file_found : ∃ attr, (pl.fileSystem backends).stat v pl.path = .ok attr ∧
    attr.isDir = false ∧ (pl.fileSystem backends).readAll v pl.path = .ok data := by
  have sound := pl.sound arr inOrder
  have stats := (pl.serves arr).stat v pl.path sound
  have reads := (pl.serves arr).readAll v pl.path sound
  have there : v.space pl.volume pl.path = some (.file perm data) := file
  cases hs : (pl.fileSystem backends).stat v pl.path with
  | error e =>
    rw [hs] at stats
    cases there.symm.trans stats
  | ok attr =>
    rw [hs] at stats
    obtain ⟨e, found, shows⟩ := stats
    cases there.symm.trans found
    cases hr : (pl.fileSystem backends).readAll v pl.path with
    | error e =>
      rw [hr] at reads
      exact absurd ⟨perm, data, there⟩ reads
    | ok data' =>
      rw [hr] at reads
      obtain ⟨perm', found⟩ := reads
      cases there.symm.trans found
      exact ⟨attr, rfl, by rw [FileAttr.isDir, shows.kind]; rfl, rfl⟩

/-- A backend moves a file by its own rename. -/
theorem movesFile_within {q : Path} (ne : pl.path ≠ q) (writable : pl.readOnly = false) :
    MovesFile backends v pl { pl with path := q } data
      (((pl.fileSystem backends).rename pl.path q).runOn v) := by
  have sound := pl.sound arr inOrder
  have movable := sound.tree.movable_iff ⟨perm, data, file⟩ ne
  have settles := (pl.serves arr).change v (.rename pl.path q) sound
  change Settles _ _ _ _ (((pl.fileSystem backends).rename pl.path q).runOn v) at settles
  generalize ((pl.fileSystem backends).rename pl.path q).runOn v = r at settles
  obtain ⟨e | _, v'⟩ := r
  · obtain ⟨-, -, reason⟩ := settles
    exact fun receives => reason writable (.inr rfl) (movable.2 receives)
  · obtain ⟨only, -, allowed, space⟩ := settles
    have receives := movable.1 allowed
    refine ⟨receives, perm, only.becomes inOrder ?_ fun u other => funext fun p => ?_⟩
    · -- In the volume of both places the two settings are those of a file that was put and removed.
      rw [space, Space.after, sound.tree.relocate_file file receives ne]
      funext p
      simp only [Space.remove, Space.put, setEntry, true_and]
    · rw [setEntry, if_neg fun h => other h.1, setEntry, if_neg fun h => other h.1]

/-- A file moves to another backend by copy. -/
theorem movesFile_across (arr' : arrived backends (pl'.backend, pl'.path) = some pl')
    (writable : pl.readOnly = false) (writable' : pl'.readOnly = false)
    (small : data.length ≤ maxFileLength) {hops : Nat} {source target : Route}
    (hs : source.backend = pl.backend ∧ source.relative = pl.path)
    (ht : target.backend = pl'.backend ∧ target.relative = pl'.path)
    (fresh : v.FreshAt
      ((Composite.renameAcross (fileSystem backends hops) source target).runOn v).2.ambient.draws
      pl'.volume) :
    MovesFile backends v pl pl' data
      ((Composite.renameAcross (fileSystem backends hops) source target).runOn v) := by
  obtain ⟨attr, stat, kind, read⟩ := Place.file_found inOrder arr file
  have here : fileSystem backends hops source.backend = pl.fileSystem backends := by
    rw [hs.1, fileSystem_arrived arr]
  have there : fileSystem backends hops target.backend = pl'.fileSystem backends := by
    rw [ht.1, fileSystem_arrived arr']
  have sound' := pl'.sound arr' inOrder
  have settles := (pl'.serves arr').openFile v pl'.path .replacing attr.perm sound'
  have starts : ∀ {r : Except FsError OpenFile × Volumes},
      ((pl'.fileSystem backends).openFile pl'.path .replacing attr.perm).runOn v = r →
      ((fileSystem backends hops target.backend).openFile target.relative .replacing
        attr.perm).runOn v = r := by
    rw [there, ht.2]
    exact id
  rw [← here, ← hs.2] at stat read
  have closed : (fileSystem backends hops source.backend).readOnly = false := by
    rw [here, (pl.serves arr).capability, writable]
  have closed' : (fileSystem backends hops target.backend).readOnly = false := by
    rw [there, (pl'.serves arr').capability, writable']
  rw [Composite.runOn_renameAcross_read _ _ _ closed closed' stat kind read] at fresh ⊢
  rcases ho : ((pl'.fileSystem backends).openFile pl'.path .replacing attr.perm).runOn v
    with ⟨e | f, v'⟩
  · -- The copy cannot be opened, and since all ids are new there is no room for it.
    rw [Action.runOn_bind_error (starts ho)] at fresh ⊢
    rw [ho] at settles
    exact fun receives => settles.2.2 writable' fresh (sound'.tree.opens_replacing_iff.2 receives)
  · rw [ho] at settles
    have receives := sound'.tree.opens_replacing_iff.1 settles.2.2.1
    have opens : Composite.CopyOpens (fileSystem backends hops) source target v v' attr data f :=
      ⟨closed, closed', stat, kind, read, starts ho⟩
    have source_at : locate backends v.tables hops source.backend source.relative = some pl := by
      rw [hs.1, hs.2]
      exact locate_of_arrived arr hops
    have target_at : locate backends v.tables hops target.backend target.relative = some pl' := by
      rw [ht.1, ht.2]
      exact locate_of_arrived arr' hops
    rw [Action.runOn_bind_ok (starts ho)]
    obtain ⟨v'', ⟨large, -, -⟩ | ⟨-, closed, -, -⟩ | ⟨-, -, moved, becomes⟩⟩ :=
      opens.becomes inOrder source_at target_at
    · exact absurd small (Nat.not_le.2 large)
    · exact nomatch writable.symm.trans closed
    · rw [moved]
      exact ⟨receives, _, becomes⟩

end

/-! ## A composite whose paths have places of their own -/

namespace System

/-- The volume of a backend that keeps a tree itself. -/
def volume? (s : System) (b : BackendId) : Option Volume := s.backends[b]?.bind Backend.volume?

/-- Some backends keep a tree each themselves, and no two of them the same. -/
structure Unshared (s : System) (among : BackendId → Prop) : Prop where
  kept : ∀ c, among c → ∃ vol, s.volume? c = some vol
  apart : ∀ c d, among c → among d → s.volume? c = s.volume? d → c = d

/-- Backends that keep the tree of their own number share none. -/
theorem Unshared.of_trees {s : System} {among : BackendId → Prop}
    (h : ∀ c, among c → s.volume? c = some (.tree c)) :
    s.Unshared among := by
  refine ⟨fun c hc => ⟨_, h c hc⟩, fun c d hc hd same => ?_⟩
  rw [h c hc, h d hd] at same
  exact Volume.tree.inj (Option.some.inj same)

/-- All backends of a table keep a tree themselves and can be changed, and no two of
them keep the same. -/
structure Separate (s : System) (table : Nat) : Prop where
  kept : ∀ c, (s.volumes.tables table).Names c → ∃ vol, s.volume? c = some vol
  writable : ∀ c, (s.volumes.tables table).Names c → s.isReadOnly c = false
  apart : ∀ c d, (s.volumes.tables table).Names c → (s.volumes.tables table).Names d →
    s.volume? c = s.volume? d → c = d

/-- The table sends a path to a place in a backend that can be changed. -/
structure Leads (s : System) (table : Nat) (p : Path) (pl : Place) : Prop where
  backend : ((s.volumes.tables table).resolve p).backend = pl.backend
  relative : ((s.volumes.tables table).resolve p).relative = pl.path
  arrived : arrived s.backends (pl.backend, pl.path) = some pl
  writable : pl.readOnly = false

/-- A path has the same kind, content and permission bits in two systems, or is absent in both. -/
structure SeenAs (s s' : System) (b : BackendId) (p : Path) : Prop extends ReadsAs s s' b p where
  perm : (s.stat b p).toOption.map (fun a => a.perm &&& permMask) =
    (s'.stat b p).toOption.map (fun a => a.perm &&& permMask)

variable {s s' : System} {b : BackendId} {table : Nat} {p q source target : Path}
  {pl ql pl' : Place}
variable {perm : UInt32} {data : Bytes}

/-- What looks the same is seen the same. -/
theorem InOrder.seenAs (inOrder : s.InOrder) (inOrder' : s'.InOrder)
    (same : s.look b p = s'.look b p) : s.SeenAs s' b p :=
  ⟨inOrder.readsAs inOrder' same, by rw [inOrder.perm_look, inOrder'.perm_look, same]⟩

theorem volume?_congr (same : s'.backends = s.backends) (c : BackendId) :
    s'.volume? c = s.volume? c := by
  rw [volume?, volume?, same]

theorem volume?_arrived (arr : MountSpace.arrived s.backends (pl.backend, pl.path) = some pl) :
    s.volume? pl.backend = some pl.volume := by
  rcases arrived_cases arr with ⟨i, hb, e⟩ | ⟨j, readOnly, hb, e⟩
  · rw [volume?, hb, e]
    rfl
  · rw [volume?, hb, e]
    rfl

/-- Every path in a backend that keeps a tree itself is at its end. -/
theorem arrived_of_volume? {vol : Volume} (h : s.volume? b = some vol) (p : Path) :
    MountSpace.arrived s.backends (b, p) = some ⟨b, vol, s.isReadOnly b, p⟩ := by
  rw [volume?] at h
  rw [MountSpace.arrived, isReadOnly]
  cases hb : s.backends[b]? with
  | none =>
    rw [hb] at h
    cases h
  | some x =>
    rw [hb] at h
    cases x with
    | memory i =>
      cases h
      rfl
    | keyValue j readOnly =>
      cases h
      rfl
    | faulty inner faults capabilities => cases h
    | composite table' => cases h

/-- What stands at a path in a backend that keeps a tree itself. -/
theorem look_volume {vol : Volume} (h : s.volume? b = some vol) (p : Path) :
    s.look b p = s.volumes.space vol p :=
  look_located (locate_of (locate_of_arrived (arrived_of_volume? h p) 0))

/-- What stands at a path in a composite stands where the table sends the path. -/
theorem look_routed (there : s.backends[b]? = some (.composite table)) {vol : Volume}
    (h : s.volume? ((s.volumes.tables table).resolve p).backend = some vol) :
    s.look b p = s.volumes.space vol ((s.volumes.tables table).resolve p).relative := by
  let r := (s.volumes.tables table).resolve p
  have next : MountSpace.locate s.backends s.volumes.tables 1 b p =
      some ⟨r.backend, vol, s.isReadOnly r.backend, r.relative⟩ := by
    rw [MountSpace.locate, there]
    exact locate_of_arrived (arrived_of_volume? h r.relative) 0
  exact look_located (locate_of next)

theorem Separate.leads (separate : s.Separate table) (p : Path) : ∃ pl, s.Leads table p pl := by
  have named := (s.volumes.tables table).names_resolve p
  obtain ⟨vol, hv⟩ := separate.kept _ named
  have arr := arrived_of_volume? hv ((s.volumes.tables table).resolve p).relative
  exact ⟨⟨_, vol, _, _⟩, rfl, rfl, arr, separate.writable _ named⟩

namespace Leads

/-- A path in a composite leads where its table sends it. -/
theorem locate (leads : s.Leads table p pl) (there : s.backends[b]? = some (.composite table)) :
    s.locate b p = some pl := by
  have next : MountSpace.locate s.backends s.volumes.tables 1 b p = some pl := by
    rw [MountSpace.locate, there]
    dsimp only
    rw [leads.backend, leads.relative]
    exact locate_of_arrived leads.arrived 0
  exact locate_of next

/-- The directory above a path that is not a mount point is in the same backend. -/
theorem parent (leads : s.Leads table p pl)
    (free : (s.volumes.tables table).isMountPoint p = false) :
    s.Leads table p.parent { pl with path := pl.path.parent } := by
  obtain ⟨backend, relative⟩ := MountTable.resolve_parent free
  exact ⟨backend.trans leads.backend, relative.trans (congrArg Path.parent leads.relative),
    arrived_beside leads.arrived _, leads.writable⟩

/-- Two paths do not lead to one place. -/
theorem eq_of_same (separate : s.Separate table) (valid : (s.volumes.tables table).Valid)
    (leads : s.Leads table p pl) (leads' : s.Leads table q ql) (same : pl.Same ql) : p = q := by
  have one : ((s.volumes.tables table).resolve p).backend =
      ((s.volumes.tables table).resolve q).backend := by
    refine separate.apart _ _ (MountTable.names_resolve _ p) (MountTable.names_resolve _ q) ?_
    rw [leads.backend, leads'.backend]
    rw [volume?_arrived leads.arrived, volume?_arrived leads'.arrived, same.1]
  exact valid.resolve_injective one (leads.relative.trans (same.2.trans leads'.relative.symm))

end Leads

/-- A rename is refused at a mount point and above one. -/
theorem rename_busy (there : s.backends[b]? = some (.composite table))
    (busy : ¬((s.volumes.tables table).IsClear source ∧ (s.volumes.tables table).IsClear target)) :
    ∃ e, (s.rename b source target).1 = .error e := by
  obtain ⟨k, -, -, eq⟩ := rename_eq there source target
  rw [eq, run]
  rcases Composite.runOn_rename (fileSystem s.backends k) (s.volumes.tables table) source target
    s.volumes with ⟨-, e, hr⟩ | ⟨clear, clear', -⟩
  · rw [hr]
    exact ⟨e, rfl⟩
  · exact absurd ⟨clear, clear'⟩ busy

/-- A rename of a file, where the guards let it pass, moves the file if there is room for it. -/
theorem rename_movesFile (inOrder : s.InOrder) (there : s.backends[b]? = some (.composite table))
    (clear : (s.volumes.tables table).IsClear source)
    (clear' : (s.volumes.tables table).IsClear target) (hs : s.Leads table source pl)
    (ht : s.Leads table target pl') (file : s.volumes.at pl = some (.file perm data))
    (other : target ≠ source) (small : data.length ≤ maxFileLength)
    (fresh : s.volumes.FreshAt (s.rename b source target).2.volumes.ambient.draws pl'.volume) :
    MovesFile s.backends s.volumes pl pl' data
      ((s.rename b source target).1, (s.rename b source target).2.volumes) := by
  obtain ⟨k, -, -, eq⟩ := rename_eq there source target
  rw [eq, run] at fresh ⊢
  rcases Composite.runOn_rename (fileSystem s.backends k) (s.volumes.tables table) source target
    s.volumes with ⟨busy, -⟩ | ⟨-, -, hr⟩
  · exact absurd ⟨clear, clear'⟩ busy
  rw [hr] at fresh ⊢
  by_cases one : ((s.volumes.tables table).resolve source).backend =
      ((s.volumes.tables table).resolve target).backend
  · rw [if_pos one, hs.backend, hs.relative, ht.relative, fileSystem_arrived hs.arrived]
    -- The backend of the source keeps the place of the target, too.
    have backend : pl'.backend = pl.backend := by rw [← hs.backend, ← ht.backend, one]
    have kept := ht.arrived
    rw [backend] at kept
    have place : { pl with path := pl'.path } = pl' :=
      Option.some.inj ((arrived_beside hs.arrived pl'.path).symm.trans kept)
    have ne : pl.path ≠ pl'.path := by
      intro same
      have valid := inOrder.volumes.valid b table there
      refine other (valid.resolve_injective one.symm ?_)
      rw [hs.relative, ht.relative, same]
    have moves := movesFile_within inOrder.volumes hs.arrived file ne hs.writable
    rwa [place] at moves
  · rw [if_neg one] at fresh ⊢
    exact movesFile_across inOrder.volumes hs.arrived file ht.arrived hs.writable ht.writable small
      ⟨hs.backend, hs.relative⟩ ⟨ht.backend, ht.relative⟩ fresh

/-- An inquiry reports a directory where one stands at the place. -/
theorem stat_isDir_iff (inOrder : s.InOrder) :
    (∃ a, s.stat b p = .ok a ∧ a.isDir = true) ↔ ∃ perm, s.look b p = some (.directory perm) := by
  have kinds : (∃ a, s.stat b p = .ok a ∧ a.kind = .directory) ↔ _ := inOrder.stat_kind_iff
  simp only [FileAttr.isDir, FileKind.isDir, beq_iff_eq]
  rw [kinds, Option.map_eq_some_iff]
  constructor
  · rintro ⟨e, found, kind⟩
    exact Space.isDirectory_of_kind found kind
  · rintro ⟨perm, found⟩
    exact ⟨_, found, rfl⟩

/-- There is room at a path that is not a mount point just if the directory above it is there,
and the path is none. -/
theorem Leads.receives_iff (inOrder : s.InOrder) (there : s.backends[b]? = some (.composite table))
    (leads : s.Leads table p pl) (free : (s.volumes.tables table).isMountPoint p = false) :
    (s.volumes.space pl.volume).Receives pl.path ↔
      (∃ a, s.stat b p.parent = .ok a ∧ a.isDir = true) ∧
      ¬∃ a, s.stat b p = .ok a ∧ a.isDir = true := by
  rw [stat_isDir_iff inOrder, stat_isDir_iff inOrder, look_located (leads.locate there),
    look_located ((leads.parent free).locate there)]
  exact Iff.rfl

/-- Of a file there are attributes that show it. -/
theorem InOrder.exists_shows (inOrder : s.InOrder) (look : s.look b p = some (.file perm data)) :
    ∃ a, s.stat b p = .ok a ∧ (Entry.file perm data).Shows a := by
  have stats := inOrder.stats_look b p
  cases found : s.stat b p with
  | error e =>
    rw [found] at stats
    cases look.symm.trans stats
  | ok a =>
    rw [found] at stats
    obtain ⟨e, stands, shows⟩ := stats
    cases look.symm.trans stands
    exact ⟨a, rfl, shows⟩

/-- A file of a size that can be recorded is reported with its size. -/
theorem stat_of_look (inOrder : s.InOrder) (file : s.look b p = some (.file perm data))
    (small : data.length ≤ maxFileLength) :
    ∃ a, s.stat b p = .ok a ∧ a.isFile = true ∧ a.size.toNat = data.length := by
  obtain ⟨a, told, shows⟩ := inOrder.exists_shows file
  refine ⟨a, told, by rw [FileAttr.isFile, shows.kind]; rfl, ?_⟩
  have bound : maxFileLength = 4294967295 := rfl
  rw [shows.size data rfl small, Nat.toUInt64_eq, UInt64.toNat_ofNat']
  exact Nat.mod_eq_of_lt (by omega)

/-- A path whose place looks as before is seen as before. -/
theorem Leads.seen_same (inOrder : s.InOrder) (there : s.backends[b]? = some (.composite table))
    (leads : s.Leads table q ql) {v' : Volumes} {w : Volume → Space}
    (becomes : s.volumes.Becomes s.backends v' w) (same : w ql.volume ql.path = s.volumes.at ql) :
    s.SeenAs ⟨s.backends, v'⟩ b q := by
  have inOrder' : System.InOrder ⟨s.backends, v'⟩ := ⟨becomes.inOrder, inOrder.within⟩
  have at' := leads.locate there
  exact inOrder.seenAs inOrder' (by rw [look_located at', look_of_becomes becomes at', same])

/-- What is seen after a file has moved to another path. -/
theorem Leads.seen_moved (inOrder : s.InOrder) (there : s.backends[b]? = some (.composite table))
    (separate : s.Separate table) (hs : s.Leads table source pl) (ht : s.Leads table target pl')
    (other : target ≠ source) (small : data.length ≤ maxFileLength) {v' : Volumes}
    (becomes : s.volumes.Becomes s.backends v'
      (setEntry (setEntry s.volumes.space pl' (some (.file perm data))) pl none)) :
    (System.stat ⟨s.backends, v'⟩ b source).isOk = false ∧
      (∃ a, System.readAll ⟨s.backends, v'⟩ b target = .ok data ∧
        System.stat ⟨s.backends, v'⟩ b target = .ok a ∧ a.isFile = true ∧
        a.size.toNat = data.length) ∧
      ∀ q, q ≠ source → q ≠ target → s.SeenAs ⟨s.backends, v'⟩ b q := by
  have inOrder' : System.InOrder ⟨s.backends, v'⟩ := ⟨becomes.inOrder, inOrder.within⟩
  have valid := inOrder.volumes.valid b table there
  refine ⟨?_, ?_, fun q away away' => ?_⟩
  · rw [stat_isOk inOrder', look_of_becomes becomes (hs.locate there), setEntry_same ⟨rfl, rfl⟩]
    rfl
  · have file : System.look ⟨s.backends, v'⟩ b target = some (.file perm data) := by
      rw [look_of_becomes becomes (ht.locate there)]
      rw [setEntry_other fun same => other (ht.eq_of_same separate valid hs same)]
      exact setEntry_same ⟨rfl, rfl⟩
    obtain ⟨a, stat, isFile, size⟩ := stat_of_look inOrder' file small
    exact ⟨a, readAll_of_look inOrder' file, stat, isFile, size⟩
  · obtain ⟨ql, hq⟩ := separate.leads q
    refine hq.seen_same inOrder there becomes ?_
    rw [setEntry_other fun same => away (hq.eq_of_same separate valid hs same)]
    exact setEntry_other fun same => away' (hq.eq_of_same separate valid ht same)

/-- **Renaming a file**: in a composite over backends that keep a tree each and can be changed, a
rename of a file succeeds just if neither path is a mount point or above one, the directory above
the target is there, and the target is no directory. Whether by the backend's own rename or by
copy, the file has gone from the source then, stands at the target with its content, and every
other path is seen as before. -/
theorem rename_file (reachable : s.Reachable) (there : s.backends[b]? = some (.composite table))
    (separate : s.Separate table) {attr : FileAttr} (found : s.stat b source = .ok attr)
    (isFile : attr.isFile = true) (other : target ≠ source)
    (small : ∀ data, s.readAll b source = .ok data → data.length ≤ maxFileLength)
    (fresh : ∀ pl, s.locate b target = some pl →
      s.volumes.FreshAt (s.rename b source target).2.volumes.ambient.draws pl.volume) :
    ((s.rename b source target).1 = .ok () ↔
      (s.volumes.tables table).IsClear source ∧ (s.volumes.tables table).IsClear target ∧
        (∃ a, s.stat b target.parent = .ok a ∧ a.isDir = true) ∧
        ¬∃ a, s.stat b target = .ok a ∧ a.isDir = true) ∧
    ((s.rename b source target).1 = .ok () →
      ((s.rename b source target).2.stat b source).isOk = false ∧
      (∃ data a, s.readAll b source = .ok data ∧
        (s.rename b source target).2.readAll b target = .ok data ∧
        (s.rename b source target).2.stat b target = .ok a ∧ a.isFile = true ∧
        a.size.toNat = data.length) ∧
      ∀ q, q ≠ source → q ≠ target → s.SeenAs (s.rename b source target).2 b q) := by
  have inOrder := reachable.inOrder
  obtain ⟨pl, hs⟩ := separate.leads source
  obtain ⟨pl', ht⟩ := separate.leads target
  obtain ⟨perm, data, file⟩ : ∃ perm data, s.look b source = some (.file perm data) := by
    have stats := inOrder.stats_look b source
    rw [found] at stats
    obtain ⟨e, look, shows⟩ := stats
    rw [FileAttr.isFile, shows.kind] at isFile
    obtain ⟨perm, data, file⟩ := Space.isFile_of_kind look (beq_iff_eq.1 isFile)
    exact ⟨perm, data, file⟩
  have read := readAll_of_look inOrder file
  rw [look_located (hs.locate there)] at file
  by_cases clear : (s.volumes.tables table).IsClear source ∧ (s.volumes.tables table).IsClear target
  case neg =>
    obtain ⟨e, refused⟩ := rename_busy there clear
    rw [refused]
    exact ⟨⟨nofun, fun h => absurd ⟨h.1, h.2.1⟩ clear⟩, nofun⟩
  obtain ⟨clear, clear'⟩ := clear
  have room := ht.receives_iff inOrder there clear'.1
  have moves := rename_movesFile inOrder there clear clear' hs ht file other (small data read)
    (fresh pl' (ht.locate there))
  have after : (s.rename b source target).2 = ⟨s.backends, (s.rename b source target).2.volumes⟩ :=
    rfl
  rw [after]
  generalize (s.rename b source target).2.volumes = v' at moves
  generalize (s.rename b source target).1 = result at moves
  cases result with
  | error e => exact ⟨⟨nofun, fun h => absurd (room.2 h.2.2) moves⟩, nofun⟩
  | ok _ =>
    obtain ⟨receives, perm', becomes⟩ := moves
    refine ⟨⟨fun _ => ⟨clear, clear', room.1 receives⟩, fun _ => rfl⟩, fun _ => ?_⟩
    obtain ⟨gone, ⟨a, read', stat', isFile', size⟩, elsewhere⟩ :=
      hs.seen_moved inOrder there separate ht other (small data read) becomes
    exact ⟨gone, ⟨data, a, read, read', stat', isFile', size⟩, elsewhere⟩

/-- A mount directly below the root creates nothing: it changes tables alone. -/
theorem mount_shallow (shallow : p.strictAncestors = []) (table : Nat) (c : BackendId) :
    ∃ tables, (s.mount table p c).2.volumes = { s.volumes with tables } := by
  rw [mount, run, Composite.mount, Action.runOn_get_bind, Action.runOn_ofExcept_bind]
  cases (s.volumes.tables table).checkAvailable p c (s.fileSystems p c).name with
  | error e => exact ⟨_, rfl⟩
  | ok _ =>
    dsimp only
    rw [Composite.ensureAncestors, shallow, List.forM_eq_forM, List.forM_nil,
      Action.runOn_pure_bind, Action.runOn_ofExcept_bind]
    cases (s.volumes.tables table).insert p c (s.fileSystems p c).name with
    | error e => exact ⟨_, rfl⟩
    | ok t => exact ⟨_, rfl⟩

/-- A composite over a tree that holds a file `/f`. -/
def fileInTree : System :=
  (((empty .counting).addMemory.addComposite 0).writeAll 1 (.ofText "/f") [120]).2

/-- The same composite with a store mounted at `/n`. -/
def besideStore (s : System) : System := (s.mount 1 (.ofText "/n") 2).2

theorem fileInTree_reached : fileInTree.Reached [.memory 0, .composite 1] := by
  have made := (Reached.empty .counting).addMemory.addComposite (show 0 < _ by decide)
  exact made.writeAll 1 (.ofText "/f") [120]

section

variable {s : System} (made : fileInTree.addKeyValue (.ofRecords ∅) false = .ok s)
include made

theorem besideStore_reached :
    s.besideStore.Reached [.memory 0, .composite 1, .keyValue 2 false] := by
  have stored := fileInTree_reached.addKeyValue rfl made
  exact stored.mount (b := 1) rfl (show 2 < _ by decide) (.ofText "/n")

/-- The first three ids are new to the store. -/
theorem besideStore_fresh : s.besideStore.volumes.FreshAt 3 (.store 2) := by
  have apart :
      ∀ n < 3, ∀ m < n, fileInTree.volumes.ambient.ids m ≠ fileInTree.volumes.ambient.ids n := by
    decide +kernel
  obtain ⟨tables, mounted⟩ := mount_shallow (s := s) (p := .ofText "/n") rfl 1 2
  obtain ⟨t, F, made', -, -, fresh, -⟩ | ⟨e, failed, -⟩ :=
    fileInTree.addKeyValue_cases (.ofRecords ∅) rfl false
  case inr => cases made.symm.trans failed
  cases made.symm.trans made'
  rw [besideStore, mounted]
  show Transaction.Fresh ⟨((fileInTree.volumes.withRecords fileInTree.next (.ofRecords ∅)).committed
    fileInTree.next t).stores 2, t.ambient⟩ 3
  rw [← show fileInTree.next = 2 from fileInTree_reached.next, Volumes.stores_committed]
  exact fresh 3 ⟨fun _ => rfl, fun m n _ lt bound => apart n bound m lt, fun _ _ _ => rfl⟩

end

/-- The file moves from the tree to the store. -/
theorem besideStore_rename : ∀ s ∈ (fileInTree.addKeyValue (.ofRecords ∅) false).toOption,
    (let t := s.besideStore.volumes.tables 1; t.root :: t.mounts.values) = [0, 2] ∧
      s.besideStore.readAll 1 (.ofText "/f") = .ok [120] ∧
      s.besideStore.locate 1 (.ofText "/n/g") = some ⟨2, .store 2, false, .ofText "/g"⟩ ∧
      (s.besideStore.rename 1 (.ofText "/f") (.ofText "/n/g")).1 = .ok () ∧
      (s.besideStore.rename 1 (.ofText "/f") (.ofText "/n/g")).2.volumes.ambient.draws = 3 := by
  decide +kernel

/-- The tree and the store are different volumes. -/
theorem besideStore_separate {s : System}
    (reached : s.besideStore.Reached [.memory 0, .composite 1, .keyValue 2 false])
    (names : (let t := s.besideStore.volumes.tables 1; t.root :: t.mounts.values) = [0, 2]) :
    s.besideStore.Separate 1 := by
  have named : ∀ c, (s.besideStore.volumes.tables 1).Names c → c = 0 ∨ c = 2 := by
    intro c hc
    rwa [MountTable.names_iff, names, List.mem_pair] at hc
  have tree : s.besideStore.volume? 0 = some (.tree 0) := by
    rw [volume?, reached.backends]
    rfl
  have store : s.besideStore.volume? 2 = some (.store 2) := by
    rw [volume?, reached.backends]
    rfl
  refine ⟨fun c hc => ?_, fun c hc => ?_, fun c d hc hd same => ?_⟩
  · rcases named c hc with rfl | rfl
    · exact ⟨_, tree⟩
    · exact ⟨_, store⟩
  · rw [isReadOnly, reached.backends]
    rcases named c hc with rfl | rfl <;> rfl
  · rcases named c hc with rfl | rfl <;> rcases named d hd with rfl | rfl
    · rfl
    · cases tree.symm.trans (same.trans store)
    · cases store.symm.trans (same.trans tree)
    · rfl

/-- The file has gone from the tree, and can be read in the store. -/
theorem rename_file_besideStore :
    ∃ s : System, s.Reachable ∧ s.backends = [.memory 0, .composite 1, .keyValue 2 false] ∧
      s.readAll 1 (.ofText "/f") = .ok [120] ∧
      ((s.rename 1 (.ofText "/f") (.ofText "/n/g")).2.stat 1 (.ofText "/f")).isOk = false ∧
      (s.rename 1 (.ofText "/f") (.ofText "/n/g")).2.readAll 1 (.ofText "/n/g") = .ok [120] := by
  obtain ⟨t, F, made, -⟩ | ⟨e, -, refused⟩ := fileInTree.addKeyValue_cases (.ofRecords ∅) rfl false
  case inr => exact absurd (fun _ => rfl) refused
  have reached := besideStore_reached made
  have new := besideStore_fresh made
  obtain ⟨names, read, target_at, renamed, drawn⟩ := besideStore_rename _ (by rw [made]; rfl)
  generalize System.add _ _ = s at made reached new names read target_at renamed drawn
  obtain ⟨perm, file⟩ := look_of_readAll reached.reachable.inOrder read
  obtain ⟨attr, found, isFile, -⟩ := stat_of_look reached.reachable.inOrder file (by decide)
  have other : Path.ofText "/n/g" ≠ Path.ofText "/f" := by decide
  have small : ∀ data, s.besideStore.readAll 1 (.ofText "/f") = .ok data →
      data.length ≤ maxFileLength := by
    intro data read'
    cases read.symm.trans read'
    decide
  have fresh : ∀ pl, s.besideStore.locate 1 (.ofText "/n/g") = some pl →
      s.besideStore.volumes.FreshAt
        (s.besideStore.rename 1 (.ofText "/f") (.ofText "/n/g")).2.volumes.ambient.draws
        pl.volume := by
    intro pl at'
    cases target_at.symm.trans at'
    rw [drawn]
    exact new
  obtain ⟨-, effect⟩ :=
    rename_file reached.reachable (reached.at' rfl) (besideStore_separate reached names)
    found isFile other small fresh
  obtain ⟨gone, ⟨data, a, read', landed, -⟩, -⟩ := effect renamed
  cases read.symm.trans read'
  exact ⟨s.besideStore, reached.reachable, reached.backends, read, gone, landed⟩

end System

end MountSpace
