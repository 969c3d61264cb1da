import MountSpace.Proofs.Directories
import MountSpace.Proofs.FileMoves

/-!
# Calls that concern one path

In a composite whose paths have places of their own, a directory is made, an entry removed or a file
written at one path. The call sets what stands at the place of that path, or nothing; what stands
anywhere else looks as before.

- `PathChange`: the changes that concern one path, and what each of them leaves there.
- `Place.change_becomes`, `Leads.writeAll_becomes`: one call sets what stands at one place.
- `System.DiffersAt`, `Leads.differsAt`: every other path is seen as before.
- `Leads.stat_made`, `Leads.readdir_made`: a directory that was made is empty, but for mounts.
- `call_concerns_its_path`: all calls that concern one path.
-/

namespace MountSpace

/-- A change of what stands at one path. -/
inductive PathChange where
  | mkdir (mode : UInt32)
  | unlink
  | rmdir

namespace PathChange

/-- The change at a path. -/
def on (p : Path) : PathChange → Change
  | mkdir mode => .mkdir p mode
  | unlink => .unlink p
  | rmdir => .rmdir p

/-- What stands at the path afterwards. -/
def leaves : PathChange → Option Entry
  | mkdir mode => some (.directory (mode &&& permMask))
  | unlink => none
  | rmdir => none

theorem after_on (c : PathChange) (S : Space) (p q : Path) :
    S.after (c.on p) q = if q = p then c.leaves else S q := by
  cases c <;> rfl

end PathChange

/-! ## One place -/

section

variable {backends : List Backend} {v v' : Volumes} {pl : Place} {e : Option Entry}

/-- What stands at a place may be set to what is there. -/
theorem Volumes.Becomes.unchanged (h : v.Becomes backends v' v.space) :
    v.Becomes backends v' (setEntry v.space pl (v.at pl)) := by
  have here : setEntry v.space pl (v.at pl) = v.space := setEntry_eq rfl
  rwa [here]

namespace Place

variable (arr : arrived backends (pl.backend, pl.path) = some pl) (inOrder : v.InOrder backends)
include arr inOrder

/-- A change sets what stands at its place. One that fails leaves what was there. -/
theorem change_becomes (c : PathChange) :
    ∃ v', (((pl.fileSystem backends).change (c.on pl.path)).runOn v = (.ok (), v') ∧
        (v.space pl.volume).Allows (c.on pl.path) ∧
        v.Becomes backends v' (setEntry v.space pl c.leaves)) ∨
      (∃ e, ((pl.fileSystem backends).change (c.on pl.path)).runOn v = (.error e, v') ∧
        v.Becomes backends v' v.space) := by
  have settles := (pl.serves arr).change v (c.on pl.path) (pl.sound arr inOrder)
  generalize ((pl.fileSystem backends).change (c.on pl.path)).runOn v = r at settles
  obtain ⟨e | _, v'⟩ := r
  · obtain ⟨only, space, -⟩ := settles
    exact ⟨v', .inr ⟨e, rfl, only.becomes_same inOrder space⟩⟩
  · obtain ⟨only, -, allowed, space⟩ := settles
    refine ⟨v', .inl ⟨rfl, allowed, only.becomes_set inOrder fun p => ?_⟩⟩
    rw [space, c.after_on]

/-- A file that was opened to be replaced is there or has been created. -/
theorem openFile_sets (mode : UInt32) {f : OpenFile}
    (opened : ((pl.fileSystem backends).openFile pl.path .replacing mode).runOn v = (.ok f, v')) :
    ∃ e, v.Becomes backends v' (setEntry v.space pl e) := by
  obtain ⟨-, -, -, -, becomes⟩ := openFile_becomes arr inOrder mode opened
  split at becomes
  · exact ⟨_, becomes⟩
  · exact ⟨_, becomes.unchanged⟩

/-- A directory that has no entries is listed as empty. -/
theorem readdir_empty (dir : (v.space pl.volume).IsDirectory pl.path)
    (empty : ¬(v.space pl.volume).HasEntries pl.path) :
    (pl.fileSystem backends).readdir v pl.path = .ok [] := by
  have enumerates := (pl.serves arr).readdir v pl.path (pl.sound arr inOrder)
  cases hr : (pl.fileSystem backends).readdir v pl.path with
  | error e =>
    rw [hr] at enumerates
    exact absurd dir enumerates
  | ok entries =>
    rw [hr] at enumerates
    have none' : entries = [] := by
      refine List.eq_nil_iff_forall_not_mem.2 fun d mem => ?_
      obtain ⟨s, e, found, -⟩ := (enumerates.2.mem d).1 mem
      exact empty ⟨s, by rw [found]; exact Option.some_ne_none e⟩
    rw [none']

omit inOrder in
/-- A directory is reported with the permission bits it was made with, and no others. -/
theorem perm_of_mkdir {mode : UInt32} {a : FileAttr}
    (made : ((pl.fileSystem backends).mkdir pl.path mode).runOn v = (.ok (), v'))
    (shows : (Entry.directory (mode &&& permMask)).Shows a)
    (found : (pl.fileSystem backends).stat v' pl.path = .ok a) : a.perm = mode &&& permMask := by
  rcases arrived_cases arr with ⟨i, hb, e⟩ | ⟨j, readOnly, hb, e⟩
  · rw [Place.fileSystem, fileSystem_memory hb] at made found
    change
      (Volumes.now >>= fun now => Volumes.changeTree i (·.mkdir pl.path mode now)).runOn v = _
      at made
    rw [Volumes.runOn_now_bind, Volumes.runOn_changeTree] at made
    split at made
    next t ht =>
      cases made
      change (setAt v.ticked.trees i t i).stat pl.path = .ok a at found
      rw [setAt_self, MemoryTree.stat_mkdir ht] at found
      cases found
      rfl
    next => cases made
  · -- Attributes of an inode have no other bits.
    rw [Place.fileSystem, fileSystem_keyValue hb] at found
    change RecordTree.stat (v'.stores j) pl.path = .ok a at found
    rw [RecordTree.stat] at found
    cases hl : (v'.stores j).lookup pl.path with
    | error e =>
      rw [hl] at found
      cases found
    | ok r =>
      rw [hl] at found
      cases found
      have perm := shows.perm
      rwa [Inode.perm_toAttr, Inode.perm_masked, ← Inode.perm_toAttr] at perm

end Place

end

/-- A composite refuses a change at a path, or sends it on to the backend of the path. -/
theorem Composite.runOn_change (table : Nat) (child : BackendId → FileSystem) (c : PathChange)
    (p : Path) (v : Volumes) :
    (∃ e, ((FileSystem.composite table child).change (c.on p)).runOn v = (.error e, v)) ∨
      ((FileSystem.composite table child).change (c.on p)).runOn v =
        ((child ((v.tables table).resolve p).backend).change
          (c.on ((v.tables table).resolve p).relative)).runOn v := by
  have guarded : ∀ (guard : Except FsError Route) (act : Route → Action Volumes Unit),
      (∀ r, guard = .ok r → r = (v.tables table).resolve p) →
      (∃ e, (Action.ofExcept guard >>= act).runOn v = (.error e, v)) ∨
        (Action.ofExcept guard >>= act).runOn v = (act ((v.tables table).resolve p)).runOn v := by
    intro guard act leads
    rw [Action.runOn_ofExcept_bind]
    cases guard with
    | error e => exact .inl ⟨e, rfl⟩
    | ok r => exact .inr (by rw [leads r rfl])
  cases c with
  | mkdir mode =>
    exact guarded _ (fun r => (child r.backend).mkdir r.relative mode) fun r h =>
      guardMountPoint_ok h
  | unlink => exact guarded _ (fun r => (child r.backend).unlink r.relative) fun r h =>
    guardMountPoint_ok h
  | rmdir => exact guarded _ (fun r => (child r.backend).rmdir r.relative) fun r h =>
    (guardSubtree_ok h).1

namespace System

variable {s : System} {b : BackendId} {table : Nat} {p q : Path} {pl : Place} {e : Option Entry}
variable {data : Bytes} {v' : Volumes}

section

variable (inOrder : s.InOrder) (there : s.backends[b]? = some (.composite table))
variable (leads : s.Leads table p pl)
include inOrder there leads

/-- A change at a path sets what stands at the place of the path if it succeeds,
and nothing otherwise. -/
theorem Leads.change_becomes (c : PathChange) :
    ∃ r v', ((s.fileSystems p b).change (c.on p)).runOn s.volumes = (r, v') ∧
      (r = .ok () ∧ (s.volumes.space pl.volume).Allows (c.on pl.path) ∧
          ((pl.fileSystem s.backends).change (c.on pl.path)).runOn s.volumes = (.ok (), v') ∧
          s.volumes.Becomes s.backends v' (setEntry s.volumes.space pl c.leaves) ∨
        r ≠ .ok () ∧ s.volumes.Becomes s.backends v' s.volumes.space) := by
  obtain ⟨k, -, asked⟩ := fileSystems_composite there p
  rw [asked]
  rcases Composite.runOn_change table (fileSystem s.backends k) c p s.volumes
    with ⟨e, refused⟩ | onward
  · exact ⟨_, _, refused, .inr ⟨nofun, rfl, inOrder.volumes, rfl⟩⟩
  rw [onward, leads.backend, leads.relative, fileSystem_arrived leads.arrived]
  obtain ⟨v', ⟨hr, allowed, becomes⟩ | ⟨e, hr, becomes⟩⟩ :=
    Place.change_becomes leads.arrived inOrder.volumes c
  · exact ⟨_, _, hr, .inl ⟨rfl, allowed, hr, becomes⟩⟩
  · exact ⟨_, _, hr, .inr ⟨nofun, becomes⟩⟩

/-- Writing a file sets what stands at the place of its path: the file, or what
opening it has left. -/
theorem Leads.writeAll_becomes (data : Bytes) :
    ∃ r v' e, ((s.fileSystems p b).writeAll (s.fileSystems p) p data).runOn s.volumes = (r, v') ∧
      s.volumes.Becomes s.backends v' (setEntry s.volumes.space pl e) ∧
      (r = .ok () → data.length ≤ maxFileLength ∧ ∃ perm, e = some (.file perm data)) := by
  have arr := leads.arrived
  rw [FileSystem.writeAll_eq, Action.runOn_bind, fileSystems, openFile_located (leads.locate there)]
  rcases ho : ((pl.fileSystem s.backends).openFile pl.path .replacing newFilePerm).runOn s.volumes
    with ⟨e | f, v'⟩
  · exact ⟨_, _, _, rfl, (Place.openFile_becomes_error arr inOrder.volumes _ _ ho).unchanged,
      fun ok => by cases ok⟩
  obtain ⟨writable, -, blank, file, -⟩ := Place.openFile_becomes arr inOrder.volumes _ ho
  obtain ⟨e, opened⟩ := Place.openFile_sets arr inOrder.volumes _ ho
  have own : s.fileSystems p pl.backend = pl.fileSystem s.backends := fileSystem_arrived arr _
  obtain ⟨v'', ⟨small, hr, filled⟩ | ⟨-, same, e', hr⟩⟩ :=
    Place.refill_becomes arr opened.inOrder writable ⟨_, file⟩ blank own data
  · have stored := opened.trans filled
    rw [opened.space, setEntry_setEntry] at stored
    exact ⟨_, _, _, hr, stored, fun _ => ⟨small, _, rfl⟩⟩
  · have left := opened.trans same
    rw [opened.space] at left
    exact ⟨_, _, _, hr, left, fun ok => by cases ok⟩

end

/-! ## What is seen afterwards -/

/-- Only one path is seen differently in another system. -/
def DiffersAt (s s' : System) (b : BackendId) (p : Path) : Prop := ∀ q, q ≠ p → s.SeenAs s' b q

section

variable (inOrder : s.InOrder) (there : s.backends[b]? = some (.composite table))
variable (leads : s.Leads table p pl)
variable (becomes : s.volumes.Becomes s.backends v' (setEntry s.volumes.space pl e))
include inOrder there leads becomes

omit inOrder in
/-- The entry that was set stands at the path. -/
theorem Leads.look_set : System.look ⟨s.backends, v'⟩ b p = e := by
  rw [look_of_becomes becomes (leads.locate there)]
  exact setEntry_same ⟨rfl, rfl⟩

/-- Other paths lead to other places, so that they are seen as before. -/
theorem Leads.differsAt (separate : s.Separate table) : s.DiffersAt ⟨s.backends, v'⟩ b p := by
  intro q other
  have valid := inOrder.volumes.valid b table there
  obtain ⟨ql, hq⟩ := separate.leads q
  refine hq.seen_same inOrder there becomes (setEntry_other fun same => other ?_)
  exact hq.eq_of_same separate valid leads same

/-- Nothing is found where nothing was left. -/
theorem Leads.gone (nothing : e = none) : (System.stat ⟨s.backends, v'⟩ b p).isOk = false := by
  have inOrder' : System.InOrder ⟨s.backends, v'⟩ := ⟨becomes.inOrder, inOrder.within⟩
  rw [stat_isOk inOrder', leads.look_set there becomes, nothing]
  rfl

/-- A file that was written is read and reported with its content. -/
theorem Leads.file_written {perm : UInt32} (file : e = some (.file perm data))
    (small : data.length ≤ maxFileLength) :
    System.readAll ⟨s.backends, v'⟩ b p = .ok data ∧ ∃ a, System.stat ⟨s.backends, v'⟩ b p = .ok a ∧
      a.isFile = true ∧ a.size.toNat = data.length := by
  have inOrder' : System.InOrder ⟨s.backends, v'⟩ := ⟨becomes.inOrder, inOrder.within⟩
  have stands := (leads.look_set there becomes).trans file
  exact ⟨readAll_of_look inOrder' stands, stat_of_look inOrder' stands small⟩

end

/-- Where the backend lists nothing, the mounts inside the directory are listed. -/
theorem Leads.readdir_mounts (there : s.backends[b]? = some (.composite table))
    (leads : s.Leads table p pl)
    (listed : (pl.fileSystem s.backends).readdir s.volumes pl.path = .ok []) :
    s.readdir b p = .ok (((s.volumes.tables table).childMounts p).map fun n =>
      ⟨n.text, .directory⟩) := by
  obtain ⟨k, -, asked⟩ := fileSystems_composite there p
  have distinct := Composite.mountNames_distinct (s.volumes.tables table) p
  rw [readdir, asked]
  show Composite.readdir (fileSystem s.backends k) (s.volumes.tables table) s.volumes p = _
  rw [Composite.readdir, leads.backend, leads.relative, fileSystem_arrived leads.arrived, listed]
  dsimp only
  rw [Composite.mergeListing_new distinct, List.nil_append, List.map_map]
  rfl

section

variable (inOrder : s.InOrder) (there : s.backends[b]? = some (.composite table))
variable (leads : s.Leads table p pl) {mode : UInt32}
variable (becomes : s.volumes.Becomes s.backends v'
  (setEntry s.volumes.space pl (some (.directory (mode &&& permMask)))))
include inOrder there leads becomes

/-- A directory that was made is reported as one, with the permission bits asked for. -/
theorem Leads.stat_made
    (made : ((pl.fileSystem s.backends).mkdir pl.path mode).runOn s.volumes = (.ok (), v')) :
    ∃ a, System.stat ⟨s.backends, v'⟩ b p = .ok a ∧ a.isDir = true ∧
    a.perm = mode &&& permMask := by
  have inOrder' : System.InOrder ⟨s.backends, v'⟩ := ⟨becomes.inOrder, inOrder.within⟩
  have stats := inOrder'.stats_look b p
  have stands := leads.look_set there becomes
  cases found : System.stat ⟨s.backends, v'⟩ b p with
  | error e =>
    rw [found] at stats
    cases stands.symm.trans stats
  | ok a =>
    rw [found] at stats
    obtain ⟨e, stands', shows⟩ := stats
    cases stands.symm.trans stands'
    have at' : System.locate ⟨s.backends, v'⟩ b p = some pl :=
      (locate_congr becomes.tables b p).trans (leads.locate there)
    have same := stat_located becomes.inOrder at'
    refine ⟨a, rfl, by rw [FileAttr.isDir, shows.kind]; rfl, ?_⟩
    exact Place.perm_of_mkdir leads.arrived made shows (same.symm.trans found)

/-- In a directory that was made there are mounts alone: nothing stands below a
path that was free. -/
theorem Leads.readdir_made (free : (s.volumes.space pl.volume).IsFree pl.path) :
    System.readdir ⟨s.backends, v'⟩ b p =
      .ok (((s.volumes.tables table).childMounts p).map fun n => ⟨n.text, .directory⟩) := by
  have arr := leads.arrived
  have dir : (v'.space pl.volume).IsDirectory pl.path := by
    rw [becomes.space]
    exact ⟨_, setEntry_same ⟨rfl, rfl⟩⟩
  have empty : ¬(v'.space pl.volume).HasEntries pl.path := by
    rintro ⟨n, taken⟩
    have tree := (pl.sound arr inOrder.volumes).tree
    rw [becomes.space, setEntry, if_neg fun h => Path.child_ne_self pl.path n h.2] at taken
    exact tree.free_no_entries free ⟨n, taken⟩
  have tables : v'.tables table = s.volumes.tables table := congrFun becomes.tables table
  have leads' : System.Leads ⟨s.backends, v'⟩ table p pl :=
    ⟨tables ▸ leads.backend, tables ▸ leads.relative, arr, leads.writable⟩
  rw [← tables]
  exact leads'.readdir_mounts there (Place.readdir_empty arr becomes.inOrder dir empty)

end

/-- A computation on the volumes leaves the backends as they are. -/
theorem run_of_runOn {α : Type} {act : Action Volumes α} {r : Except FsError α}
    (h : act.runOn s.volumes = (r, v')) : s.run act = (r, ⟨s.backends, v'⟩) := by
  rw [run, h]

/-- A removal leaves every other path as it is seen, and nothing at its own if it succeeds. -/
theorem Leads.removal_seen (inOrder : s.InOrder) (there : s.backends[b]? = some (.composite table))
    (separate : s.Separate table) (leads : s.Leads table p pl) {c : PathChange}
    (removal : c.leaves = none) : s.DiffersAt (s.run ((s.fileSystems p b).change (c.on p))).2 b p ∧
      ((s.run ((s.fileSystems p b).change (c.on p))).1 = .ok () →
        ((s.run ((s.fileSystems p b).change (c.on p))).2.stat b p).isOk = false) := by
  obtain ⟨r, v', hr, ⟨-, -, -, becomes⟩ | ⟨failed, becomes⟩⟩ := leads.change_becomes inOrder there c
  · rw [run_of_runOn hr]
    refine ⟨leads.differsAt inOrder there becomes separate, fun _ => ?_⟩
    exact leads.gone inOrder there becomes removal
  · rw [run_of_runOn hr]
    exact ⟨leads.differsAt inOrder there becomes.unchanged separate, fun ok => absurd ok failed⟩

/-- **One path**: in a composite over backends that keep a tree each and can be changed, a call that
makes a directory, removes an entry or writes a file at a path leaves every other path as it is
seen, whether or not it succeeds. If it succeeds, a directory that was made has the permission bits
asked for and shows mounts alone, nothing is found where an entry was removed, and a file that was
written is read with its content. -/
theorem call_concerns_its_path (reachable : s.Reachable)
    (there : s.backends[b]? = some (.composite table)) (separate : s.Separate table) (p : Path) :
    (∀ mode, s.DiffersAt (s.mkdir b p mode).2 b p ∧
      ((s.mkdir b p mode).1 = .ok () →
        (∃ a, (s.mkdir b p mode).2.stat b p = .ok a ∧ a.isDir = true ∧ a.perm = mode &&& permMask) ∧
        (s.mkdir b p mode).2.readdir b p =
          .ok (((s.volumes.tables table).childMounts p).map fun n => ⟨n.text, .directory⟩))) ∧
    (s.DiffersAt (s.unlink b p).2 b p ∧
      ((s.unlink b p).1 = .ok () → ((s.unlink b p).2.stat b p).isOk = false)) ∧
    (s.DiffersAt (s.rmdir b p).2 b p ∧
      ((s.rmdir b p).1 = .ok () → ((s.rmdir b p).2.stat b p).isOk = false)) ∧
    ∀ data, s.DiffersAt (s.writeAll b p data).2 b p ∧
      ((s.writeAll b p data).1 = .ok () →
        (s.writeAll b p data).2.readAll b p = .ok data ∧
        ∃ a, (s.writeAll b p data).2.stat b p = .ok a ∧ a.isFile = true ∧
          a.size.toNat = data.length) := by
  have inOrder := reachable.inOrder
  obtain ⟨pl, leads⟩ := separate.leads p
  refine ⟨fun mode => ?_, ?_, ?_, fun data => ?_⟩
  · obtain ⟨r, v', hr, ⟨-, free, made, becomes⟩ | ⟨failed, becomes⟩⟩ :=
      leads.change_becomes inOrder there (.mkdir mode)
    · have same : s.mkdir b p mode = (r, ⟨s.backends, v'⟩) := run_of_runOn hr
      rw [same]
      refine ⟨leads.differsAt inOrder there becomes separate, fun _ => ?_⟩
      exact ⟨leads.stat_made inOrder there becomes made,
        leads.readdir_made inOrder there becomes free⟩
    · have same : s.mkdir b p mode = (r, ⟨s.backends, v'⟩) := run_of_runOn hr
      rw [same]
      exact ⟨leads.differsAt inOrder there becomes.unchanged separate, fun ok => absurd ok failed⟩
  · exact leads.removal_seen inOrder there separate (c := .unlink) rfl
  · exact leads.removal_seen inOrder there separate (c := .rmdir) rfl
  · obtain ⟨r, v', e, hr, becomes, effect⟩ := leads.writeAll_becomes inOrder there data
    rw [writeAll, run_of_runOn hr]
    refine ⟨leads.differsAt inOrder there becomes separate, fun ok => ?_⟩
    obtain ⟨small, perm, file⟩ := effect ok
    exact leads.file_written inOrder there becomes file small

/-- A directory is made in the store, and a file is written in the tree. -/
theorem besideStore_calls : ∀ s ∈ (fileInTree.addKeyValue (.ofRecords ∅) false).toOption,
    (let t := s.besideStore.volumes.tables 1; t.root :: t.mounts.values) = [0, 2] ∧
      (s.besideStore.mkdir 1 (.ofText "/n/d") 0o1755).1 = .ok () ∧
      (s.besideStore.volumes.tables 1).childMounts (.ofText "/n/d") = [] ∧
      (s.besideStore.writeAll 1 (.ofText "/f") [121]).1 = .ok () := by
  decide +kernel

/-- The new directory is empty and the file in the tree is as before. The file that
is written is read. -/
theorem call_concerns_its_path_besideStore :
    ∃ s : System, s.Reachable ∧ s.backends = [.memory 0, .composite 1, .keyValue 2 false] ∧
      s.SeenAs (s.mkdir 1 (.ofText "/n/d") 0o1755).2 1 (.ofText "/f") ∧
      (s.mkdir 1 (.ofText "/n/d") 0o1755).2.readdir 1 (.ofText "/n/d") = .ok [] ∧
      (s.writeAll 1 (.ofText "/f") [121]).2.readAll 1 (.ofText "/f") = .ok [121] := by
  obtain ⟨t, F, made, -⟩ | ⟨e, -, refused⟩ := fileInTree.addKeyValue_cases (.ofRecords ∅) rfl false
  case inr => exact absurd (fun _ => rfl) refused
  have reached := besideStore_reached made
  obtain ⟨names, new, mounts, written⟩ := besideStore_calls _ (by rw [made]; rfl)
  generalize System.add _ _ = s at made reached names new mounts written
  have separate := besideStore_separate reached names
  obtain ⟨inStore, -, -, -⟩ :=
    call_concerns_its_path reached.reachable (reached.at' (b := 1) rfl) separate (.ofText "/n/d")
  obtain ⟨-, -, -, inTree⟩ :=
    call_concerns_its_path reached.reachable (reached.at' (b := 1) rfl) separate (.ofText "/f")
  obtain ⟨beside, effect⟩ := inStore 0o1755
  obtain ⟨-, listed⟩ := effect new
  obtain ⟨read, -⟩ := (inTree [121]).2 written
  rw [mounts] at listed
  exact ⟨s.besideStore, reached.reachable, reached.backends, beside _ (by decide), listed, read⟩

end System

end MountSpace
