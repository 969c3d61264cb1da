import MountSpace.Proofs.Located

/-!
# Moving a file from one backend to another

A file is copied and then removed from where it was. This module follows the steps on what the
volumes look like, for any two places, which may be one and the same.

- `setEntry`: what all volumes look like after one place has changed.
- `Volumes.Becomes`: the volumes look like that, and are in order.
- `Place.unlink_becomes`, `Place.openFile_becomes`, `Place.refill_becomes`: one step at a place.
- `Composite.CopyOpens`: the steps before the copy is written have gone well.
- `Composite.runOn_renameAcross`: a move fails before the copy is opened, or goes on from there.
- `Composite.CopyOpens.becomes`: what comes of a move whose copy has been opened.
-/

namespace MountSpace

/-! ## One place changes -/

/-- What all volumes look like with another entry, or none, at one place. -/
def setEntry (w : Volume → Space) (pl : Place) (e : Option Entry) : Volume → Space := fun vol p =>
  if vol = pl.volume ∧ p = pl.path then e else w vol p

/-- Two places are one and the same, in backends that may be different. -/
def Place.Same (pl pl' : Place) : Prop := pl.volume = pl'.volume ∧ pl.path = pl'.path

instance (pl pl' : Place) : Decidable (pl.Same pl') := inferInstanceAs (Decidable (_ ∧ _))

variable {w : Volume → Space} {pl pl' : Place} {e e' : Option Entry}

theorem setEntry_same (h : pl'.Same pl) : setEntry w pl e pl'.volume pl'.path = e := if_pos h

theorem setEntry_other (h : ¬pl'.Same pl) :
    setEntry w pl e pl'.volume pl'.path = w pl'.volume pl'.path :=
  if_neg h

@[simp] theorem setEntry_setEntry : setEntry (setEntry w pl e) pl e' = setEntry w pl e' := by
  funext vol p
  rw [setEntry, setEntry, setEntry]
  split <;> rfl

/-- Nothing changes where an entry is set that is there. -/
theorem setEntry_eq (h : w pl.volume pl.path = e) : setEntry w pl e = w := by
  funext vol p
  rw [setEntry]
  split
  next same => rw [same.1, same.2, h]
  next => rfl

/-- Volumes have come to look a certain way, and are in order. -/
structure Volumes.Becomes (backends : List Backend) (v v' : Volumes)
    (w : Volume → Space) : Prop where
  tables : v'.tables = v.tables
  inOrder : v'.InOrder backends
  space : v'.space = w

variable {backends : List Backend} {v v' v'' : Volumes}

theorem Volumes.Becomes.trans {w' : Volume → Space} (h : v.Becomes backends v' w)
    (h' : v'.Becomes backends v'' w') : v.Becomes backends v'' w' :=
  ⟨h'.tables.trans h.tables, h'.inOrder, h'.space⟩

/-- A volume has changed, and what all volumes look like differs there alone. -/
theorem Volumes.ChangesOnly.becomes {vol : Volume} (only : v.ChangesOnly v' vol)
    (inOrder : v.InOrder backends) (here : v'.space vol = w vol)
    (elsewhere : ∀ u, u ≠ vol → v.space u = w u) : v.Becomes backends v' w := by
  refine ⟨only.tables, inOrder.changesOnly only, funext fun u => ?_⟩
  by_cases e : u = vol
  · rw [e, here]
  · rw [only.space_other e, elsewhere u e]

theorem Volumes.ChangesOnly.becomes_same {vol : Volume} (only : v.ChangesOnly v' vol)
    (inOrder : v.InOrder backends) (space : v'.space vol = v.space vol) :
    v.Becomes backends v' v.space :=
  only.becomes inOrder space fun _ _ => rfl

theorem Volumes.ChangesOnly.becomes_set (only : v.ChangesOnly v' pl.volume)
    (inOrder : v.InOrder backends)
    (space : ∀ p, v'.space pl.volume p = if p = pl.path then e else v.space pl.volume p) :
    v.Becomes backends v' (setEntry v.space pl e) := by
  refine only.becomes inOrder (funext fun p => ?_) fun u ne => funext fun p => ?_
  · rw [space p, setEntry]
    by_cases path : p = pl.path
    · rw [if_pos path, if_pos ⟨rfl, path⟩]
    · rw [if_neg path, if_neg fun h => path h.2]
  · rw [setEntry, if_neg fun h => ne h.1]

/-! ## Steps at a place -/

/-- A file that was opened to be replaced: nothing of its content is left in the buffer. -/
structure OpenFile.Blank (f : OpenFile) (pl : Place) : Prop where
  owner : f.owner = pl.backend
  path : Path.ofBytes f.path = pl.path
  flags : f.flags = .replacing
  data : f.data = []
  closed : f.closed = false

namespace OpenFile

theorem blank_load (pl : Place) (attr : FileAttr) (data : Bytes) (now : Instant) :
    (load pl.backend (Utf8.encode pl.path.spelling) .replacing attr data now).Blank pl := by
  rw [load]
  cases data with
  | nil => exact ⟨rfl, Path.ofBytes_spelling _, rfl, rfl, rfl⟩
  | cons byte data => exact ⟨rfl, Path.ofBytes_spelling _, rfl, rfl, rfl⟩

/-- Loading a file keeps its permission bits, also where the content is dropped. -/
theorem perm_load (owner : BackendId) (path : Bytes) (flags : OpenFlags) (attr : FileAttr)
    (data : Bytes) (now : Instant) :
    (load owner path flags attr data now).attr.perm = attr.perm := by
  rw [load]
  split <;> rfl

/-- The first write makes up the whole content. -/
theorem Blank.write {f : OpenFile} (blank : f.Blank pl) (new : Bytes) (now : Instant) :
    (new.length ≤ maxFileLength ∧ f.write 0 new now = .ok (f.withData new now)) ∨
      (maxFileLength < new.length ∧ ∃ e, f.write 0 new now = .error e) := by
  have writeable : f.checkWriteable = .ok () := by
    rw [checkWriteable, checkOpen, blank.closed, blank.flags]
    rfl
  have offset : f.writeOffset 0 = 0 := by
    rw [writeOffset, blank.flags]
    rfl
  have whole : splice f.data 0 new = new := by
    rw [blank.data, splice]
    simp only [List.take_nil, List.length_nil, Nat.sub_self, List.replicate_zero, List.nil_append,
      List.drop_nil, List.append_nil]
  rw [OpenFile.write, writeable, Except.ok_bind]
  dsimp only
  rw [offset, whole, Nat.zero_add]
  by_cases large : maxFileLength < new.length
  · rw [if_pos large]
    exact .inr ⟨large, _, rfl⟩
  · rw [if_neg large]
    exact .inl ⟨Nat.le_of_not_lt large, rfl⟩

/-- A changed buffer is stored before the file is given up. -/
theorem runOn_close_stored {f : OpenFile} {fs : FileSystem} (opened : f.closed = false)
    (dirty : f.dirty = true)
    (synced : (fs.sync (Path.ofBytes f.path) f.data f.attr).runOn v = (.ok (), v')) :
    (f.close fs).runOn v = (.ok { f with dirty := false, closed := true }, v') := by
  rw [runOn_close, runOn_sync, opened, dirty, if_neg Bool.false_ne_true, if_pos rfl, synced]
  rfl

end OpenFile

namespace Place

variable (arr : arrived backends (pl.backend, pl.path) = some pl) (inOrder : v.InOrder backends)
include arr inOrder

/-- A file at a place is removed, unless the backend is read-only. -/
theorem unlink_becomes (file : (v.space pl.volume).IsFile pl.path) :
    ∃ v', (pl.readOnly = false ∧ ((pl.fileSystem backends).unlink pl.path).runOn v = (.ok (), v') ∧
        v.Becomes backends v' (setEntry v.space pl none)) ∨
      (pl.readOnly = true ∧ v.Becomes backends v' v.space ∧
        ∃ e, ((pl.fileSystem backends).unlink pl.path).runOn v = (.error e, v')) := by
  have settles := (pl.serves arr).change v (.unlink pl.path) (pl.sound arr inOrder)
  change Settles _ _ _ _ (((pl.fileSystem backends).unlink pl.path).runOn v) at settles
  generalize ((pl.fileSystem backends).unlink pl.path).runOn v = r at settles
  obtain ⟨e | _, v'⟩ := r
  · obtain ⟨only, space, reason⟩ := settles
    refine ⟨v', .inr ⟨?_, only.becomes_same inOrder space, e, rfl⟩⟩
    cases hr : pl.readOnly with
    | true => rfl
    | false => exact absurd file (reason hr (.inr rfl))
  · obtain ⟨only, writable, -, space⟩ := settles
    exact ⟨v', .inl ⟨writable, rfl, only.becomes_set inOrder fun p => congrFun space p⟩⟩

/-- Opening a file to replace it leaves an empty file where there was none. The file that is open
then has the permission bits of the one that stands there. -/
theorem openFile_becomes (mode : UInt32) {f : OpenFile}
    (opened : ((pl.fileSystem backends).openFile pl.path .replacing mode).runOn v = (.ok f, v')) :
    pl.readOnly = false ∧ (∀ perm, v.at pl ≠ some (.directory perm)) ∧ f.Blank pl ∧
      (∃ data, v'.at pl = some (.file (f.attr.perm &&& permMask) data)) ∧
      v.Becomes backends v' (if v.at pl = none then
        setEntry v.space pl (some (.file (mode &&& permMask) [])) else v.space) := by
  have sound := pl.sound arr inOrder
  have settles := (pl.serves arr).openFile v pl.path .replacing mode sound
  rw [opened] at settles
  obtain ⟨only, writable, opens, space, perm, data, attr, now, found, shows, rfl⟩ := settles
  have bits :
      (OpenFile.load pl.backend (Utf8.encode pl.path.spelling) .replacing attr data now).attr.perm
        &&& permMask = perm := by
    rw [OpenFile.perm_load]
    exact shows.perm
  refine ⟨?_, fun perm' directory => ?_, OpenFile.blank_load pl attr data now,
    ⟨data, by rwa [bits]⟩, ?_⟩
  · cases hr : pl.readOnly with
    | false => rfl
    | true => exact nomatch writable hr
  · rcases opens with ⟨file, -⟩ | ⟨free, -⟩
    · exact file.not_isDirectory ⟨perm', directory⟩
    · exact nomatch free.1.symm.trans directory
  · by_cases free : v.at pl = none
    · rw [if_pos free]
      refine only.becomes_set inOrder fun p => ?_
      rw [space, Space.opened_free free, Space.put]
    · rw [if_neg free]
      refine only.becomes_same inOrder ?_
      rw [space, Space.opened_taken free]

theorem openFile_becomes_error (flags : OpenFlags) (mode : UInt32) {e : FsError}
    (failed : ((pl.fileSystem backends).openFile pl.path flags mode).runOn v = (.error e, v')) :
    v.Becomes backends v' v.space := by
  have settles := (pl.serves arr).openFile v pl.path flags mode (pl.sound arr inOrder)
  rw [failed] at settles
  exact settles.1.becomes_same inOrder settles.2.1

/-- A file at a place is stored, in a backend that is not read-only. -/
theorem sync_becomes (writable : pl.readOnly = false) (file : (v.space pl.volume).IsFile pl.path)
    (data : Bytes) (attr : FileAttr) :
    ∃ v', ((pl.fileSystem backends).sync pl.path data attr).runOn v = (.ok (), v') ∧
      v.Becomes backends v' (setEntry v.space pl (some (.file (attr.perm &&& permMask) data))) := by
  have settles := (pl.serves arr).change v (.sync pl.path data attr) (pl.sound arr inOrder)
  change Settles _ _ _ _ (((pl.fileSystem backends).sync pl.path data attr).runOn v) at settles
  generalize ((pl.fileSystem backends).sync pl.path data attr).runOn v = r at settles
  obtain ⟨e | _, v'⟩ := r
  · exact absurd file (settles.2.2 writable (.inr rfl))
  · obtain ⟨only, -, -, space⟩ := settles
    exact ⟨v', rfl, only.becomes_set inOrder fun p => congrFun space p⟩

/-- A file that was opened to be replaced gets its content, unless the content is too large. Its
permission bits are those that it was opened with. -/
theorem refill_becomes (writable : pl.readOnly = false) (file : (v.space pl.volume).IsFile pl.path)
    {f : OpenFile} (blank : f.Blank pl) {owners : BackendId → FileSystem}
    (own : owners pl.backend = pl.fileSystem backends) (data : Bytes) :
    ∃ v', (data.length ≤ maxFileLength ∧ (f.refill owners data).runOn v = (.ok (), v') ∧
        v.Becomes backends v'
          (setEntry v.space pl (some (.file (f.attr.perm &&& permMask) data)))) ∨
      (maxFileLength < data.length ∧ v.Becomes backends v' v.space ∧
        ∃ e, (f.refill owners data).runOn v = (.error e, v')) := by
  have ticked : v.Becomes backends v.ticked v.space :=
    (v.changesOnly_ticked pl.volume).becomes_same inOrder (Volumes.space_ticked ..)
  rw [OpenFile.refill, Volumes.runOn_now_bind, Action.runOn_ofExcept_bind]
  obtain ⟨small, written⟩ | ⟨large, e, failed⟩ := blank.write data v.ambient.now
  · rw [written]
    dsimp only
    have kept : owners (f.withData data v.ambient.now).owner = pl.fileSystem backends := by
      rw [show (f.withData data v.ambient.now).owner = pl.backend from blank.owner, own]
    obtain ⟨v', hr, becomes⟩ := sync_becomes arr ticked.inOrder writable
      (by rw [Volumes.space_ticked]; exact file) data (f.withData data v.ambient.now).attr
    rw [← blank.path] at hr
    -- The write has left the buffer changed, so that giving the file up stores it.
    have stored :=
      OpenFile.runOn_close_stored (f := f.withData data v.ambient.now) blank.closed rfl hr
    have looks : v.ticked.space = v.space := ticked.space
    rw [looks] at becomes
    refine ⟨v', .inl ⟨small, ?_, ticked.trans becomes⟩⟩
    rw [kept, Action.runOn_discard, stored]
    rfl
  · rw [failed]
    exact ⟨v.ticked, .inr ⟨large, ticked, e, rfl⟩⟩

end Place

/-- A file that cannot be opened leaves everything as it looked. -/
theorem becomes_of_openFile_error (inOrder : v.InOrder backends)
    (plain : ∀ (b : Nat) (x : Backend), backends[b]? = some x → ∃ n, x.Within n) {hops : Nat}
    {b : BackendId} {p : Path} {flags : OpenFlags} {mode : UInt32} {e : FsError}
    (failed : ((fileSystem backends hops b).openFile p flags mode).runOn v = (.error e, v')) :
    v.Becomes backends v' v.space := by
  cases h : locate backends v.tables hops b p with
  | none =>
    rw [openFile_lost plain h] at failed
    cases failed
    exact ⟨rfl, inOrder, rfl⟩
  | some pl =>
    rw [openFile_located h] at failed
    exact Place.openFile_becomes_error (locate_arrived h) inOrder flags mode failed

/-! ## A move, step by step -/

namespace Composite

variable (child : BackendId → FileSystem) (source target : Route)

/-- The last step of a move: the file is removed from where it was, or else the copy is removed. -/
def removeSource : Action Volumes Unit :=
  tryCatch ((child source.backend).unlink source.relative) fun e => do
    removeCopy child target
    throw e

/-- The first steps of a move have gone well: the file was read, and the copy is open. -/
structure CopyOpens (v v' : Volumes) (attr : FileAttr) (data : Bytes) (f : OpenFile) : Prop where
  here : (child source.backend).readOnly = false
  there : (child target.backend).readOnly = false
  stat : (child source.backend).stat v source.relative = .ok attr
  kind : attr.isDir = false
  read : (child source.backend).readAll v source.relative = .ok data
  opened :
    ((child target.backend).openFile target.relative .replacing attr.perm).runOn v = (.ok f, v')

theorem renameAcross_eq : renameAcross child source target = (do
    if (child source.backend).readOnly || (child target.backend).readOnly then
      throw .readOnly
    let attr ← Action.ofExcept ((child source.backend).stat (← get) source.relative)
    if attr.isDir then
      throw .crossDeviceLink
    let data ← Action.ofExcept ((child source.backend).readAll (← get) source.relative)
    let f ← (child target.backend).openFile target.relative .replacing attr.perm
    f.refill child data
    removeSource child source target) := by
  simp only [renameAcross, removeSource, OpenFile.refill, bind_assoc]

/-- A move of a file that can be read, between backends that can be changed, goes
on to open the copy. -/
theorem runOn_renameAcross_read {v : Volumes} {attr : FileAttr} {data : Bytes}
    (here : (child source.backend).readOnly = false)
    (there : (child target.backend).readOnly = false)
    (stat : (child source.backend).stat v source.relative = .ok attr) (kind : attr.isDir = false)
    (read : (child source.backend).readAll v source.relative = .ok data) :
    (renameAcross child source target).runOn v =
      (((child target.backend).openFile target.relative .replacing attr.perm) >>= fun f =>
        f.refill child data >>= fun _ => removeSource child source target).runOn v := by
  rw [renameAcross_eq, here, there]
  simp only [Bool.or_self, Bool.false_eq_true, if_false, Action.runOn_get_bind,
    Action.runOn_ofExcept_bind, stat, kind, read]

/-- A move fails before the copy is open, at the latest when it is opened, or goes on from there. -/
theorem runOn_renameAcross (v : Volumes) :
    (∃ v' attr data f, CopyOpens child source target v v' attr data f ∧
      (renameAcross child source target).runOn v =
        (f.refill child data >>= fun _ => removeSource child source target).runOn v') ∨
    (∃ e v', (renameAcross child source target).runOn v = (.error e, v') ∧
      (¬∃ v' attr data f, CopyOpens child source target v v' attr data f) ∧
      (v' = v ∨ ∃ mode, ((child target.backend).openFile target.relative .replacing mode).runOn v =
        (.error e, v'))) := by
  rw [renameAcross_eq]
  -- Each check and each inquiry may be the one that stops the move; none of them
  -- has changed anything.
  by_cases closed : ((child source.backend).readOnly || (child target.backend).readOnly) = true
  · rw [if_pos closed]
    refine .inr ⟨_, v, rfl, ?_, .inl rfl⟩
    rintro ⟨v', attr, data, f, opens⟩
    rw [opens.here, opens.there] at closed
    cases closed
  rw [if_neg closed]
  obtain ⟨here, there⟩ := Bool.or_eq_false_iff.1 (Bool.eq_false_iff.2 closed)
  simp only [Action.runOn_get_bind, Action.runOn_ofExcept_bind]
  cases hs : (child source.backend).stat v source.relative with
  | error e =>
    refine .inr ⟨e, v, rfl, ?_, .inl rfl⟩
    rintro ⟨v', attr, data, f, opens⟩
    exact nomatch hs.symm.trans opens.stat
  | ok attr =>
    dsimp only
    by_cases directory : attr.isDir = true
    · rw [if_pos directory]
      refine .inr ⟨_, v, rfl, ?_, .inl rfl⟩
      rintro ⟨v', attr', data, f, opens⟩
      cases hs.symm.trans opens.stat
      exact nomatch directory.symm.trans opens.kind
    rw [if_neg directory]
    simp only [Action.runOn_get_bind, Action.runOn_ofExcept_bind]
    cases hd : (child source.backend).readAll v source.relative with
    | error e =>
      refine .inr ⟨e, v, rfl, ?_, .inl rfl⟩
      rintro ⟨v', attr', data, f, opens⟩
      exact nomatch hd.symm.trans opens.read
    | ok data =>
      dsimp only
      rcases ho : ((child target.backend).openFile target.relative .replacing attr.perm).runOn v
          with ⟨e | f, v'⟩
      · rw [Action.runOn_bind_error ho]
        refine .inr ⟨e, v', rfl, ?_, .inr ⟨_, ho⟩⟩
        rintro ⟨v'', attr', data', f, opens⟩
        cases hs.symm.trans opens.stat
        exact nomatch ho.symm.trans opens.opened
      · rw [Action.runOn_bind_ok ho]
        exact .inl ⟨v', attr, data, f,
          ⟨here, there, hs, Bool.eq_false_iff.2 directory, hd, ho⟩, rfl⟩

/-! ## What comes of a move -/

section

variable {source target} {hops : Nat} {attr : FileAttr} {data : Bytes} {f : OpenFile}
variable (inOrder : v.InOrder backends)
variable (hs : locate backends v.tables hops source.backend source.relative = some pl)
variable (ht : locate backends v.tables hops target.backend target.relative = some pl')
variable (opens : CopyOpens (fileSystem backends hops) source target v v' attr data f)
include inOrder hs opens

/-- What is copied is the content of a file at the place of the source. -/
theorem CopyOpens.source_file : ∃ perm, v.at pl = some (.file perm data) := by
  have arr := locate_arrived hs
  have reads := (pl.serves arr).readAll v pl.path (pl.sound arr inOrder)
  rw [← readAll_located hs, opens.read] at reads
  exact reads

include ht

omit hs in
/-- The copy is open at a place that can be changed and where no directory stands. -/
theorem CopyOpens.target_opened :
    pl'.readOnly = false ∧ (∀ perm, v.at pl' ≠ some (.directory perm)) ∧ f.Blank pl' ∧
      (∃ data', v'.at pl' = some (.file (f.attr.perm &&& permMask) data')) ∧
      v.Becomes backends v' (if v.at pl' = none then
        setEntry v.space pl' (some (.file (attr.perm &&& permMask) [])) else v.space) := by
  have opened := opens.opened
  rw [openFile_located ht] at opened
  exact Place.openFile_becomes (locate_arrived ht) inOrder attr.perm opened

omit hs in
/-- The permission bits of the copy are those of the file at its place, if there is one, and else
those of the file that is moved. -/
theorem CopyOpens.perm : f.attr.perm &&& permMask =
    ((v.at pl').map Entry.perm).getD (attr.perm &&& permMask) := by
  obtain ⟨-, -, -, ⟨data', file⟩, opened⟩ := opens.target_opened inOrder ht
  rw [Volumes.at, opened.space] at file
  by_cases free : v.at pl' = none
  · rw [if_pos free, setEntry_same ⟨rfl, rfl⟩] at file
    rw [free]
    exact (Entry.file.inj (Option.some.inj file)).1.symm
  · rw [if_neg free] at file
    rw [Volumes.at, file]
    rfl

/-- A move whose copy is open comes to one of three ends. The content is too large, and an empty
file is left where there was none. Or the file cannot be removed from where it was, and then the
copy is removed, also where there was a file before. Or the file has been moved. -/
theorem CopyOpens.becomes : ∃ v'',
    (maxFileLength < data.length ∧
      (∃ e, (f.refill (fileSystem backends hops) data >>= fun _ =>
        removeSource (fileSystem backends hops) source target).runOn v' = (.error e, v'')) ∧
      v.Becomes backends v'' (if v.at pl' = none then
        setEntry v.space pl' (some (.file (attr.perm &&& permMask) [])) else v.space)) ∨
    (data.length ≤ maxFileLength ∧ pl.readOnly = true ∧
      (∃ e, (f.refill (fileSystem backends hops) data >>= fun _ =>
        removeSource (fileSystem backends hops) source target).runOn v' = (.error e, v'')) ∧
      v.Becomes backends v'' (setEntry v.space pl' none)) ∨
    (data.length ≤ maxFileLength ∧ pl.readOnly = false ∧
      (f.refill (fileSystem backends hops) data >>= fun _ =>
        removeSource (fileSystem backends hops) source target).runOn v' = (.ok (), v'') ∧
      v.Becomes backends v''
        (setEntry (setEntry v.space pl' (some (.file (f.attr.perm &&& permMask) data)))
          pl none)) := by
  obtain ⟨perm, found⟩ := opens.source_file inOrder hs
  obtain ⟨writable, -, blank, file', opened⟩ := opens.target_opened inOrder ht
  have arr := locate_arrived hs
  have arr' := locate_arrived ht
  obtain ⟨v₂, ⟨small, filled, copied⟩ | ⟨large, kept, e, failed⟩⟩ :=
    Place.refill_becomes arr' opened.inOrder writable ⟨_, file'⟩ blank
      (fileSystem_arrived arr' hops) data
  case inr =>
    -- The content is too large. The move ends there, with the file that was opened
    -- still at the target.
    refine ⟨v₂, .inl ⟨large, ⟨e, Action.runOn_bind_error failed _⟩, ?_⟩⟩
    have := opened.trans kept
    rwa [opened.space] at this
  -- Whatever stood at the target, the copy does now.
  have overlaid : setEntry v'.space pl' (some (.file (f.attr.perm &&& permMask) data)) =
      setEntry v.space pl' (some (.file (f.attr.perm &&& permMask) data)) := by
    rw [opened.space]
    split
    · exact setEntry_setEntry
    · rfl
  have copy : v.Becomes backends v₂
      (setEntry v.space pl' (some (.file (f.attr.perm &&& permMask) data))) :=
    overlaid ▸ opened.trans copied
  -- The copy may have taken the place of the source itself; a file stands there in any case.
  have still : (v₂.space pl.volume).IsFile pl.path := by
    rw [copy.space]
    by_cases same : pl.Same pl'
    · exact ⟨_, data, setEntry_same same⟩
    · exact ⟨perm, data, (setEntry_other same).trans found⟩
  have hs₂ : locate backends v₂.tables hops source.backend source.relative = some pl := by
    rwa [copy.tables]
  obtain ⟨v₃, ⟨free, removed, gone⟩ | ⟨closed, same, e, refused⟩⟩ :=
    Place.unlink_becomes arr copy.inOrder still
  · rw [← unlink_located copy.inOrder hs₂ still] at removed
    refine ⟨v₃, .inr (.inr ⟨small, free, ?_, ?_⟩)⟩
    · rw [Action.runOn_bind_ok filled, removeSource, Action.runOn_tryCatch, removed]
    · have := copy.trans gone
      rwa [copy.space] at this
  · rw [← unlink_located copy.inOrder hs₂ still] at refused
    -- The file stays at the source, so the copy goes, and with it whatever stood
    -- at the target before.
    have back := copy.trans same
    rw [copy.space] at back
    have there : (v₃.space pl'.volume).IsFile pl'.path := by
      rw [back.space]
      exact ⟨_, data, setEntry_same ⟨rfl, rfl⟩⟩
    have ht₃ : locate backends v₃.tables hops target.backend target.relative = some pl' := by
      rwa [back.tables]
    obtain ⟨v₄, ⟨-, removed, gone⟩ | ⟨no, -⟩⟩ := Place.unlink_becomes arr' back.inOrder there
    · rw [← unlink_located back.inOrder ht₃ there] at removed
      refine ⟨v₄, .inr (.inl ⟨small, closed, ⟨e, ?_⟩, ?_⟩)⟩
      · rw [Action.runOn_bind_ok filled, removeSource, Action.runOn_tryCatch, refused]
        dsimp only
        rw [Action.runOn_bind, removeCopy, Action.runOn_tryCatch, removed]
        rfl
      · have := back.trans gone
        rwa [back.space, setEntry_setEntry] at this
    · exact nomatch no.symm.trans writable

end

end Composite

end MountSpace
