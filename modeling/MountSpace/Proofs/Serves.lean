import MountSpace.Backend.KeyValue
import MountSpace.Backend.Memory
import MountSpace.Proofs.MemoryTree
import MountSpace.Proofs.RecordClear

/-!
# Backends that keep a tree themselves

Trees in memory and stores of records offer the same operations on a space. What the two have in
common is said once, so that nothing that follows depends on which of them a path leads to.

- `Volume`: a tree or a store. `Volumes.space`, `Volumes.SoundAt`: what it looks like, and that its
  records or nodes are in order.
- `Volumes.ChangesOnly`: one volume has changed, and is in order if it was.
- `Serves`: a backend answers for a volume, and what it changes is that volume alone.
- `memory_serves`, `keyValue_serves`: both backends do.
-/

namespace MountSpace

/-- What holds a tree of its own. -/
inductive Volume where
  | tree (i : Nat)
  | store (j : Nat)
  deriving DecidableEq

namespace Volumes

/-- What a volume looks like from outside. -/
def space (v : Volumes) : Volume → Space
  | .tree i => (v.trees i).space
  | .store j => (v.stores j).space

/-- The nodes or the records of a volume are in order. -/
def SoundAt (v : Volumes) : Volume → Prop
  | .tree i => (v.trees i).Sound
  | .store j => (v.stores j).Sound

/-- The ids up to a draw are new to a volume. -/
def FreshAt (v : Volumes) (bound : Nat) : Volume → Prop
  | .tree _ => True
  | .store j => Transaction.Fresh ⟨v.stores j, v.ambient⟩ bound

/-- What a volume looks like does not depend on the mount tables. -/
theorem space_withTables (v : Volumes) (tables : Nat → MountTable) :
    space { v with tables } = v.space := by
  funext vol
  cases vol <;> rfl

/-- One volume has changed and no other. -/
structure ChangesOnly (v v' : Volumes) (vol : Volume) : Prop where
  tables : v'.tables = v.tables
  trees : ∀ i, .tree i ≠ vol → v'.trees i = v.trees i
  stores : ∀ j, .store j ≠ vol → v'.stores j = v.stores j
  sound : v.SoundAt vol → v'.SoundAt vol
  draws : v.ambient.draws ≤ v'.ambient.draws
  ids : v'.ambient.ids = v.ambient.ids
  fresh : ∀ b, v.FreshAt b vol → v'.FreshAt b vol

variable {v v' v'' : Volumes} {vol : Volume}

theorem SoundAt.tree (h : v.SoundAt vol) : (v.space vol).IsTree := by
  cases vol with
  | tree i => exact MemoryTree.Sound.tree h
  | store j => exact RecordStore.Sound.tree h

namespace ChangesOnly

theorem refl (v : Volumes) (vol : Volume) : v.ChangesOnly v vol :=
  ⟨rfl, fun _ _ => rfl, fun _ _ => rfl, id, Nat.le_refl _, rfl, fun _ => id⟩

theorem trans (h : v.ChangesOnly v' vol) (h' : v'.ChangesOnly v'' vol) : v.ChangesOnly v'' vol where
  tables := h'.tables.trans h.tables
  trees := fun i ne => (h'.trees i ne).trans (h.trees i ne)
  stores := fun j ne => (h'.stores j ne).trans (h.stores j ne)
  sound := fun k => h'.sound (h.sound k)
  draws := Nat.le_trans h.draws h'.draws
  ids := h'.ids.trans h.ids
  fresh := fun b k => h'.fresh b (h.fresh b k)

/-- Other volumes look as before. -/
theorem space_other (h : v.ChangesOnly v' vol) {u : Volume} (ne : u ≠ vol) :
    v'.space u = v.space u := by
  cases u with
  | tree i => exact congrArg MemoryTree.space (h.trees i ne)
  | store j => exact congrArg RecordStore.space (h.stores j ne)

/-- Every volume that was in order is so still. -/
theorem soundAt (h : v.ChangesOnly v' vol) {u : Volume} (sound : v.SoundAt u) : v'.SoundAt u := by
  by_cases e : u = vol
  · exact e ▸ h.sound (e ▸ sound)
  · cases u with
    | tree i =>
      show (v'.trees i).Sound
      rwa [h.trees i e]
    | store j =>
      show (v'.stores j).Sound
      rwa [h.stores j e]

end ChangesOnly

/-! ## Reading the clock -/

/-- The volumes after the clock has been read. -/
def ticked (v : Volumes) : Volumes := { v with ambient := v.ambient.tick }

theorem changesOnly_ticked (v : Volumes) (vol : Volume) : v.ChangesOnly v.ticked vol where
  tables := rfl
  trees := fun _ _ => rfl
  stores := fun _ _ => rfl
  sound := fun h => by cases vol <;> exact h
  draws := Nat.le_refl _
  ids := rfl
  fresh := fun b h => by
    cases vol with
    | tree i => exact h
    | store j => exact ⟨h.accepts, h.distinct, h.unused⟩

@[simp] theorem space_ticked (v : Volumes) (vol : Volume) : v.ticked.space vol = v.space vol := by
  cases vol <;> rfl

@[simp] theorem runOn_now_bind {β : Type} (f : Instant → Action Volumes β) (v : Volumes) :
    (now >>= f).runOn v = (f v.ambient.now).runOn v.ticked := rfl

end Volumes

/-! ## What is expected of a backend -/

/-- A change as a call. -/
def FileSystem.change (fs : FileSystem) : Change → Action Volumes Unit
  | .mkdir p mode => fs.mkdir p mode
  | .unlink p => fs.unlink p
  | .rmdir p => fs.rmdir p
  | .rename source target => fs.rename source target
  | .sync p data attr => fs.sync p data attr

namespace OpenFile

/-- Gives an open file a whole new content and gives the file up. -/
def refill (owners : BackendId → FileSystem) (f : OpenFile) (data : Bytes) :
    Action Volumes Unit := do
  let f ← Action.ofExcept (f.write 0 data (← Volumes.now))
  discard <| f.close (owners f.owner)

theorem owner_load (owner : BackendId) (path : Bytes) (flags : OpenFlags) (attr : FileAttr)
    (data : Bytes) (now : Instant) : (load owner path flags attr data now).owner = owner := by
  rw [load]
  split <;> rfl

theorem path_load (owner : BackendId) (path : Bytes) (flags : OpenFlags) (attr : FileAttr)
    (data : Bytes) (now : Instant) : (load owner path flags attr data now).path = path := by
  rw [load]
  split <;> rfl

/-- A write that succeeds lays bytes over the buffer and changes nothing else that matters. -/
theorem write_ok {f f' : OpenFile} {offset : Nat} {new : Bytes} {now : Instant}
    (h : f.write offset new now = .ok f') :
    f' = f.withData (splice f.data (f.writeOffset offset) new) now ∧
      f.writeOffset offset + new.length ≤ maxFileLength := by
  rw [write] at h
  cases hc : f.checkWriteable with
  | error e =>
    rw [hc] at h
    cases h
  | ok _ =>
    rw [hc, Except.ok_bind] at h
    dsimp only at h
    split at h
    · cases h
    next small =>
      cases h
      exact ⟨rfl, Nat.le_of_not_lt small⟩

theorem truncate_ok {f f' : OpenFile} {size : Nat} {now : Instant}
    (h : f.truncate size now = .ok f') : f' = f.withData (resize f.data size) now := by
  rw [truncate] at h
  cases hc : f.checkWriteable with
  | error e =>
    rw [hc] at h
    cases h
  | ok _ =>
    rw [hc, Except.ok_bind] at h
    dsimp only at h
    split at h
    · cases h
    · cases h
      rfl

/-- What storing a buffer comes to: a closed file is refused, a clean one is left alone, and a
changed one is stored by the backend. -/
theorem runOn_sync (f : OpenFile) (fs : FileSystem) (v : Volumes) :
    (f.sync fs).runOn v =
      if f.closed then (.error (.other ("file handle closed: " ++ f.shownPath)), v)
      else if f.dirty then
        (((fs.sync (Path.ofBytes f.path) f.data f.attr).runOn v).1.map
          fun _ => { f with dirty := false },
          ((fs.sync (Path.ofBytes f.path) f.data f.attr).runOn v).2)
      else (.ok { f with dirty := false }, v) := by
  rw [sync, Action.runOn_ofExcept_bind, checkOpen]
  cases f.closed with
  | true => rfl
  | false =>
    cases f.dirty with
    | false => rfl
    | true =>
      simp only [Bool.false_eq_true, if_false, if_true]
      rw [Action.runOn_bind]
      rcases (fs.sync (Path.ofBytes f.path) f.data f.attr).runOn v with ⟨_ | _, _⟩ <;> rfl

theorem runOn_close (f : OpenFile) (fs : FileSystem) (v : Volumes) :
    (f.close fs).runOn v =
      (((f.sync fs).runOn v).1.map fun f' => { f' with closed := true },
        ((f.sync fs).runOn v).2) := by
  rw [close, Action.runOn_bind]
  rcases (f.sync fs).runOn v with ⟨_ | _, _⟩ <;> rfl

theorem sync_ok {f f' : OpenFile} {fs : FileSystem} {v v' : Volumes}
    (h : (f.sync fs).runOn v = (.ok f', v')) : f' = { f with dirty := false } := by
  rw [runOn_sync] at h
  split at h
  · cases h
  · split at h
    · generalize (fs.sync (Path.ofBytes f.path) f.data f.attr).runOn v = r at h
      obtain ⟨_ | _, _⟩ := r <;> cases h
      rfl
    · cases h
      rfl

theorem close_ok {f f' : OpenFile} {fs : FileSystem} {v v' : Volumes}
    (h : (f.close fs).runOn v = (.ok f', v')) : f' = { f with dirty := false, closed := true } := by
  rw [runOn_close] at h
  rcases hr : (f.sync fs).runOn v with ⟨_ | f₁, v₁⟩
  · rw [hr] at h
    cases h
  · rw [hr] at h
    cases h
    rw [sync_ok hr]

theorem write_owner {f f' : OpenFile} {offset : Nat} {new : Bytes} {now : Instant}
    (h : f.write offset new now = .ok f') : f'.owner = f.owner := by
  rw [(write_ok h).1]
  rfl

theorem truncate_owner {f f' : OpenFile} {size : Nat} {now : Instant}
    (h : f.truncate size now = .ok f') : f'.owner = f.owner := by
  rw [truncate_ok h]
  rfl

theorem sync_owner {f f' : OpenFile} {fs : FileSystem} {v v' : Volumes}
    (h : (f.sync fs).runOn v = (.ok f', v')) : f'.owner = f.owner := by rw [sync_ok h]

theorem close_owner {f f' : OpenFile} {fs : FileSystem} {v v' : Volumes}
    (h : (f.close fs).runOn v = (.ok f', v')) : f'.owner = f.owner := by rw [close_ok h]

end OpenFile

theorem FileSystem.writeAll_eq (fs : FileSystem) (owners : BackendId → FileSystem) (p : Path)
    (data : Bytes) :
    fs.writeAll owners p data =
      (fs.openFile p .replacing newFilePerm >>= fun f => f.refill owners data) := rfl

/-- What comes of a change: it takes place if it is allowed, or nothing looks different. Where
changes are not refused altogether it fails only if it is not allowed, or if an id is refused. -/
def Settles (vol : Volume) (readOnly : Bool) (c : Change) (v : Volumes) :
    Except FsError Unit × Volumes → Prop
  | (.ok _, v') => v.ChangesOnly v' vol ∧ readOnly = false ∧ (v.space vol).Allows c ∧
      v'.space vol = (v.space vol).after c
  | (.error _, v') => v.ChangesOnly v' vol ∧ v'.space vol = v.space vol ∧
      (readOnly = false → v.FreshAt v'.ambient.draws vol ∨ c.drawsIds = false →
        ¬(v.space vol).Allows c)

/-- What comes of opening a file: it is opened if it can be, or nothing looks different. -/
def SettlesOpen (owner : BackendId) (vol : Volume) (readOnly : Bool) (p : Path) (flags : OpenFlags)
    (mode : UInt32) (v : Volumes) : Except FsError OpenFile × Volumes → Prop
  | (.ok f, v') => v.ChangesOnly v' vol ∧
      (readOnly = true → (flags.isWriteable || flags.create) = false) ∧
      (v.space vol).Opens p flags ∧ v'.space vol = (v.space vol).opened p mode ∧
      ∃ perm data attr now, v'.space vol p = some (.file perm data) ∧
        (Entry.file perm data).Shows attr ∧
        f = OpenFile.load owner (Utf8.encode p.spelling) flags attr data now
  | (.error _, v') => v.ChangesOnly v' vol ∧ v'.space vol = v.space vol ∧
      (readOnly = false → v.FreshAt v'.ambient.draws vol → ¬(v.space vol).Opens p flags)

/-- A backend answers for a volume, which may be closed to changes. -/
structure Serves (fs : FileSystem) (owner : BackendId) (vol : Volume) (readOnly : Bool) : Prop where
  capability : fs.readOnly = readOnly
  stat : ∀ (v : Volumes) p, v.SoundAt vol → (v.space vol).Stats p (fs.stat v p)
  readdir : ∀ (v : Volumes) p, v.SoundAt vol → (v.space vol).Enumerates p (fs.readdir v p)
  readAll : ∀ (v : Volumes) p, v.SoundAt vol → (v.space vol).Reads p (fs.readAll v p)
  change : ∀ (v : Volumes) c, v.SoundAt vol → Settles vol readOnly c v ((fs.change c).runOn v)
  openFile : ∀ (v : Volumes) p flags mode, v.SoundAt vol →
    SettlesOpen owner vol readOnly p flags mode v ((fs.openFile p flags mode).runOn v)

namespace Serves

variable {fs : FileSystem} {owner : BackendId} {vol : Volume} {readOnly : Bool} {v : Volumes}
variable (serves : Serves fs owner vol readOnly) (sound : v.SoundAt vol)
include serves sound

theorem changesOnly_change (c : Change) : v.ChangesOnly ((fs.change c).runOn v).2 vol := by
  have settles := serves.change v c sound
  generalize (fs.change c).runOn v = r at settles
  obtain ⟨_ | _, v'⟩ := r
  · exact settles.1
  · exact settles.1

theorem changesOnly_openFile (p : Path) (flags : OpenFlags) (mode : UInt32) :
    v.ChangesOnly ((fs.openFile p flags mode).runOn v).2 vol := by
  have settles := serves.openFile v p flags mode sound
  generalize (fs.openFile p flags mode).runOn v = r at settles
  obtain ⟨_ | _, v'⟩ := r
  · exact settles.1
  · exact settles.1

/-- Storing a buffer changes what the file belongs to, if anything. -/
theorem changesOnly_sync (f : OpenFile) : v.ChangesOnly ((f.sync fs).runOn v).2 vol := by
  rw [OpenFile.runOn_sync]
  split
  · exact .refl v vol
  · split
    · exact serves.changesOnly_change sound (.sync (Path.ofBytes f.path) f.data f.attr)
    · exact .refl v vol

theorem changesOnly_close (f : OpenFile) : v.ChangesOnly ((f.close fs).runOn v).2 vol := by
  rw [OpenFile.runOn_close]
  exact serves.changesOnly_sync sound f

/-- Files that are opened belong to the backend. -/
theorem owner_of_openFile {p : Path} {flags : OpenFlags} {mode : UInt32} {f : OpenFile}
    {v' : Volumes} (opened : (fs.openFile p flags mode).runOn v = (.ok f, v')) :
    f.owner = owner := by
  have settles := serves.openFile v p flags mode sound
  rw [opened] at settles
  obtain ⟨-, -, -, -, perm, data, attr, now, -, -, rfl⟩ := settles
  exact OpenFile.owner_load ..

theorem changesOnly_refill {owners : BackendId → FileSystem} (same : owners owner = fs)
    {f : OpenFile} (own : f.owner = owner) (data : Bytes) :
    v.ChangesOnly ((f.refill owners data).runOn v).2 vol := by
  have ticked := v.changesOnly_ticked vol
  rw [OpenFile.refill, Volumes.runOn_now_bind, Action.runOn_ofExcept_bind]
  cases hw : f.write 0 data v.ambient.now with
  | error e => exact ticked
  | ok f' =>
    have kept : f'.owner = owner := (OpenFile.write_owner hw).trans own
    dsimp only
    rw [Action.runOn_discard, kept, same]
    exact ticked.trans (serves.changesOnly_close (ticked.sound sound) f')

theorem changesOnly_writeAll {owners : BackendId → FileSystem} (same : owners owner = fs) (p : Path)
    (data : Bytes) : v.ChangesOnly ((fs.writeAll owners p data).runOn v).2 vol := by
  have only := serves.changesOnly_openFile sound p .replacing newFilePerm
  rw [FileSystem.writeAll_eq]
  cases hr : (fs.openFile p .replacing newFilePerm).runOn v with
  | mk result v' =>
    rw [hr] at only
    cases result with
    | error e =>
      rw [Action.runOn_bind_error hr]
      exact only
    | ok f =>
      rw [Action.runOn_bind_ok hr]
      exact only.trans (serves.changesOnly_refill (only.sound sound) same
        (serves.owner_of_openFile sound hr) data)

end Serves

/-! ## Trees in memory -/

namespace Volumes

/-- The volumes with one tree replaced. -/
def withTree (v : Volumes) (i : Nat) (t : MemoryTree) : Volumes :=
  { v with trees := setAt v.trees i t }

@[simp] theorem space_withTree (v : Volumes) (i : Nat) (t : MemoryTree) :
    (v.withTree i t).space (.tree i) = t.space :=
  congrArg MemoryTree.space (setAt_self v.trees i t)

theorem changesOnly_withTree (v : Volumes) {i : Nat} {t : MemoryTree} (sound : t.Sound) :
    v.ChangesOnly (v.withTree i t) (.tree i) where
  tables := rfl
  trees := fun k ne => setAt_other v.trees t fun e => ne (congrArg Volume.tree e)
  stores := fun _ _ => rfl
  sound := fun _ => by
    show (setAt v.trees i t i).Sound
    rwa [setAt_self]
  draws := Nat.le_refl _
  ids := rfl
  fresh := fun _ => id

theorem runOn_changeTree (i : Nat) (change : MemoryTree → Except FsError MemoryTree) (v : Volumes) :
    (changeTree i change).runOn v =
      match change (v.trees i) with
      | .ok t => (.ok (), v.withTree i t)
      | .error e => (.error e, v) := by
  rw [changeTree, Action.runOn_get_bind, Action.runOn_ofExcept_bind]
  cases change (v.trees i) <;> rfl

end Volumes

/-- Some changes read the clock first; then all of them change the tree. -/
theorem memory_change (self i : Nat) (c : Change) (v : Volumes) : ∃ v₁ now,
    (v₁ = v ∨ v₁ = v.ticked) ∧ ((FileSystem.memory self i).change c).runOn v =
      (Volumes.changeTree i fun t => t.change now c).runOn v₁ := by
  cases c with
  | mkdir p mode => exact ⟨v.ticked, v.ambient.now, .inr rfl, rfl⟩
  | unlink p => exact ⟨v, v.ambient.now, .inl rfl, rfl⟩
  | rmdir p => exact ⟨v, v.ambient.now, .inl rfl, rfl⟩
  | rename source target => exact ⟨v.ticked, v.ambient.now, .inr rfl, rfl⟩
  | sync p data attr => exact ⟨v, v.ambient.now, .inl rfl, rfl⟩

theorem memory_settles (self i : Nat) {v : Volumes} (sound : v.SoundAt (.tree i)) (c : Change) :
    Settles (.tree i) false c v (((FileSystem.memory self i).change c).runOn v) := by
  obtain ⟨v₁, now, read, hr⟩ := memory_change self i c v
  -- The clock may have been read first, which nobody can see in a volume.
  have start : v.ChangesOnly v₁ (.tree i) := by
    rcases read with rfl | rfl
    · exact .refl v₁ _
    · exact v.changesOnly_ticked _
  have same : v₁.trees i = v.trees i := by rcases read with rfl | rfl <;> rfl
  have carries := MemoryTree.change_carries sound now c
  rw [hr, Volumes.runOn_changeTree, same]
  cases hc : (v.trees i).change now c with
  | ok t =>
    rw [hc] at carries
    exact ⟨start.trans (v₁.changesOnly_withTree carries.2.1), rfl, carries.1,
      (v₁.space_withTree i t).trans carries.2.2⟩
  | error e =>
    rw [hc] at carries
    exact ⟨start, congrArg MemoryTree.space same, fun _ _ => carries⟩

/-- A file is found or created in the tree, and loaded. -/
theorem memory_openFile (self i : Nat) (p : Path) (flags : OpenFlags) (mode : UInt32)
    (v : Volumes) : ((FileSystem.memory self i).openFile p flags mode).runOn v =
      match (v.trees i).openFile p flags mode v.ambient.now with
      | .ok (attr, data, t) =>
        (.ok (OpenFile.load self (Utf8.encode p.spelling) flags attr data v.ticked.ambient.now),
          (v.ticked.withTree i t).ticked)
      | .error e => (.error e, v.ticked) := by
  simp only [FileSystem.memory, Volumes.runOn_now_bind, Action.runOn_get_bind]
  rw [Action.runOn_ofExcept_bind, show v.ticked.trees i = v.trees i from rfl]
  cases (v.trees i).openFile p flags mode v.ambient.now <;> rfl

theorem memory_settlesOpen (self i : Nat) {v : Volumes} (sound : v.SoundAt (.tree i)) (p : Path)
    (flags : OpenFlags) (mode : UInt32) : SettlesOpen self (.tree i) false p flags mode v
      (((FileSystem.memory self i).openFile p flags mode).runOn v) := by
  have carries := MemoryTree.openFile_carries sound p flags mode v.ambient.now
  rw [memory_openFile]
  cases ho : (v.trees i).openFile p flags mode v.ambient.now with
  | ok r =>
    obtain ⟨attr, data, t⟩ := r
    rw [ho] at carries
    obtain ⟨opens, sound', space, perm, found, shows⟩ := carries
    have looks : (v.ticked.withTree i t).ticked.space (.tree i) = t.space := by
      rw [Volumes.space_ticked, Volumes.space_withTree]
    refine ⟨?_, fun no => Bool.noConfusion no, opens, looks.trans space, perm, data, attr, _, ?_,
      shows, rfl⟩
    · exact (v.changesOnly_ticked _).trans
        ((v.ticked.changesOnly_withTree sound').trans (Volumes.changesOnly_ticked _ _))
    · rw [looks]
      exact found
  | error e =>
    rw [ho] at carries
    exact ⟨v.changesOnly_ticked _, Volumes.space_ticked .., fun _ _ => carries⟩

theorem memory_serves (self i : Nat) : Serves (.memory self i) self (.tree i) false where
  capability := rfl
  stat := fun _ p sound => MemoryTree.stat_answer sound p
  readdir := fun v p _ => MemoryTree.readdir_answer (v.trees i) p
  readAll := fun v p _ => MemoryTree.readAll_answer (v.trees i) p
  change := fun _ c sound => memory_settles self i sound c
  openFile := fun _ p flags mode sound => memory_settlesOpen self i sound p flags mode

/-! ## Stores of records -/

namespace Volumes

/-- What a change of a store works on. -/
def transaction (v : Volumes) (j : Nat) : Transaction := ⟨v.stores j, v.ambient⟩

/-- The volumes after a change of a store. -/
def committed (v : Volumes) (j : Nat) (t : Transaction) : Volumes :=
  { v with stores := setAt v.stores j t.store, ambient := t.ambient }

theorem runOn_withStore {α : Type} (j : Nat) (act : StoreAction α) (v : Volumes) :
    (withStore j act).runOn v =
      ((act.runOn (v.transaction j)).1, v.committed j (act.runOn (v.transaction j)).2) := rfl

@[simp] theorem stores_committed (v : Volumes) (j : Nat) (t : Transaction) :
    (v.committed j t).stores j = t.store := setAt_self ..

@[simp] theorem transaction_committed (v : Volumes) (j : Nat) (t : Transaction) :
    (v.committed j t).transaction j = t :=
  congrArg (fun s => (⟨s, t.ambient⟩ : Transaction)) (stores_committed v j t)

@[simp] theorem space_committed (v : Volumes) (j : Nat) (t : Transaction) :
    (v.committed j t).space (.store j) = t.store.space :=
  congrArg RecordStore.space (stores_committed v j t)

theorem changesOnly_committed (v : Volumes) {j : Nat} {t : Transaction}
    (extended : (v.transaction j).Extends t) (sound : t.store.Sound) :
    v.ChangesOnly (v.committed j t) (.store j) where
  tables := rfl
  trees := fun _ _ => rfl
  stores := fun k ne => setAt_other v.stores t.store fun e => ne (congrArg Volume.store e)
  sound := fun _ => by
    show ((v.committed j t).stores j).Sound
    rwa [stores_committed]
  draws := extended.draws
  ids := extended.ids
  fresh := fun b fresh => by
    show Transaction.Fresh ⟨(v.committed j t).stores j, t.ambient⟩ b
    rw [stores_committed]
    exact Transaction.Fresh.extends fresh extended

end Volumes

/-- A store that is closed to changes refuses them; otherwise each change is one of the store. -/
theorem keyValue_change (self j : Nat) (readOnly : Bool) (c : Change) (v : Volumes) :
    ((FileSystem.keyValue self j readOnly).change c).runOn v =
      if readOnly then (.error .readOnly, v)
      else (Volumes.withStore j (RecordTree.change c)).runOn v := by
  cases readOnly <;> cases c <;> rfl

theorem keyValue_settles (self j : Nat) (readOnly : Bool) {v : Volumes}
    (sound : v.SoundAt (.store j)) (c : Change) :
    Settles (.store j) readOnly c v (((FileSystem.keyValue self j readOnly).change c).runOn v) := by
  obtain ⟨F, h⟩ := sound
  have looks : v.space (.store j) = F.space := h.space_eq
  rw [keyValue_change]
  cases readOnly with
  | true => exact ⟨.refl v _, rfl, fun no => Bool.noConfusion no⟩
  | false =>
    have performs := RecordTree.change_performs (t := v.transaction j) h c
    rw [if_neg Bool.false_ne_true, Volumes.runOn_withStore]
    generalize hr : (RecordTree.change c).runOn (v.transaction j) = r at performs
    obtain ⟨_ | _, t⟩ := r
    · obtain ⟨idle, reason⟩ := performs
      have same := RecordStore.Sound.of_records ⟨F, h⟩ idle.records
      refine ⟨v.changesOnly_committed idle.extended same.1,
        (v.space_committed j t).trans same.2, ?_⟩
      intro _ fresh
      rw [looks]
      exact reason fresh
    · obtain ⟨allowed, extended, F', h', space⟩ := performs
      refine ⟨v.changesOnly_committed extended ⟨F', h'⟩, rfl, looks ▸ allowed, ?_⟩
      rw [v.space_committed j t, h'.space_eq, looks, space]

/-- A store that is closed to changes refuses to open a file for writing or to create one. Otherwise
it is asked, and the file is loaded. -/
theorem keyValue_openFile (self j : Nat) (readOnly : Bool) (p : Path) (flags : OpenFlags)
    (mode : UInt32) (v : Volumes) :
    ((FileSystem.keyValue self j readOnly).openFile p flags mode).runOn v =
      if readOnly && (flags.isWriteable || flags.create) then (.error .readOnly, v)
      else (do
        let opened ← Volumes.withStore j (RecordTree.openFile p flags mode)
        return OpenFile.load self (Utf8.encode p.spelling) flags opened.1 opened.2 (← Volumes.now) :
          Action Volumes OpenFile).runOn v := by
  simp only [FileSystem.keyValue]
  cases readOnly <;> cases flags.isWriteable || flags.create <;> rfl

theorem keyValue_settlesOpen (self j : Nat) (readOnly : Bool) {v : Volumes}
    (sound : v.SoundAt (.store j)) (p : Path) (flags : OpenFlags) (mode : UInt32) :
    SettlesOpen self (.store j) readOnly p flags mode v
      (((FileSystem.keyValue self j readOnly).openFile p flags mode).runOn v) := by
  obtain ⟨F, h⟩ := sound
  have looks : v.space (.store j) = F.space := h.space_eq
  rw [keyValue_openFile]
  by_cases closed : (readOnly && (flags.isWriteable || flags.create)) = true
  · rw [if_pos closed]
    refine ⟨.refl v _, rfl, fun no => ?_⟩
    rw [no] at closed
    cases closed
  · rw [if_neg closed]
    have performs := RecordTree.openFile_performs (t := v.transaction j) h p flags mode
    generalize hr : (RecordTree.openFile p flags mode).runOn (v.transaction j) = r at performs
    obtain ⟨e | ⟨attr, data⟩, t⟩ := r
    · have stop : (Volumes.withStore j (RecordTree.openFile p flags mode)).runOn v =
          (.error e, v.committed j t) := by rw [Volumes.runOn_withStore, hr]
      rw [Action.runOn_bind_error stop]
      obtain ⟨idle, reason⟩ := performs
      have same := RecordStore.Sound.of_records ⟨F, h⟩ idle.records
      refine ⟨v.changesOnly_committed idle.extended same.1,
        (v.space_committed j t).trans same.2, ?_⟩
      intro _ fresh
      rw [looks]
      exact reason fresh
    · have go : (Volumes.withStore j (RecordTree.openFile p flags mode)).runOn v =
          (.ok (attr, data), v.committed j t) := by rw [Volumes.runOn_withStore, hr]
      rw [Action.runOn_bind_ok go]
      obtain ⟨opens, extended, ⟨F', h', space⟩, perm, found, shows⟩ := performs
      have result : (v.committed j t).ticked.space (.store j) = F.space.opened p mode := by
        rw [Volumes.space_ticked, v.space_committed j t, h'.space_eq, space]
      refine ⟨(v.changesOnly_committed extended ⟨F', h'⟩).trans (Volumes.changesOnly_ticked _ _),
        ?_, looks ▸ opens, ?_, perm, data, attr, _, ?_, shows, rfl⟩
      · exact fun ro => Bool.eq_false_iff.2 fun k => closed (by rw [ro, k]; rfl)
      · rw [looks]
        exact result
      · exact (congrFun result p).trans found

theorem keyValue_serves (self j : Nat) (readOnly : Bool) :
    Serves (.keyValue self j readOnly) self (.store j) readOnly where
  capability := rfl
  stat := by
    rintro v p ⟨F, h⟩
    show (v.stores j).space.Stats p _
    rw [h.space_eq]
    exact RecordTree.stat_answer h p
  readdir := by
    rintro v p ⟨F, h⟩
    show (v.stores j).space.Enumerates p _
    rw [h.space_eq]
    exact RecordTree.readdir_answer h p
  readAll := by
    rintro v p ⟨F, h⟩
    show (v.stores j).space.Reads p _
    rw [h.space_eq]
    exact RecordTree.readAll_answer h p
  change := fun _ c sound => keyValue_settles self j readOnly sound c
  openFile := fun _ p flags mode sound => keyValue_settlesOpen self j readOnly sound p flags mode

/-! ## Backends of a system -/

theorem fileSystem_memory {backends : List Backend} {b : BackendId} {tree : Nat}
    (h : backends[b]? = some (.memory tree)) (hops : Nat) :
    fileSystem backends hops b = .memory b tree := by
  cases hops <;> rw [fileSystem, h]

theorem fileSystem_keyValue {backends : List Backend} {b : BackendId} {store : Nat}
    {readOnly : Bool} (h : backends[b]? = some (.keyValue store readOnly)) (hops : Nat) :
    fileSystem backends hops b = .keyValue b store readOnly := by
  cases hops <;> rw [fileSystem, h]

namespace System

variable {s : System} {b : BackendId}

/-! Inquiries at a backend are inquiries at what it is made of. -/

theorem stat_memory {tree : Nat} (there : s.backends[b]? = some (.memory tree)) (p : Path) :
    s.stat b p = (s.volumes.trees tree).stat p := by
  rw [stat, fileSystems, fileSystem_memory there]
  rfl

theorem readAll_memory {tree : Nat} (there : s.backends[b]? = some (.memory tree)) (p : Path) :
    s.readAll b p = (s.volumes.trees tree).readAll p := by
  rw [readAll, fileSystems, fileSystem_memory there]
  rfl

theorem stat_keyValue {store : Nat} {readOnly : Bool}
    (there : s.backends[b]? = some (.keyValue store readOnly)) (p : Path) :
    s.stat b p = RecordTree.stat (s.volumes.stores store) p := by
  rw [stat, fileSystems, fileSystem_keyValue there]
  rfl

theorem readAll_keyValue {store : Nat} {readOnly : Bool}
    (there : s.backends[b]? = some (.keyValue store readOnly)) (p : Path) :
    s.readAll b p = RecordTree.readAll (s.volumes.stores store) p := by
  rw [readAll, fileSystems, fileSystem_keyValue there]
  rfl

end System

/-- The volumes with one store replaced. -/
def Volumes.withRecords (v : Volumes) (j : Nat) (store : RecordStore) : Volumes :=
  { v with stores := setAt v.stores j store }

theorem Volumes.transaction_withRecords (v : Volumes) (j : Nat) (store : RecordStore) :
    (v.withRecords j store).transaction j = ⟨store, v.ambient⟩ :=
  congrArg (fun s => (⟨s, v.ambient⟩ : Transaction)) (setAt_self ..)

/-- Making a backend over a store is a change of that store, which gives it a root. -/
theorem System.addKeyValue_eq (s : System) (store : RecordStore) (readOnly : Bool) :
    s.addKeyValue store readOnly =
      match RecordTree.initialise.runOn ⟨store, s.volumes.ambient⟩ with
      | (.ok _, t) =>
        .ok (System.add ⟨s.backends, (s.volumes.withRecords s.next store).committed s.next t⟩
          (.keyValue s.next readOnly))
      | (.error e, _) => .error e := by
  have run : System.run ⟨s.backends,
      { s.volumes with stores := setAt s.volumes.stores s.next store }⟩
      (Volumes.withStore s.next RecordTree.initialise) =
      ((RecordTree.initialise.runOn ⟨store, s.volumes.ambient⟩).1, ⟨s.backends,
        (s.volumes.withRecords s.next store).committed s.next
          (RecordTree.initialise.runOn ⟨store, s.volumes.ambient⟩).2⟩) := by
    show System.run ⟨s.backends, s.volumes.withRecords s.next store⟩ _ = _
    rw [System.run, Volumes.runOn_withStore, Volumes.transaction_withRecords]
  rw [System.addKeyValue, run]
  rcases RecordTree.initialise.runOn ⟨store, s.volumes.ambient⟩ with ⟨_ | _, _⟩ <;> rfl

/-- A backend over an empty store can be made, unless the store refuses additions. The store has a
root then and nothing else. -/
theorem System.addKeyValue_cases (s : System) (store : RecordStore) (empty : store.records = ∅)
    (readOnly : Bool) :
    (∃ t F, s.addKeyValue store readOnly =
          .ok (System.add ⟨s.backends, (s.volumes.withRecords s.next store).committed s.next t⟩
            (.keyValue s.next readOnly)) ∧
        t.store.Represents F ∧ F.space = RecordTree.initialSpace ∧
        (∀ b, Transaction.Fresh ⟨store, s.volumes.ambient⟩ b → t.Fresh b) ∧
        t.ambient.ids = s.volumes.ambient.ids ∧ s.volumes.ambient.draws ≤ t.ambient.draws) ∨
      ∃ e, s.addKeyValue store readOnly = .error e ∧ ¬∀ n, store.refuses n = false := by
  rw [System.addKeyValue_eq]
  obtain ⟨t, ⟨hr, fresh, ids, draws, F, h, space⟩ | ⟨e, hr, refused⟩⟩ :=
    RecordTree.initialise_sound (t := ⟨store, s.volumes.ambient⟩) empty
  · rw [hr]
    exact .inl ⟨t, F, rfl, h, space, fresh, ids, draws⟩
  · rw [hr]
    exact .inr ⟨e, rfl, refused⟩

end MountSpace
