import MountSpace.Proofs.Reachable

/-!
# Calls about an open file

The holder of an open file reads and changes its buffer, stores it and gives it up. Each call is
made in some system, which others may have changed since the last one.

- `FileCall`, `System.call`, `System.callAll`: one call and any number of them. A call that fails
  leaves the file as it was.
- `call_write`, `call_truncate`, `call_stores`, `call_keeps`, `call_failed`: what calls come to.
- `System.IsPlain`: a backend that keeps what it offers, and does not send calls on.
- `Loaded`, `openFile_loads`: what a file starts with when such a backend opens it,
  whatever the backend holds.
-/

namespace MountSpace

/-- What the holder of an open file can ask for. -/
inductive FileCall where
  | read (offset size : Nat)
  | write (offset : Nat) (new : Bytes)
  | truncate (size : Nat)
  | sync
  | close
  deriving DecidableEq

namespace FileCall

/-- The calls that hand the buffer to the backend. -/
def stores : FileCall → Bool
  | sync => true
  | close => true
  | _ => false

/-- The calls that change the buffer. -/
def changes : FileCall → Bool
  | write _ _ => true
  | truncate _ => true
  | _ => false

theorem sync_or_close {c : FileCall} (stores : c.stores = true) : c = .sync ∨ c = .close := by
  cases c with
  | sync => exact .inl rfl
  | close => exact .inr rfl
  | read offset size => cases stores
  | write offset new => cases stores
  | truncate size => cases stores

end FileCall

/-- The answer to a call that leaves a file in a new state, with that state and
the system afterwards. -/
def OpenFile.settle (f : OpenFile) (outcome : Except FsError OpenFile × System) :
    Except FsError Bytes × OpenFile × System :=
  (outcome.1.map fun _ => [], outcome.1.toOption.getD f, outcome.2)

namespace System

/-- The answer to a call about an open file, with the file and the system afterwards. -/
def call (s : System) (f : OpenFile) : FileCall → Except FsError Bytes × OpenFile × System
  | .read offset size => (f.read offset size, f, s)
  | .write offset new => f.settle (s.write f offset new)
  | .truncate size => f.settle (s.truncate f size)
  | .sync => f.settle (s.syncFile f)
  | .close => f.settle (s.closeFile f)

/-- An open file and the system after calls, one after the other. -/
def callAll (s : System) (f : OpenFile) (calls : List FileCall) : OpenFile × System :=
  calls.foldl (fun r c => (r.2.call r.1 c).2) (f, s)

/-! ## What a call comes to -/

variable (s : System) (f : OpenFile)

/-- A write reads the clock and changes the buffer. -/
theorem call_write (offset : Nat) (new : Bytes) : s.call f (.write offset new) =
    f.settle (f.write offset new s.volumes.ambient.now,
      { s with volumes := s.volumes.ticked }) := by
  rw [call, write, run, Volumes.runOn_now_bind, Action.runOn_ofExcept]

theorem call_truncate (size : Nat) : s.call f (.truncate size) =
    f.settle (f.truncate size s.volumes.ambient.now, { s with volumes := s.volumes.ticked }) := by
  rw [call, truncate, run, Volumes.runOn_now_bind, Action.runOn_ofExcept]

/-- A changed buffer is handed to the backend that the file belongs to, under
the path of the file. -/
theorem syncFile_eq : s.syncFile f =
    if f.closed then (.error (.other ("file handle closed: " ++ f.shownPath)), s)
    else if f.dirty then
      ((s.sync f.owner (Path.ofBytes f.path) f.data f.attr).1.map
        fun _ => { f with dirty := false },
        (s.sync f.owner (Path.ofBytes f.path) f.data f.attr).2)
    else (.ok { f with dirty := false }, s) := by
  rw [syncFile, run, OpenFile.runOn_sync]
  cases f.closed with
  | true => rfl
  | false => cases f.dirty <;> rfl

theorem closeFile_eq : s.closeFile f =
    ((s.syncFile f).1.map fun f' => { f' with closed := true }, (s.syncFile f).2) := by
  rw [closeFile, syncFile, run, run, OpenFile.runOn_close]

/-- Giving a file up does to the system what storing it does, and succeeds where that does. -/
theorem call_stores {c : FileCall} (stores : c.stores = true) :
    (s.call f c).1.isOk = (s.syncFile f).1.isOk ∧ (s.call f c).2.2 = (s.syncFile f).2 := by
  obtain rfl | rfl := FileCall.sync_or_close stores
  · exact ⟨Except.isOk_map .., rfl⟩
  · rw [call, closeFile_eq, OpenFile.settle, Except.isOk_map, Except.isOk_map]
    exact ⟨rfl, rfl⟩

/-- Calls that do not hand the buffer over may read the clock, and that is all. -/
theorem call_keeps {c : FileCall} (keeps : c.stores = false) :
    (s.call f c).2.2 = s ∨ (s.call f c).2.2 = { s with volumes := s.volumes.ticked } := by
  cases c with
  | read offset size => exact .inl rfl
  | write offset new =>
    rw [call_write]
    exact .inr rfl
  | truncate size =>
    rw [call_truncate]
    exact .inr rfl
  | sync => cases keeps
  | close => cases keeps

variable {s f}

/-- A call that fails leaves the file as it was. -/
theorem call_failed {c : FileCall} (failed : (s.call f c).1.isOk = false) :
    (s.call f c).2.1 = f := by
  have settled : ∀ outcome : Except FsError OpenFile × System,
      (f.settle outcome).1.isOk = false → (f.settle outcome).2.1 = f := by
    rintro ⟨_ | f', s'⟩ failed
    · rfl
    · cases failed
  cases c with
  | read offset size => rfl
  | write offset new => exact settled _ failed
  | truncate size => exact settled _ failed
  | sync => exact settled _ failed
  | close => exact settled _ failed

theorem syncFile_isOk : (s.syncFile f).1.isOk = true ↔ f.closed = false ∧
    (f.dirty = true → (s.sync f.owner (Path.ofBytes f.path) f.data f.attr).1.isOk = true) := by
  rw [syncFile_eq]
  cases f.closed with
  | true => simp [Except.isOk, Except.toBool]
  | false =>
    cases f.dirty with
    | true => simp
    | false => simp [Except.isOk, Except.toBool]

theorem syncFile_ok {f' : OpenFile} (stored : (s.syncFile f).1 = .ok f') :
    f' = { f with dirty := false } := by
  rw [syncFile, run] at stored
  rcases hr : (f.sync (s.fileSystems (Path.ofBytes f.path) f.owner)).runOn s.volumes
    with ⟨_ | f₁, v⟩
  · rw [hr] at stored
    cases stored
  · rw [hr] at stored
    cases stored
    exact OpenFile.sync_ok hr

/-! ## What a file starts with -/

/-- A backend keeps what it offers itself, in a tree or in a store of records. -/
def IsPlain (s : System) (b : BackendId) : Prop :=
  (∃ tree, s.backends[b]? = some (.memory tree)) ∨
    ∃ store readOnly, s.backends[b]? = some (.keyValue store readOnly)

/-- A backend over a store keeps what it offers, whatever records the store has to begin with. -/
theorem isPlain_addKeyValue {s s' : System} {store : RecordStore} {readOnly : Bool}
    (made : s.addKeyValue store readOnly = .ok s') : s'.IsPlain s.next := by
  rw [addKeyValue_eq] at made
  rcases hr : RecordTree.initialise.runOn ⟨store, s.volumes.ambient⟩ with ⟨_ | _, t⟩
  · rw [hr] at made
    cases made
  · rw [hr] at made
    cases made
    exact .inr ⟨s.next, readOnly, List.getElem?_concat_length⟩

end System

/-- A file starts with what the backend told of it, or with nothing where nothing was. -/
def Loaded (told : Except FsError FileAttr) (content : Except FsError Bytes) (attr : FileAttr)
    (data : Bytes) : Prop :=
  told = .ok attr ∧ content = .ok data ∨
    told.isOk = false ∧ content.isOk = false ∧ attr.size = 0 ∧ data = []

theorem MemoryTree.openFile_loads {t t' : MemoryTree} {p : Path} {flags : OpenFlags} {mode : UInt32}
    {now : Instant} {attr : FileAttr} {data : Bytes}
    (opened : t.openFile p flags mode now = .ok (attr, data, t')) :
    Loaded (t.stat p) (t.readAll p) attr data := by
  rw [openFile] at opened
  rw [stat, readAll, node]
  cases hn : t.get? p with
  | some n =>
    rw [hn] at opened
    cases n with
    | directory attr' => cases opened
    | file data' attr' =>
      dsimp only at opened
      split at opened
      · cases opened
      · cases opened
        exact .inl ⟨rfl, rfl⟩
  | none =>
    rw [hn] at opened
    cases create : flags.create with
    | false =>
      rw [create] at opened
      cases opened
    | true =>
      rw [create] at opened
      cases hd : t.checkDirectory p.parent with
      | error e =>
        rw [hd] at opened
        cases opened
      | ok _ =>
        rw [hd] at opened
        cases opened
        exact .inr ⟨rfl, rfl, rfl, rfl⟩

namespace RecordTree

open StoreAction

variable {t t' : Transaction} {p : Path}

/-- The inode of a new entry has the size of its content. -/
theorem addEntry_size {kind : FileKind} {perm : UInt32} {content : Bytes} {i : Inode}
    (made : (addEntry p kind perm content).runOn t = (.ok i, t')) :
    i.size = content.length.toUInt32 := by
  rw [addEntry_eq] at made
  cases hp : p.name? with
  | none =>
    rw [hp] at made
    cases made
  | some name =>
    rw [hp] at made
    simp only [runOn_ask_bind] at made
    cases hd : t.store.directory p.parent with
    | error e =>
      rw [hd] at made
      cases made
    | ok dir =>
      rw [hd] at made
      dsimp only at made
      split at made
      · cases made
      obtain ⟨t₁, ⟨id, i', -, hr, -, -, size, -⟩ | ⟨e, hr, -⟩⟩ :=
        runOn_addRecords kind perm content t
      · -- The listing is written after the records, and has no say in what they are.
        rw [Action.runOn_bind_ok hr, Action.runOn_bind] at made
        split at made
        · cases made
          exact size
        · cases made
      · rw [Action.runOn_bind_error hr] at made
        cases made

theorem openFile_loads {flags : OpenFlags} {mode : UInt32} {attr : FileAttr} {data : Bytes}
    (opened : (openFile p flags mode).runOn t = (.ok (attr, data), t')) :
    Loaded (stat t.store p) (readAll t.store p) attr data := by
  rw [stat, readAll]
  unfold openFile at opened
  rw [Action.runOn_get_bind] at opened
  cases found : t.store.lookup p with
  | ok r =>
    obtain ⟨id, inode⟩ := r
    rw [found] at opened
    dsimp only at opened
    split at opened
    · cases opened
    split at opened
    · cases opened
    next notDir =>
      rw [runOn_ask_bind] at opened
      simp only [Except.ok_bind, if_neg notDir]
      cases hc : t.store.content inode with
      | error e =>
        rw [hc] at opened
        cases opened
      | ok content =>
        rw [hc] at opened
        cases opened
        exact .inl ⟨rfl, rfl⟩
  | error e =>
    rw [found] at opened
    dsimp only at opened
    split at opened
    · rw [Action.runOn_bind] at opened
      rcases hr : (addEntry p .file mode []).runOn t with ⟨_ | i, t₁⟩
      · rw [hr] at opened
        cases opened
      · rw [hr] at opened
        cases opened
        refine .inr ⟨rfl, rfl, ?_, rfl⟩
        rw [Inode.size_toAttr, addEntry_size hr]
        rfl
    · cases opened

end RecordTree

namespace System

variable {s s' : System} {b : BackendId} {p : Path} {flags : OpenFlags} {mode : UInt32}
  {f : OpenFile}

/-- Whatever a backend holds, a file that it opens is loaded from what it told before. -/
theorem openFile_loads (plain : s.IsPlain b) (opened : s.openFile b p flags mode = (.ok f, s')) :
    ∃ attr data now, Loaded (s.stat b p) (s.readAll b p) attr data ∧
      f = OpenFile.load b (Utf8.encode p.spelling) flags attr data now := by
  rw [openFile, fileSystems, run] at opened
  obtain ⟨tree, there⟩ | ⟨store, readOnly, there⟩ := plain
  · rw [fileSystem_memory there, memory_openFile] at opened
    rw [stat_memory there, readAll_memory there]
    cases ho : (s.volumes.trees tree).openFile p flags mode s.volumes.ambient.now with
    | error e =>
      rw [ho] at opened
      cases opened
    | ok r =>
      obtain ⟨attr, data, t⟩ := r
      rw [ho] at opened
      cases opened
      exact ⟨attr, data, _, MemoryTree.openFile_loads ho, rfl⟩
  · rw [fileSystem_keyValue there, keyValue_openFile] at opened
    rw [stat_keyValue there, readAll_keyValue there]
    by_cases closed : (readOnly && (flags.isWriteable || flags.create)) = true
    · rw [if_pos closed] at opened
      cases opened
    · rw [if_neg closed, Action.runOn_bind, Volumes.runOn_withStore] at opened
      rcases hr : (RecordTree.openFile p flags mode).runOn (s.volumes.transaction store)
        with ⟨_ | r, t⟩
      · rw [hr] at opened
        cases opened
      · obtain ⟨attr, data⟩ := r
        rw [hr] at opened
        cases opened
        exact ⟨attr, data, _, RecordTree.openFile_loads hr, rfl⟩

end System

end MountSpace
