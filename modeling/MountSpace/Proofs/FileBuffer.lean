import MountSpace.Proofs.Equivalence
import MountSpace.Proofs.FileCalls

/-!
# An open file is a byte array

What the holder of an open file sees is what a plain byte array would show, on which the calls that
succeed act one after the other. It does not matter what happens to the system between them.

- `Bytes.overlay`, `Bytes.cut`, `Bytes.window`: a write, a truncation and a read, byte by byte.
- `ByteFile`, `ByteFile.after`, `ByteFile.Accepts`: the array with what is known about storing it,
  what a call makes of it, and which calls succeed.
- `OpenFile.Tracks`, `Tracks.call`, `Tracks.after`: an open file goes with an array, over one call
  and over any number of them.
- `sync_isOk`, `readAll_stored`: what can be stored, and what has been stored can be read.
- `loaded_size_memory`, `loaded_size_keyValue`: the size that is told of a file when it is opened.
- `opened_file_mirrors`: all of it, for every file that a backend over a tree or over a store opens.
- `stray_records_mislead`: what is told of a file in a store whose records no call has written.
-/

namespace MountSpace

/-! ## Bytes, one by one -/

namespace Bytes

/-- Bytes with others laid over them: the new ones from the offset on, the old ones elsewhere, and
zeros where there were none. -/
def overlay (data : Bytes) (offset : Nat) (new : Bytes) : Bytes :=
  (List.range (max data.length (offset + new.length))).map fun i =>
    if offset ≤ i ∧ i < offset + new.length then new.getD (i - offset) 0 else data.getD i 0

/-- The first bytes, and zeros where there were none. -/
def cut (data : Bytes) (size : Nat) : Bytes := (List.range size).map fun i => data.getD i 0

/-- The bytes from one place to another, as far as there are any. -/
def window (data : Bytes) (offset size : Nat) : Bytes :=
  (data.take (min (offset + size) data.length)).drop (min offset data.length)

end Bytes

theorem splice_eq_overlay (data : Bytes) (offset : Nat) (new : Bytes) :
    splice data offset new = Bytes.overlay data offset new := by
  refine List.ext_getElem (by simp [length_splice, Bytes.overlay]) fun i hi _ => ?_
  rw [length_splice] at hi
  simp only [splice, Bytes.overlay, List.getElem_map, List.getElem_range, List.getElem_append,
    List.length_append, List.length_take, List.length_replicate, List.getElem_take,
    List.getElem_drop,
    List.getElem_replicate, List.getD_eq_getElem?_getD]
  -- A byte lies before the new ones, where it may be in the gap, among them, or after them.
  by_cases before : i < offset
  · rw [if_neg (by omega), dif_pos (by omega), dif_pos (by omega)]
    by_cases old : i < data.length
    · rw [dif_pos (by omega), List.getElem?_eq_getElem old]
      rfl
    · rw [dif_neg (by omega), List.getElem?_eq_none (by omega)]
      rfl
  · by_cases among : i < offset + new.length
    · rw [if_pos (by omega), dif_pos (by omega), dif_neg (by omega),
        List.getElem?_eq_getElem (by omega)]
      simp only [Option.getD_some]
      congr 1
      omega
    · rw [if_neg (by omega), dif_neg (by omega), List.getElem?_eq_getElem (by omega)]
      simp only [Option.getD_some]
      congr 1
      omega

theorem resize_eq_cut (data : Bytes) (size : Nat) : resize data size = Bytes.cut data size := by
  refine List.ext_getElem (by simp [length_resize, Bytes.cut]) fun i hi _ => ?_
  rw [length_resize] at hi
  simp only [resize, Bytes.cut, List.getElem_map, List.getElem_range, List.getElem_append,
    List.length_take, List.getElem_take, List.getElem_replicate, List.getD_eq_getElem?_getD]
  by_cases old : i < data.length
  · rw [dif_pos (by omega), List.getElem?_eq_getElem old]
    rfl
  · rw [dif_neg (by omega), List.getElem?_eq_none (by omega)]
    rfl

theorem drop_take_eq_window (data : Bytes) (offset size : Nat) :
    (data.drop offset).take size = Bytes.window data offset size := by
  rw [Bytes.window, List.take_drop]
  by_cases within : offset ≤ data.length
  · rw [Nat.min_eq_left within]
    congr 1
    rw [List.take_eq_take_iff]
    omega
  · rw [List.drop_eq_nil_of_le, List.drop_eq_nil_of_le]
    · simp only [List.length_take]
      omega
    · simp only [List.length_take]
      omega

/-! ## The array that goes with an open file -/

/-- A byte array with what is known about storing it. -/
structure ByteFile where
  bytes : Bytes
  /-- The size that is told, which need not be that of the array before the array changes. -/
  size : UInt64
  dirty : Bool
  closed : Bool

namespace ByteFile

/-- What was loaded, or nothing if the content is dropped, which is a change
unless there was none. -/
def opened (flags : OpenFlags) (size : UInt64) (data : Bytes) : ByteFile :=
  if flags.truncate && !data.isEmpty then ⟨[], 0, true, false⟩ else ⟨data, size, false, false⟩

/-- What is dropped has changed. -/
theorem dirty_opened (flags : OpenFlags) (size : UInt64) (data : Bytes) :
    (opened flags size data).dirty = (flags.truncate && !data.isEmpty) := by
  rw [opened]
  split
  next dropped => exact dropped.symm
  next kept => exact (Bool.eq_false_iff.2 kept).symm

theorem opened_of_dirty {flags : OpenFlags} {size : UInt64} {data : Bytes}
    (dirty : (opened flags size data).dirty = true) :
    opened flags size data = ⟨[], 0, true, false⟩ := by
  rw [dirty_opened] at dirty
  rw [opened, if_pos dirty]

/-- The array with other bytes. -/
def withBytes (r : ByteFile) (bytes : Bytes) : ByteFile :=
  { r with bytes, size := bytes.length.toUInt64, dirty := true }

/-- Where a write takes place. -/
def place (r : ByteFile) (flags : OpenFlags) (offset : Nat) : Nat :=
  if flags.append then r.bytes.length else offset

/-- The array after a call that succeeds. -/
def after (flags : OpenFlags) (r : ByteFile) : FileCall → ByteFile
  | .read _ _ => r
  | .write offset new => r.withBytes (r.bytes.overlay (r.place flags offset) new)
  | .truncate size => r.withBytes (r.bytes.cut size)
  | .sync => { r with dirty := false }
  | .close => { r with dirty := false, closed := true }

/-- The array after calls that succeed, one after the other. -/
def afterAll (flags : OpenFlags) (r : ByteFile) (calls : List FileCall) : ByteFile :=
  calls.foldl (after flags) r

/-- Which calls succeed. What is changed can be stored just where the backend takes it. -/
def Accepts (flags : OpenFlags) (r : ByteFile) (takes : Bool) : FileCall → Prop
  | .read _ _ => r.closed = false ∧ flags.read = true
  | .write offset new => r.closed = false ∧ flags.isWriteable = true ∧
      r.place flags offset + new.length ≤ maxFileLength
  | .truncate size => r.closed = false ∧ flags.isWriteable = true ∧ size ≤ maxFileLength
  | .sync => r.closed = false ∧ (r.dirty = true → takes = true)
  | .close => r.closed = false ∧ (r.dirty = true → takes = true)

/-- Once the array has changed, the size that is told is its own. -/
theorem size_afterAll (flags : OpenFlags) (calls : List FileCall) : ∀ r : ByteFile,
    r.size = r.bytes.length.toUInt64 ∨ calls.any FileCall.changes = true →
      (r.afterAll flags calls).size = (r.afterAll flags calls).bytes.length.toUInt64 := by
  induction calls with
  | nil =>
    rintro r (told | change)
    · exact told
    · cases change
  | cons c calls ih =>
    intro r start
    refine ih (r.after flags c) ?_
    rcases start with told | change
    · left
      cases c with
      | write offset new => rfl
      | truncate size => rfl
      | read offset size => exact told
      | sync => exact told
      | close => exact told
    · rw [List.any_cons, Bool.or_eq_true] at change
      rcases change with now | later
      · left
        cases c with
        | write offset new => rfl
        | truncate size => rfl
        | read offset size => cases now
        | sync => cases now
        | close => cases now
      · exact .inr later

end ByteFile

namespace OpenFile

/-- An open file after calls, each of which is made in some system. -/
def after (f : OpenFile) (calls : List (System × FileCall)) : OpenFile :=
  calls.foldl (fun f c => (c.1.call f c.2).2.1) f

/-- Those of the calls that succeed. -/
def succeeded (f : OpenFile) : List (System × FileCall) → List FileCall
  | [] => []
  | (s, c) :: rest =>
    if (s.call f c).1.isOk then c :: (s.call f c).2.1.succeeded rest else f.succeeded rest

/-! ## When operations on the buffer succeed -/

theorem read_isOk {f : OpenFile} {offset size : Nat} :
    (f.read offset size).isOk = true ↔ f.closed = false ∧ f.flags.read = true := by
  rw [read, checkOpen]
  cases f.closed with
  | true => exact ⟨fun h => (by cases h), fun h => (by cases h.1)⟩
  | false =>
    cases f.flags.read with
    | true => exact ⟨fun _ => ⟨rfl, rfl⟩, fun _ => rfl⟩
    | false => exact ⟨fun h => (by cases h), fun h => (by cases h.2)⟩

theorem read_ok {f : OpenFile} {offset size : Nat} {answer : Bytes}
    (h : f.read offset size = .ok answer) : answer = f.data.window offset size := by
  obtain ⟨isOpen, readable⟩ := read_isOk.1 (by rw [h]; rfl)
  rw [read, checkOpen, isOpen, readable] at h
  cases h
  exact drop_take_eq_window ..

/-- A change of the buffer is refused once the file is closed, without leave to write,
and beyond a limit. -/
theorem change_isOk {f f' : OpenFile} {large : Prop} [Decidable large] {e : FsError} :
    (do
      f.checkWriteable
      if large then
        throw e
      return f' : Except FsError OpenFile).isOk = true ↔
    f.closed = false ∧ f.flags.isWriteable = true ∧ ¬large := by
  rw [checkWriteable, checkOpen]
  cases f.closed with
  | true => exact ⟨fun h => (by cases h), fun h => (by cases h.1)⟩
  | false =>
    cases f.flags.isWriteable with
    | false => exact ⟨fun h => (by cases h), fun h => (by cases h.2.1)⟩
    | true =>
      by_cases h : large
      · rw [if_pos h]
        exact ⟨fun ok => (by cases ok), fun small => absurd h small.2.2⟩
      · rw [if_neg h]
        exact ⟨fun _ => ⟨rfl, rfl, h⟩, fun _ => rfl⟩

theorem write_isOk {f : OpenFile} {offset : Nat} {new : Bytes} {now : Instant} :
    (f.write offset new now).isOk = true ↔ f.closed = false ∧ f.flags.isWriteable = true ∧
      f.writeOffset offset + new.length ≤ maxFileLength := by
  rw [← Nat.not_lt]
  exact change_isOk

theorem truncate_isOk {f : OpenFile} {size : Nat} {now : Instant} :
    (f.truncate size now).isOk = true ↔ f.closed = false ∧ f.flags.isWriteable = true ∧
      size ≤ maxFileLength := by
  rw [← Nat.not_lt]
  exact change_isOk

/-! ## An open file and its array -/

/-- An open file belongs to a path of a backend, and its buffer is an array. -/
structure Tracks (f : OpenFile) (b : BackendId) (p : Path) (flags : OpenFlags)
    (r : ByteFile) : Prop where
  owner : f.owner = b
  path : Path.ofBytes f.path = p
  flags : f.flags = flags
  bytes : f.data = r.bytes
  size : f.attr.size = r.size
  dirty : f.dirty = r.dirty
  closed : f.closed = r.closed

namespace Tracks

variable {f : OpenFile} {b : BackendId} {p : Path} {flags : OpenFlags} {r : ByteFile}

theorem load (b : BackendId) (p : Path) (flags : OpenFlags) (attr : FileAttr) (data : Bytes)
    (now : Instant) :
    (OpenFile.load b (Utf8.encode p.spelling) flags attr data now).Tracks b p flags
      (.opened flags attr.size data) := by
  rw [OpenFile.load, ByteFile.opened]
  split <;> exact ⟨rfl, Path.ofBytes_spelling p, rfl, rfl, rfl, rfl, rfl⟩

theorem withData (h : f.Tracks b p flags r) (bytes : Bytes) (now : Instant) :
    (f.withData bytes now).Tracks b p flags (r.withBytes bytes) :=
  ⟨h.owner, h.path, h.flags, rfl, rfl, rfl, h.closed⟩

theorem place (h : f.Tracks b p flags r) (offset : Nat) :
    f.writeOffset offset = r.place flags offset := by
  rw [writeOffset, ByteFile.place, h.flags, h.bytes]

/-- Which calls succeed can be told from the array. -/
theorem accepts (h : f.Tracks b p flags r) (s : System) (c : FileCall) :
    (s.call f c).1.isOk = true ↔ r.Accepts flags (s.sync b p f.data f.attr).1.isOk c := by
  have stored : (s.syncFile f).1.isOk = true ↔ r.closed = false ∧
      (r.dirty = true → (s.sync b p f.data f.attr).1.isOk = true) := by
    rw [System.syncFile_isOk, h.owner, h.path, h.dirty, h.closed]
  cases c with
  | read offset size => rw [System.call, read_isOk, h.closed, h.flags, ByteFile.Accepts]
  | write offset new =>
    rw [System.call_write, settle, Except.isOk_map, write_isOk, h.closed, h.flags, h.place,
      ByteFile.Accepts]
  | truncate size =>
    rw [System.call_truncate, settle, Except.isOk_map, truncate_isOk, h.closed, h.flags,
      ByteFile.Accepts]
  | sync => rw [(s.call_stores f rfl).1, stored, ByteFile.Accepts]
  | close => rw [(s.call_stores f rfl).1, stored, ByteFile.Accepts]

/-- A call that succeeds acts on the array. -/
theorem call (h : f.Tracks b p flags r) {s : System} {c : FileCall}
    (ok : (s.call f c).1.isOk = true) : (s.call f c).2.1.Tracks b p flags (r.after flags c) := by
  cases c with
  | read offset size => exact h
  | write offset new =>
    rw [System.call_write, settle] at ok ⊢
    cases hw : f.write offset new s.volumes.ambient.now with
    | error e =>
      rw [hw] at ok
      cases ok
    | ok f' =>
      rw [(write_ok hw).1, h.place, h.bytes, splice_eq_overlay]
      exact h.withData _ _
  | truncate size =>
    rw [System.call_truncate, settle] at ok ⊢
    cases ht : f.truncate size s.volumes.ambient.now with
    | error e =>
      rw [ht] at ok
      cases ok
    | ok f' =>
      rw [truncate_ok ht, h.bytes, resize_eq_cut]
      exact h.withData _ _
  | sync =>
    rw [System.call, settle] at ok ⊢
    cases hs : (s.syncFile f).1 with
    | error e =>
      rw [hs] at ok
      cases ok
    | ok f' =>
      rw [System.syncFile_ok hs]
      exact ⟨h.owner, h.path, h.flags, h.bytes, h.size, rfl, h.closed⟩
  | close =>
    rw [System.call, settle, System.closeFile_eq] at ok ⊢
    cases hs : (s.syncFile f).1 with
    | error e =>
      rw [hs] at ok
      cases ok
    | ok f' =>
      rw [System.syncFile_ok hs]
      exact ⟨h.owner, h.path, h.flags, h.bytes, h.size, rfl, rfl⟩

/-- So do all calls that succeed, and those that fail do nothing. -/
theorem after (h : f.Tracks b p flags r) (calls : List (System × FileCall)) :
    (f.after calls).Tracks b p flags (r.afterAll flags (f.succeeded calls)) := by
  induction calls generalizing f r with
  | nil => exact h
  | cons c calls ih =>
    obtain ⟨s, c⟩ := c
    show ((s.call f c).2.1.after calls).Tracks _ _ _ _
    rw [succeeded]
    split
    next ok => exact ih (h.call ok)
    next failed =>
      rw [System.call_failed (Bool.eq_false_iff.2 failed)]
      exact ih h

end Tracks

end OpenFile

namespace System

variable {s s' : System} {b : BackendId} {p : Path} {flags : OpenFlags} {mode : UInt32}
variable {attr : FileAttr} {data : Bytes}

/-! ## What is stored, and what is told of it -/

/-- A backend over a store that it may not change. -/
def IsSealed (s : System) (b : BackendId) : Prop :=
  ∃ store, s.backends[b]? = some (.keyValue store true)

/-- A backend of its own answers for a volume, which is in order in a system that can come about. -/
theorem IsPlain.serves (plain : s.IsPlain b) (reachable : s.Reachable) : ∃ vol readOnly,
    s.volumes.SoundAt vol ∧ (readOnly = true → s.IsSealed b) ∧
      ∀ hops, Serves (fileSystem s.backends hops b) b vol readOnly := by
  obtain ⟨tree, there⟩ | ⟨store, readOnly, there⟩ := plain
  · refine ⟨.tree tree, false, reachable.inOrder.volumes.sound b _ _ there rfl, fun no => ?_,
      fun hops => ?_⟩
    · cases no
    · rw [fileSystem_memory there]
      exact memory_serves b tree
  · refine ⟨.store store, readOnly, reachable.inOrder.volumes.sound b _ _ there rfl,
      fun closed => ?_, fun hops => ?_⟩
    · exact ⟨store, closed ▸ there⟩
    · rw [fileSystem_keyValue there]
      exact keyValue_serves b store readOnly

/-- A file that can be read can be given other content, unless the backend may not be changed. -/
theorem sync_isOk (reachable : s.Reachable) (plain : s.IsPlain b) (unsealed : ¬s.IsSealed b)
    {old : Bytes} (there : s.readAll b p = .ok old) : (s.sync b p data attr).1.isOk = true := by
  obtain ⟨vol, readOnly, sound, sealed, serves⟩ := plain.serves reachable
  have settles := (serves (s.hopBudget p)).change s.volumes (.sync p data attr) sound
  have reads := (serves (s.hopBudget p)).readAll s.volumes p sound
  rw [show (fileSystem s.backends (s.hopBudget p) b).readAll s.volumes p =
    .ok old from there] at reads
  have result : s.sync b p data attr =
      s.run ((fileSystem s.backends (s.hopBudget p) b).change (.sync p data attr)) := rfl
  rw [result, run]
  rcases hr :
      ((fileSystem s.backends (s.hopBudget p) b).change (.sync p data attr)).runOn s.volumes
    with ⟨e | _, v⟩
  · rw [hr] at settles
    obtain ⟨perm, found⟩ := reads
    exact absurd ⟨perm, old, found⟩
      (settles.2.2 (Bool.eq_false_iff.2 fun h => unsealed (sealed h)) (.inr rfl))
  · rfl

/-- A file that was opened starts with what can be read of it afterwards. -/
theorem openFile_reads {f : OpenFile} (reachable : s.Reachable) (plain : s.IsPlain b)
    (opened : s.openFile b p flags mode = (.ok f, s')) :
    ∃ attr data now, s'.readAll b p = .ok data ∧
      f = OpenFile.load b (Utf8.encode p.spelling) flags attr data now := by
  obtain ⟨vol, readOnly, sound, -, serves⟩ := plain.serves reachable
  have settles := (serves (s.hopBudget p)).openFile s.volumes p flags mode sound
  rw [openFile, run] at opened
  rcases hr : ((fileSystem s.backends (s.hopBudget p) b).openFile p flags mode).runOn s.volumes
    with ⟨_ | f', v⟩
  · rw [fileSystems, hr] at opened
    cases opened
  · rw [fileSystems, hr] at opened
    cases opened
    rw [hr] at settles
    obtain ⟨only, -, -, -, perm, data, attr, now, found, -, rfl⟩ := settles
    have reads := (serves (s.hopBudget p)).readAll v p (only.sound sound)
    exact ⟨attr, data, now, reads.of_file found, rfl⟩

/-- Content that was stored can be read. -/
theorem readAll_sync (reachable : s.Reachable) (plain : s.IsPlain b)
    (stored : (s.sync b p data attr).1.isOk = true) :
    (s.sync b p data attr).2.readAll b p = .ok data := by
  obtain ⟨vol, readOnly, sound, -, serves⟩ := plain.serves reachable
  have settles := (serves (s.hopBudget p)).change s.volumes (.sync p data attr) sound
  have result : s.sync b p data attr =
      s.run ((fileSystem s.backends (s.hopBudget p) b).change (.sync p data attr)) := rfl
  rw [result, run] at stored ⊢
  rcases hr :
      ((fileSystem s.backends (s.hopBudget p) b).change (.sync p data attr)).runOn s.volumes
    with ⟨_ | _, v⟩
  · rw [hr] at stored
    cases stored
  · rw [hr] at settles
    obtain ⟨only, -, -, space⟩ := settles
    have reads := (serves (s.hopBudget p)).readAll v p (only.sound sound)
    rw [space, Space.after] at reads
    exact reads.of_file (Space.put_self ..)

/-- A changed buffer that was stored can be read. -/
theorem readAll_stored {f : OpenFile} {c : FileCall} (reachable : s.Reachable) (plain : s.IsPlain b)
    (owner : f.owner = b) (path : Path.ofBytes f.path = p) (stores : c.stores = true)
    (dirty : f.dirty = true) (ok : (s.call f c).1.isOk = true) :
    (s.call f c).2.2.readAll b p = .ok f.data := by
  obtain ⟨same, after⟩ := s.call_stores f stores
  rw [same] at ok
  rw [after]
  obtain ⟨isOpen, taken⟩ := syncFile_isOk.1 ok
  have stored := taken dirty
  rw [syncFile_eq, isOpen, if_neg Bool.false_ne_true, if_pos dirty]
  rw [owner, path] at stored ⊢
  exact readAll_sync reachable plain stored

/-- A tree tells the size of the content. -/
theorem loaded_size_memory {tree : Nat} (reachable : s.Reachable)
    (there : s.backends[b]? = some (.memory tree))
    (loaded : Loaded (s.stat b p) (s.readAll b p) attr data) :
    attr.size = data.length.toUInt64 := by
  have sound : s.volumes.SoundAt (.tree tree) := reachable.inOrder.volumes.sound b _ _ there rfl
  obtain ⟨told, content⟩ | ⟨-, -, size, rfl⟩ := loaded
  · rw [stat_memory there, MemoryTree.stat, MemoryTree.node] at told
    rw [readAll_memory there, MemoryTree.readAll, MemoryTree.node] at content
    cases hn : (s.volumes.trees tree).get? p with
    | none =>
      rw [hn] at told
      cases told
    | some n =>
      rw [hn] at told content
      cases n with
      | directory attr' => cases content
      | file data' attr' =>
        cases told
        cases content
        exact (sound.nodes p _ hn).2
  · exact size

/-- A store tells the size of the content as far as a record can hold it. -/
theorem loaded_size_keyValue {store : Nat} {readOnly : Bool} (reachable : s.Reachable)
    (there : s.backends[b]? = some (.keyValue store readOnly))
    (loaded : Loaded (s.stat b p) (s.readAll b p) attr data) :
    attr.size = (Inode.recordedSize data.length.toUInt64).toUInt64 := by
  obtain ⟨F, h⟩ : s.volumes.SoundAt (.store store) :=
    reachable.inOrder.volumes.sound b _ _ there rfl
  obtain ⟨told, content⟩ | ⟨-, -, size, rfl⟩ := loaded
  · have stats := RecordTree.stat_toOption h p
    have reads := RecordTree.readAll_toOption h p
    rw [← stat_keyValue there, told] at stats
    rw [← readAll_keyValue there, content] at reads
    obtain ⟨x, hx, rfl⟩ := Option.map_eq_some_iff.1 stats.symm
    rw [hx] at reads
    cases hb : x.body with
    | directory l =>
      rw [Option.bind_some, hb] at reads
      cases reads
    | file data' =>
      rw [Option.bind_some, hb] at reads
      cases reads
      rw [Inode.size_toAttr, (h.coherent.fits p x hx).size data hb]
  · exact size

end System

/-! ## What can be told of an open file -/

namespace OpenFile

/-- What the holder of an open file can tell of it is what an array with its flags would show. -/
structure Mirrors (f : OpenFile) (b : BackendId) (p : Path) (flags : OpenFlags)
    (r : ByteFile) : Prop where
  bytes : f.data = r.bytes
  size : f.attr.size = r.size
  dirty : f.dirty = r.dirty
  closed : f.closed = r.closed
  /-- A call succeeds where the array accepts it, what is changed being offered to the backend. -/
  accepts : ∀ (s : System) c,
    (s.call f c).1.isOk = true ↔ r.Accepts flags (s.sync b p f.data f.attr).1.isOk c
  /-- A call that fails leaves the file as it is. -/
  failed : ∀ (s : System) c, (s.call f c).1.isOk = false → (s.call f c).2.1 = f
  /-- What is read are the bytes of the array. -/
  read : ∀ (s : System) offset size answer,
    (s.call f (.read offset size)).1 = .ok answer → answer = r.bytes.window offset size
  /-- What was changed can be read from the backend once it has been stored. -/
  stored : ∀ (s : System) c, s.Reachable → s.IsPlain b → c.stores = true → r.dirty = true →
    (s.call f c).1.isOk = true → (s.call f c).2.2.readAll b p = .ok r.bytes

/-- So much can be told wherever the buffer is an array. -/
theorem Tracks.mirrors {f : OpenFile} {b : BackendId} {p : Path} {flags : OpenFlags} {r : ByteFile}
    (h : f.Tracks b p flags r) : f.Mirrors b p flags r where
  bytes := h.bytes
  size := h.size
  dirty := h.dirty
  closed := h.closed
  accepts := h.accepts
  failed := fun _ _ => System.call_failed
  read := fun _ _ _ _ ok => h.bytes ▸ read_ok ok
  stored := fun _ _ reachable plain stores dirty ok =>
    h.bytes ▸ System.readAll_stored reachable plain h.owner h.path stores (h.dirty.trans dirty) ok

end OpenFile

namespace System

variable {s s' : System} {b : BackendId} {p : Path} {flags : OpenFlags} {mode : UInt32}

/-- **An open file is a byte array**: a file that a backend over a tree or over a store opens has
the content that the backend had before, or none if there was none or it is dropped. From then on
it goes with an array on which the calls that succeed act one after the other, whatever happens to
the system between them.

The size that is told is that of the array once anything has changed. Before that it is what
the backend told, which is right in every tree and in every store, up to the greatest size
that a record can hold. -/
theorem opened_file_mirrors {f : OpenFile} (plain : s.IsPlain b)
    (opened : s.openFile b p flags mode = (.ok f, s')) :
    ∃ attr data, Loaded (s.stat b p) (s.readAll b p) attr data ∧
      (∀ calls, (f.after calls).Mirrors b p flags
        ((ByteFile.opened flags attr.size data).afterAll flags (f.succeeded calls))) ∧
      (∀ calls, f.dirty = true ∨ (f.succeeded calls).any FileCall.changes = true →
        (f.after calls).attr.size = (f.after calls).data.length.toUInt64) ∧
      (s.Reachable → (∃ tree, s.backends[b]? = some (.memory tree)) ∨ data.length ≤ maxFileLength →
        ∀ calls, (f.after calls).attr.size = (f.after calls).data.length.toUInt64) ∧
      (s.Reachable → (∃ store readOnly, s.backends[b]? = some (.keyValue store readOnly)) →
        data.length < UInt64.size → attr.size.toNat = min data.length maxFileLength) := by
  obtain ⟨attr, data, now, loaded, rfl⟩ := openFile_loads plain opened
  have start := OpenFile.Tracks.load b p flags attr data now
  generalize OpenFile.load b (Utf8.encode p.spelling) flags attr data now = f at start opened ⊢
  -- Either the array is loaded with its own size, or it is empty.
  have sized (own : attr.size = data.length.toUInt64) (calls : List (System × FileCall)) :
      (f.after calls).attr.size = (f.after calls).data.length.toUInt64 := by
    have tracks := start.after calls
    rw [tracks.size, tracks.bytes]
    refine ByteFile.size_afterAll flags _ _ (.inl ?_)
    rw [ByteFile.opened]
    split
    · rfl
    · exact own
  refine ⟨attr, data, loaded, fun calls => (start.after calls).mirrors, fun calls change => ?_,
    fun reachable kept => sized ?_, ?_⟩
  · have tracks := start.after calls
    rw [tracks.size, tracks.bytes]
    refine ByteFile.size_afterAll flags _ _ (change.imp_left fun dirty => ?_)
    rw [ByteFile.opened_of_dirty (start.dirty.symm.trans dirty)]
    rfl
  · obtain ⟨tree, there⟩ | small := kept
    · exact loaded_size_memory reachable there loaded
    · obtain ⟨tree, there⟩ | ⟨store, readOnly, there⟩ := plain
      · exact loaded_size_memory reachable there loaded
      · rw [loaded_size_keyValue reachable there loaded, recordedSize_eq small]
  · rintro reachable ⟨store, readOnly, there⟩ bound
    rw [loaded_size_keyValue reachable there loaded]
    exact recordedSize_toNat bound

/-- A tree with a file. -/
def oneFile : System := ((empty .counting).addMemory.writeAll 0 (.ofText "/f") [97, 98, 99]).2

theorem oneFile_reached : oneFile.Reached [.memory 0] :=
  (Reached.empty .counting).addMemory.writeAll 0 _ _

/-- What is written past the end of a file lies behind a gap of zeros, is told with its size, and
can be read from the backend after the file has been given up. -/
theorem opened_file_mirrors_past_end :
    ∃ f s', oneFile.openFile 0 (.ofText "/f") .writing 0o644 = (.ok f, s') ∧
    (f.after [(s', .write 5 [120])]).data = [97, 98, 99, 0, 0, 120] ∧
    (f.after [(s', .write 5 [120])]).attr.size = 6 ∧
    (s'.call (f.after [(s', .write 5 [120])]) .close).2.2.readAll 0 (.ofText "/f") =
      .ok [97, 98, 99, 0, 0, 120] := by
  obtain ⟨f, opened, loaded, succeeded, closes⟩ := Except.exists_ok
    (x := (oneFile.openFile 0 (.ofText "/f") .writing 0o644).1) (P := fun f =>
      let s' := (oneFile.openFile 0 (.ofText "/f") .writing 0o644).2
      f.data = [97, 98, 99] ∧ f.succeeded [(s', .write 5 [120])] = [.write 5 [120]] ∧
      (s'.call (f.after [(s', .write 5 [120])]) .close).1.isOk = true)
    (by decide +kernel) (by decide +kernel)
  have next := oneFile_reached.openFile 0 (.ofText "/f") .writing 0o644
  have opened' : oneFile.openFile 0 (.ofText "/f") .writing 0o644 =
      (.ok f, (oneFile.openFile 0 (.ofText "/f") .writing 0o644).2) := Prod.ext opened rfl
  generalize (oneFile.openFile 0 (.ofText "/f") .writing 0o644).2 = s' at *
  obtain ⟨attr, data, -, mirrors, size, -⟩ :=
    opened_file_mirrors (.inl ⟨0, oneFile_reached.at' rfl⟩) opened'
  have start : f.data = data := (mirrors []).bytes
  cases start.symm.trans loaded
  have written := mirrors [(s', .write 5 [120])]
  have sized := size [(s', .write 5 [120])]
  rw [succeeded] at written sized
  refine ⟨f, s', opened', written.bytes, ?_, ?_⟩
  · rw [sized (.inr rfl), written.bytes]
    rfl
  · exact written.stored s' .close next.reachable (.inl ⟨0, next.at' rfl⟩) rfl rfl closes

/-- Records that were not written by any call: the inode of one file tells a wrong size, and the
content of the other is the listing of the root. -/
def strayRecords : SortedMap String Bytes :=
  let inode (contentId : String) (size : UInt32) (mode : UInt16) : Bytes :=
    ((Inode.make contentId 0 0 size mode default default default).toOption.map Inode.encode).getD []
  .ofList [("/", inode "c0" 0 0o40755), ("c0", Listing.encode (.ofList [("f", "i1"), ("g", "i2")])),
    ("i1", inode "c1" 7 0o100644), ("c1", [97, 98, 99]), ("i2", inode "c0" 0 0o100644)]

/-- Over such records a file is not told with the size of its content, and what was
stored cannot be read. -/
theorem stray_records_mislead :
    ∃ s : System, (System.empty .counting).addKeyValue (.ofRecords strayRecords) false = .ok s ∧
    s.IsPlain 0 ∧
    (∃ f, (s.openFile 0 (.ofText "/f") .reading 0o644).1 = .ok f ∧ f.data = [97, 98, 99] ∧
      f.attr.size = 7) ∧
    ∃ f, (s.openFile 0 (.ofText "/g") .writing 0o644).1 = .ok f ∧
      let (f', s') :=
  (s.openFile 0 (.ofText "/g") .writing 0o644).2.callAll f [.truncate 0, .write 0 [120]]
      f'.data = [120] ∧ f'.dirty = true ∧ (s'.call f' .sync).1.isOk = true ∧
      (s'.call f' .sync).2.2.readAll 0 (.ofText "/g") =
      .error (.malformedRecord "<listing json>") := by
  obtain ⟨s, made, ⟨opens, loaded⟩, opens', stored⟩ := Except.exists_ok
    (x := (System.empty .counting).addKeyValue (.ofRecords strayRecords) false) (P := fun s =>
      ((s.openFile 0 (.ofText "/f") .reading 0o644).1.isOk = true ∧
        ∀ f ∈ (s.openFile 0 (.ofText "/f") .reading 0o644).1.toOption,
          f.data = [97, 98, 99] ∧ f.attr.size = 7) ∧
      (s.openFile 0 (.ofText "/g") .writing 0o644).1.isOk = true ∧
      ∀ f ∈ (s.openFile 0 (.ofText "/g") .writing 0o644).1.toOption,
        let (f', s') :=
          (s.openFile 0 (.ofText "/g") .writing 0o644).2.callAll f [.truncate 0, .write 0 [120]]
        f'.data = [120] ∧ f'.dirty = true ∧ (s'.call f' .sync).1.isOk = true ∧
        (s'.call f' .sync).2.2.readAll 0 (.ofText "/g") =
        .error (.malformedRecord "<listing json>"))
    (by decide +kernel) (by decide +kernel)
  exact ⟨s, made, isPlain_addKeyValue made, Except.exists_ok opens loaded,
    Except.exists_ok opens' stored⟩

end System

end MountSpace
