import MountSpace.Proofs.FileBuffer

/-!
# Files that are not open for writing

A file that is opened without leave to write refuses every write and every truncation, so that
there is nothing to store. The exception are flags that drop the content: they do so when the file
is opened, whether or not they give leave to write, and the empty content is stored by the first
call that stores anything.

- `System.SameContent`: all volumes hold what they held.
- `Tracks.call_refused`, `Tracks.call_unwriteable`: what calls do to a file without leave to write.
- `call_same`, `callAll_same`: where there is nothing to store, no call changes
  what the volumes hold.
- `callAll_stores`: what there is to store is stored by the first call that does so.
- `unwriteable_file_effect`: when such a file changes its backend, and what is left then.
-/

namespace MountSpace

/-- The backends are the same, and so is all that they hold. The clock may have been read. -/
structure System.SameContent (s s' : System) : Prop where
  backends : s'.backends = s.backends
  trees : s'.volumes.trees = s.volumes.trees
  stores : s'.volumes.stores = s.volumes.stores
  tables : s'.volumes.tables = s.volumes.tables

namespace System.SameContent

variable {s s' s'' : System} {b : BackendId} {p : Path}

theorem refl (s : System) : s.SameContent s := ⟨rfl, rfl, rfl, rfl⟩

theorem trans (h : s.SameContent s') (h' : s'.SameContent s'') : s.SameContent s'' :=
  ⟨h'.backends.trans h.backends, h'.trees.trans h.trees, h'.stores.trans h.stores,
    h'.tables.trans h.tables⟩

theorem isPlain (h : s.SameContent s') (plain : s.IsPlain b) : s'.IsPlain b := by
  rw [IsPlain, h.backends]
  exact plain

theorem readAll (h : s.SameContent s') (plain : s.IsPlain b) : s'.readAll b p = s.readAll b p := by
  obtain ⟨tree, there⟩ | ⟨store, readOnly, there⟩ := plain
  · rw [readAll_memory there, readAll_memory (h.backends ▸ there), h.trees]
  · rw [readAll_keyValue there, readAll_keyValue (h.backends ▸ there), h.stores]

end System.SameContent

/-! ## One call -/

namespace OpenFile.Tracks

variable {f : OpenFile} {b : BackendId} {p : Path} {flags : OpenFlags} {r : ByteFile}
variable (h : f.Tracks b p flags r) (unwriteable : flags.isWriteable = false)
include h unwriteable

/-- Without leave to write only calls that store something make a difference. -/
theorem call_refused (s : System) {c : FileCall} (keeps : c.stores = false) :
    (s.call f c).2.1 = f := by
  have refused (accepted : r.Accepts flags (s.sync b p f.data f.attr).1.isOk c →
    flags.isWriteable = true) :
      (s.call f c).2.1 = f :=
    System.call_failed (Bool.eq_false_iff.2 fun ok =>
      Bool.false_ne_true (unwriteable.symm.trans (accepted ((h.accepts s c).1 ok))))
  cases c with
  | read offset size => rfl
  | write offset new => exact refused fun accepted => accepted.2.1
  | truncate size => exact refused fun accepted => accepted.2.1
  | sync => cases keeps
  | close => cases keeps

/-- Without leave to write a file stays clean. -/
theorem call_unwriteable (s : System) (c : FileCall) : ∃ r', (s.call f c).2.1.Tracks b p flags r' ∧
    (r.dirty = false ∨ c.stores = true ∧ (s.call f c).1.isOk = true → r'.dirty = false) := by
  by_cases ok : (s.call f c).1.isOk = true
  · cases hc : c.stores with
    | true =>
      refine ⟨_, h.call ok, fun _ => ?_⟩
      obtain rfl | rfl := FileCall.sync_or_close hc <;> rfl
    | false =>
      rw [h.call_refused unwriteable s hc]
      exact ⟨r, h, fun clean => clean.resolve_right fun no => Bool.false_ne_true no.1⟩
  · rw [System.call_failed (Bool.eq_false_iff.2 ok)]
    exact ⟨r, h, fun clean => clean.resolve_right fun no => ok no.2⟩

end OpenFile.Tracks

namespace System

variable {s s' : System} {f : OpenFile} {b : BackendId} {p : Path} {flags : OpenFlags}
  {mode : UInt32}
variable {r : ByteFile}

theorem Reachable.call (reachable : s.Reachable) (f : OpenFile) (c : FileCall) :
    (s.call f c).2.2.Reachable := by
  cases c with
  | read offset size => exact reachable
  | write offset new => exact reachable.step (.write s f offset new)
  | truncate size => exact reachable.step (.truncate s f size)
  | sync => exact reachable.step (.syncFile s f)
  | close => exact reachable.step (.closeFile s f)

/-- A call that does not store the buffer keeps what the volumes hold. So does one that does if the
buffer has not changed, or if the backend may not be changed. -/
theorem call_same (h : f.Tracks b p flags r) {c : FileCall}
    (idle : c.stores = false ∨ r.dirty = false ∨ s.IsSealed b) :
    s.SameContent (s.call f c).2.2 := by
  by_cases hc : c.stores = true
  · rw [(s.call_stores f hc).2, syncFile_eq, h.dirty, h.owner]
    split
    · exact .refl s
    split
    next dirty =>
      obtain keeps | clean | ⟨store, there⟩ := idle
      · exact absurd hc (Bool.eq_false_iff.1 keeps)
      · exact absurd dirty (Bool.eq_false_iff.1 clean)
      · rw [sync, fileSystems, fileSystem_keyValue there]
        exact .refl s
    · exact .refl s
  · obtain same | same := s.call_keeps f (Bool.eq_false_iff.2 hc)
    · rw [same]
      exact .refl s
    · rw [same]
      exact ⟨rfl, rfl, rfl, rfl⟩

/-! ## Any number of calls -/

/-- A file without leave to write that is clean, or is never stored, or belongs to a backend that
may not be changed, keeps what the volumes hold. -/
theorem callAll_same (h : f.Tracks b p flags r) (unwriteable : flags.isWriteable = false)
    {calls : List FileCall}
    (idle : calls.any FileCall.stores = false ∨ r.dirty = false ∨ s.IsSealed b) :
    s.SameContent (s.callAll f calls).2 := by
  induction calls generalizing s f r with
  | nil => exact .refl s
  | cons c calls ih =>
    obtain ⟨r', h', clean⟩ := h.call_unwriteable unwriteable s c
    have same : s.SameContent (s.call f c).2.2 := call_same h (idle.imp_left fun unstored => by
      rw [List.any_cons, Bool.or_eq_false_iff] at unstored
      exact unstored.1)
    refine same.trans (ih h' ?_)
    obtain unstored | kept | ⟨store, there⟩ := idle
    · rw [List.any_cons, Bool.or_eq_false_iff] at unstored
      exact .inl unstored.2
    · exact .inr (.inl (clean (.inl kept)))
    · exact .inr (.inr ⟨store, same.backends ▸ there⟩)

/-- The first call that stores the buffer of a changed file does store it, and no later one makes a
difference. -/
theorem callAll_stores (h : f.Tracks b p flags r) (unwriteable : flags.isWriteable = false)
    (reachable : s.Reachable) (plain : s.IsPlain b) (unsealed : ¬s.IsSealed b) {old : Bytes}
    (there : s.readAll b p = .ok old) (isOpen : r.closed = false) (dirty : r.dirty = true)
    {calls : List FileCall} (stores : calls.any FileCall.stores = true) :
    (s.callAll f calls).2.readAll b p = .ok f.data := by
  induction calls generalizing s with
  | nil => cases stores
  | cons c calls ih =>
    show ((s.call f c).2.2.callAll (s.call f c).2.1 calls).2.readAll b p = _
    by_cases hc : c.stores = true
    · have taken : (s.sync b p f.data f.attr).1.isOk = true :=
        sync_isOk reachable plain unsealed there
      have ok : (s.call f c).1.isOk = true := by
        rw [h.accepts]
        obtain rfl | rfl := FileCall.sync_or_close hc <;> exact ⟨isOpen, fun _ => taken⟩
      obtain ⟨r', h', clean⟩ := h.call_unwriteable unwriteable s c
      have stored := readAll_stored reachable plain h.owner h.path hc (h.dirty.trans dirty) ok
      have plain' : (s.call f c).2.2.IsPlain b := by
        cases c <;> exact plain
      rw [(callAll_same h' unwriteable (.inr (.inl (clean (.inr ⟨hc, ok⟩))))).readAll plain',
        stored]
    · have keeps := Bool.eq_false_iff.2 hc
      have same := call_same h (s := s) (.inl keeps)
      rw [List.any_cons, keeps, Bool.false_or] at stores
      rw [h.call_refused unwriteable s keeps]
      refine ih (reachable.call f c) (same.isPlain plain)
        (fun ⟨store, k⟩ => unsealed ⟨store, ?_⟩) ?_ stores
      · rw [← same.backends]
        exact k
      · rw [same.readAll plain, there]

/-- A file has changed as soon as it is opened if its content is dropped and there was any. -/
theorem opened_dirty_iff (plain : s.IsPlain b) (opened : s.openFile b p flags mode = (.ok f, s')) :
    f.dirty = true ↔ flags.truncate = true ∧ ∃ data, s.readAll b p = .ok data ∧ data ≠ [] := by
  obtain ⟨attr, data, now, loaded, rfl⟩ := openFile_loads plain opened
  rw [(OpenFile.Tracks.load b p flags attr data now).dirty, ByteFile.dirty_opened, Bool.and_eq_true,
    Bool.not_eq_true', List.isEmpty_eq_false_iff]
  refine and_congr_right fun _ => ?_
  obtain ⟨-, content⟩ | ⟨-, unread, -, rfl⟩ := loaded
  · rw [content]
    exact ⟨fun full => ⟨data, rfl, full⟩, fun ⟨_, same, full⟩ => Except.ok.inj same ▸ full⟩
  · refine ⟨fun full => absurd rfl full, fun ⟨data, content, _⟩ => ?_⟩
    rw [content] at unread
    cases unread

/-- **A file that is not open for writing**, in a backend over a tree or over a store: there is
something to store just if its flags dropped content. If they did not, no call about the file
changes what the backend holds. If they did, the backend keeps the content until the first call that
stores the file, and from then on the file is empty there, unless the backend may not be changed. -/
theorem unwriteable_file_effect (plain : s.IsPlain b) (unwriteable : flags.isWriteable = false)
    (opened : s.openFile b p flags mode = (.ok f, s')) :
    (f.dirty = true ↔ flags.truncate = true ∧ ∃ data, s.readAll b p = .ok data ∧ data ≠ []) ∧
    (∀ calls, calls.any FileCall.stores = false ∨ f.dirty = false ∨ s.IsSealed b →
      s'.SameContent (s'.callAll f calls).2) ∧
    (s.Reachable → f.dirty = true → ¬s.IsSealed b → ∃ data, s'.readAll b p = .ok data ∧ data ≠ [] ∧
      ∀ calls, calls.any FileCall.stores = true → (s'.callAll f calls).2.readAll b p = .ok []) := by
  have after : s' = (s.openFile b p flags mode).2 := by rw [opened]
  have backends : s'.backends = s.backends := after ▸ rfl
  refine ⟨opened_dirty_iff plain opened, fun calls idle => ?_, fun reachable dirty unsealed => ?_⟩
  · obtain ⟨attr, data, now, -, rfl⟩ := openFile_loads plain opened
    have h := OpenFile.Tracks.load b p flags attr data now
    refine callAll_same h unwriteable ?_
    rw [← h.dirty, IsSealed, backends]
    exact idle
  · obtain ⟨attr, data, now, there, rfl⟩ := openFile_reads reachable plain opened
    have h := OpenFile.Tracks.load b p flags attr data now
    have dropped := h.dirty.symm.trans dirty
    rw [ByteFile.opened_of_dirty dropped] at h
    rw [ByteFile.dirty_opened, Bool.and_eq_true, Bool.not_eq_true',
      List.isEmpty_eq_false_iff] at dropped
    refine ⟨data, there, dropped.2, fun calls stores => ?_⟩
    have stored :=
      callAll_stores h unwriteable (after ▸ reachable.step (.openFile s b p flags mode))
      (by rwa [IsPlain, backends]) (by rwa [IsSealed, backends]) there rfl rfl stores
    rwa [h.bytes] at stored

/-- A file that is opened to be read keeps its tree as it is, whatever is called for. One whose
content is dropped without leave to write keeps it only until it is stored. -/
theorem unwriteable_file_effect_oneFile :
    (∃ f s', oneFile.openFile 0 (.ofText "/f") .reading 0o644 = (.ok f, s') ∧
      ∀ calls, s'.SameContent (s'.callAll f calls).2) ∧
    ∃ f s', oneFile.openFile 0 (.ofText "/f") { truncate := true } 0o644 = (.ok f, s') ∧
      s'.SameContent (s'.callAll f [.write 0 [120], .truncate 1]).2 ∧
      (s'.callAll f [.write 0 [120], .sync, .close]).2.readAll 0 (.ofText "/f") = .ok [] := by
  have plain : oneFile.IsPlain 0 := .inl ⟨0, oneFile_reached.at' rfl⟩
  have unsealed : ¬oneFile.IsSealed 0 := fun ⟨store, there⟩ => by
    cases there.symm.trans (oneFile_reached.at' (b := 0) rfl)
  have opens (flags : OpenFlags) (dirty : Bool)
      (ok : (oneFile.openFile 0 (.ofText "/f") flags 0o644).1.isOk = true)
      (all : ∀ f ∈ (oneFile.openFile 0 (.ofText "/f") flags 0o644).1.toOption, f.dirty = dirty) :
      ∃ f s', oneFile.openFile 0 (.ofText "/f") flags 0o644 = (.ok f, s') ∧ f.dirty = dirty := by
    obtain ⟨f, opened, hd⟩ := Except.exists_ok ok all
    exact ⟨f, _, Prod.ext opened rfl, hd⟩
  constructor
  · obtain ⟨f, s', opened, clean⟩ := opens .reading false (by decide +kernel) (by decide +kernel)
    obtain ⟨-, same, -⟩ := unwriteable_file_effect plain rfl opened
    exact ⟨f, s', opened, fun calls => same calls (.inr (.inl clean))⟩
  · obtain ⟨f, s', opened, dirty⟩ := opens { truncate := true } true (by decide +kernel)
      (by decide +kernel)
    obtain ⟨-, same, stored⟩ := unwriteable_file_effect plain rfl opened
    obtain ⟨data, -, -, empties⟩ := stored oneFile_reached.reachable dirty unsealed
    exact ⟨f, s', opened, same _ (.inl rfl), empties _ rfl⟩

/-- Without leave to write, a file of a tree is emptied by being opened and given up. -/
theorem unwriteable_file_emptied :
    oneFile.Reachable ∧ oneFile.IsPlain 0 ∧ OpenFlags.isWriteable { truncate := true } = false ∧
    ∃ f s', oneFile.openFile 0 (.ofText "/f") { truncate := true } 0o644 = (.ok f, s') ∧
      s'.readAll 0 (.ofText "/f") = .ok [97, 98, 99] ∧
      (s'.callAll f [.close]).2.readAll 0 (.ofText "/f") = .ok [] := by
  obtain ⟨f, opened, there, emptied⟩ := Except.exists_ok
    (x := (oneFile.openFile 0 (.ofText "/f") { truncate := true } 0o644).1) (P := fun f =>
      let s' := (oneFile.openFile 0 (.ofText "/f") { truncate := true } 0o644).2
      s'.readAll 0 (.ofText "/f") = .ok [97, 98, 99] ∧
      (s'.callAll f [.close]).2.readAll 0 (.ofText "/f") = .ok [])
    (by decide +kernel) (by decide +kernel)
  exact ⟨oneFile_reached.reachable, .inl ⟨0, oneFile_reached.at' rfl⟩, rfl, f, _,
    Prod.ext opened rfl, there, emptied⟩

end System

end MountSpace
