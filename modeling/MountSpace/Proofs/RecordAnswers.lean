import MountSpace.Proofs.RecordTree

/-!
# What a store of records answers

- `RecordStore.space`: what a store looks like from outside, found by looking up each path.
- `RecordStore.Sound`: the store represents some tree of slots.
- `stat_answer`, `readAll_answer`, `readdir_answer`: inquiries.
- `RecordTree.change`, `change_performs`: all changes.
- `openFile_performs`: opening a file.
-/

namespace MountSpace

/-- A record holds a size up to its greatest one. -/
theorem recordedSize_toNat {n : Nat} (h : n < UInt64.size) :
    (Inode.recordedSize n.toUInt64).toUInt64.toNat = min n maxFileLength := by
  have bound : maxFileLength = 4294967295 := rfl
  rw [UInt32.toNat_toUInt64, Inode.recordedSize, Nat.toUInt64_eq, UInt64.toNat_ofNat',
    Nat.mod_eq_of_lt h]
  show (min n maxFileLength).toUInt32.toNat = min n maxFileLength
  rw [Nat.toUInt32_eq, UInt32.toNat_ofNat']
  exact Nat.mod_eq_of_lt (by omega)

/-- A size that a record can hold is recorded exactly. -/
theorem recordedSize_eq {n : Nat} (h : n ≤ maxFileLength) :
    (Inode.recordedSize n.toUInt64).toUInt64 = n.toUInt64 := by
  have small : n < UInt64.size := Nat.lt_of_le_of_lt h (by decide)
  apply UInt64.toNat_inj.1
  rw [recordedSize_toNat small, Nat.min_eq_left h, Nat.toUInt64_eq, UInt64.toNat_ofNat',
    Nat.mod_eq_of_lt small]

/-- Attributes of a fitting inode tell what its slot is. -/
theorem Slot.Fits.shows {x : Slot} (h : x.Fits) : x.entry.Shows x.inode.toAttr := by
  refine ⟨?_, ?_, fun data hd bound => ?_⟩
  · rw [Inode.kind_toAttr, h.kind, Slot.kind_entry]
  · rw [Inode.perm_toAttr, Inode.perm_masked, Slot.entry]
    cases x.body <;> rfl
  · rw [Slot.entry] at hd
    split at hd
    next data' hb =>
      cases hd
      rw [Inode.size_toAttr, h.size data hb, recordedSize_eq bound]
    next => cases hd

namespace RecordStore

/-- What a store looks like from outside. -/
def space (s : RecordStore) : Space := fun p =>
  match s.lookup p with
  | .error _ => none
  | .ok (_, i) =>
    if i.isDir then some (.directory i.perm)
    else
      match s.content i with
      | .error _ => none
      | .ok data => some (.file i.perm data)

/-- The store represents some tree of slots. -/
def Sound (s : RecordStore) : Prop := ∃ F, s.Represents F

variable {s : RecordStore} {F : Slots}

/-- A store that represents slots looks like them. -/
theorem Represents.space_eq (h : s.Represents F) : s.space = F.space := by
  funext p
  rw [space]
  cases hx : F p with
  | none =>
    obtain ⟨e, he, -⟩ := lookup_none h.coherent h.rooted h.holds hx
    rw [he, Slots.space_none hx]
  | some x =>
    rw [lookup_some h.coherent h.rooted h.holds hx, Slots.space_some hx, Slot.entry]
    cases hb : x.body with
    | file data =>
      simp only [(h.coherent.fits p x hx).isDir_of_file hb, Bool.false_eq_true, if_false,
        h.holds.content hx, hb]
      rfl
    | directory l => simp only [(h.coherent.fits p x hx).isDir_of_directory hb, if_true]

theorem Sound.tree (h : s.Sound) : s.space.IsTree := by
  obtain ⟨F, hF⟩ := h
  rw [hF.space_eq]
  exact hF.tree

/-- Soundness and looks depend on the records alone. -/
theorem Sound.of_records {s' : RecordStore} (h : s.Sound) (same : s'.records = s.records) :
    s'.Sound ∧ s'.space = s.space := by
  obtain ⟨F, hF⟩ := h
  have hF' := hF.of_records same
  exact ⟨⟨F, hF'⟩, hF'.space_eq.trans hF.space_eq.symm⟩

end RecordStore

namespace RecordTree

open StoreAction Transaction

variable {s : RecordStore} {F : Slots} {t : Transaction}

/-! ## Inquiries -/

theorem stat_toOption (h : s.Represents F) (p : Path) :
    (stat s p).toOption = (F p).map fun x => x.inode.toAttr := by
  rw [stat]
  cases hx : F p with
  | none =>
    obtain ⟨e, he, -⟩ := RecordStore.lookup_none h.coherent h.rooted h.holds hx
    rw [he]
    rfl
  | some x =>
    rw [RecordStore.lookup_some h.coherent h.rooted h.holds hx]
    rfl

theorem readAll_toOption (h : s.Represents F) (p : Path) :
    (readAll s p).toOption = (F p).bind fun x => x.body.content? := by
  rw [readAll]
  cases hx : F p with
  | none =>
    obtain ⟨e, he, -⟩ := RecordStore.lookup_none h.coherent h.rooted h.holds hx
    rw [he]
    rfl
  | some x =>
    rw [RecordStore.lookup_some h.coherent h.rooted h.holds hx]
    simp only [Except.ok_bind, Option.bind_some]
    cases hb : x.body with
    | directory l =>
      rw [(h.coherent.fits p x hx).isDir_of_directory hb]
      rfl
    | file data =>
      rw [(h.coherent.fits p x hx).isDir_of_file hb, h.holds.content hx, hb]
      rfl

theorem stat_answer (h : s.Represents F) (p : Path) : F.space.Stats p (stat s p) := by
  rw [stat]
  cases hx : F p with
  | none =>
    obtain ⟨e, he, -⟩ := RecordStore.lookup_none h.coherent h.rooted h.holds hx
    rw [he]
    exact Slots.space_none hx
  | some x =>
    rw [RecordStore.lookup_some h.coherent h.rooted h.holds hx]
    exact ⟨x.entry, Slots.space_some hx, (h.coherent.fits p x hx).shows⟩

theorem readAll_answer (h : s.Represents F) (p : Path) : F.space.Reads p (readAll s p) := by
  rw [readAll]
  cases hx : F p with
  | none =>
    obtain ⟨e, he, -⟩ := RecordStore.lookup_none h.coherent h.rooted h.holds hx
    rw [he]
    exact fun file => file.ne_none (Slots.space_none hx)
  | some x =>
    rw [RecordStore.lookup_some h.coherent h.rooted h.holds hx]
    simp only [Except.ok_bind]
    cases hb : x.body with
    | directory l =>
      rw [(h.coherent.fits p x hx).isDir_of_directory hb]
      exact fun file => file.not_isDirectory (Slots.isDirectory_iff.2 ⟨l, x, hx, hb⟩)
    | file data =>
      rw [(h.coherent.fits p x hx).isDir_of_file hb, h.holds.content hx, hb]
      exact ⟨_, by rw [Slots.space_some hx, Slot.entry_file hb]; rfl⟩

/-- The line that a listing shows of a name and an id. -/
def line (s : RecordStore) (e : String × String) : DirEntry :=
  match s.inode e.2 with
  | .ok i => ⟨e.1, i.kind⟩
  | .error _ => ⟨e.1, .file⟩

theorem mapM_line : ∀ l : List (String × String), (∀ e ∈ l, entry s e = .ok (line s e)) →
    l.mapM (entry s) = .ok (l.map (line s))
  | [], _ => rfl
  | e :: l, h => by
    rw [List.mapM_cons, h e List.mem_cons_self, mapM_line l fun d hd =>
      h d (List.mem_cons_of_mem e hd)]
    rfl

theorem readdir_answer (h : s.Represents F) (p : Path) : F.space.Enumerates p (readdir s p) := by
  rw [readdir]
  rcases h.directory_cases p with ⟨x, l, hx, hl, found⟩ | ⟨notDir, e, he⟩
  case inr =>
    rw [he]
    exact notDir
  have listed := h.coherent.listed p l ⟨x, hx, hl⟩
  -- Every line stands for an entry, with a name that can be a step of a path.
  have lines : ∀ e ∈ l.toList, ∃ (n : Segment) (y : Slot), e = (n.text, y.id) ∧
      F (p.child n) = some y ∧ entry s e = .ok ⟨n.text, y.body.kind⟩ := by
    rintro ⟨name, id⟩ he
    have hn := SortedMap.get?_eq_some_iff.2 he
    let n : Segment :=
      ⟨name, h.coherent.named p l ⟨x, hx, hl⟩ name (by rw [hn]; exact Option.some_ne_none id)⟩
    have key := (listed n).symm.trans hn
    obtain ⟨y, hy, rfl⟩ := Slots.exists_of_key key
    refine ⟨n, y, rfl, hy, ?_⟩
    rw [entry, show s.inode (y.key .inode) = _ from h.holds.inode hy,
      ← (h.coherent.fits _ y hy).kind]
    rfl
  have shown : ∀ e ∈ l.toList, entry s e = .ok (line s e) := by
    intro e he
    obtain ⟨n, y, rfl, hy, found⟩ := lines e he
    rw [found, line, h.holds.inode hy, ← (h.coherent.fits _ y hy).kind]
  rw [found]
  show F.space.Enumerates p (l.toList.mapM (entry s))
  rw [mapM_line l.toList shown]
  refine ⟨Slots.isDirectory_iff.2 ⟨l, x, hx, hl⟩, List.pairwise_map.2 ?_, fun d => ?_⟩
  · refine l.ascending.imp fun {a b} lt => ?_
    have name : ∀ e, (line s e).name = e.1 := fun e => by
      rw [line]
      cases s.inode e.2 <;> rfl
    rwa [name, name]
  · rw [List.mem_map]
    constructor
    · rintro ⟨e, he, rfl⟩
      obtain ⟨n, y, rfl, hy, found⟩ := lines e he
      refine ⟨n, y.entry, Slots.space_some hy, ?_⟩
      rw [Slot.kind_entry]
      exact Except.ok.inj ((shown _ he).symm.trans found)
    · rintro ⟨n, e, he, rfl⟩
      obtain ⟨y, hy, rfl⟩ := Option.map_eq_some_iff.1 he
      have mem : (n.text, y.id) ∈ l.toList :=
        SortedMap.get?_eq_some_iff.1 ((listed n).trans (Slots.key_some hy .inode))
      refine ⟨_, mem, ?_⟩
      rw [line, h.holds.inode hy, Slot.kind_entry, ← (h.coherent.fits _ y hy).kind]

/-- A listing fails as the inquiry does, or finds a file. -/
theorem readdir_error (h : s.Represents F) {p : Path} {e : FsError}
    (failed : readdir s p = .error e) :
    stat s p = .error e ∨ (stat s p).isOk = true ∧ e.isNotFound = false := by
  have notDirectory := readdir_answer h p
  rw [failed] at notDirectory
  rw [readdir, RecordStore.directory] at failed
  rw [stat]
  cases hx : F p with
  | none =>
    obtain ⟨e', he, -⟩ := RecordStore.lookup_none h.coherent h.rooted h.holds hx
    rw [he] at failed ⊢
    cases failed
    exact .inl rfl
  | some x =>
    rw [RecordStore.lookup_some h.coherent h.rooted h.holds hx] at failed ⊢
    cases hb : x.body with
    | directory l => exact absurd (Slots.isDirectory_iff.2 ⟨l, x, hx, hb⟩) notDirectory
    | file data =>
      simp only [Except.ok_bind, (h.coherent.fits p x hx).isDir_of_file hb] at failed
      cases failed
      exact .inr ⟨rfl, rfl⟩

/-! ## All changes, and opening a file -/

/-- A change of a store. -/
def change : Change → StoreAction Unit
  | .mkdir p mode => mkdir p mode
  | .unlink p => remove p .file
  | .rmdir p => remove p .directory
  | .rename source target => rename source target
  | .sync p data attr => sync p data attr

/-- A change takes place when it may happen. One that fails leaves all records alone. -/
theorem change_performs (h : t.store.Represents F) (c : Change) :
    Performs F c t ((change c).runOn t) := by
  cases c with
  | mkdir p mode => exact mkdir_performs h p mode
  | unlink p => exact remove_performs h p .file
  | rmdir p => exact remove_performs h p .directory
  | rename source target => exact rename_performs h source target
  | sync p data attr => exact sync_performs h p data attr

/-- What came of opening a file. -/
def PerformsOpen (F : Slots) (p : Path) (flags : OpenFlags) (mode : UInt32) (t : Transaction) :
    Except FsError (FileAttr × Bytes) × Transaction → Prop
  | (.ok (attr, data), t') => F.space.Opens p flags ∧ t.Extends t' ∧
      (∃ F', t'.store.Represents F' ∧ F'.space = F.space.opened p mode) ∧
      ∃ perm, F.space.opened p mode p = some (.file perm data) ∧ (Entry.file perm data).Shows attr
  | (.error _, t') => t.Idle t' ∧ (t.Fresh t'.ambient.draws → ¬F.space.Opens p flags)

/-- A file is opened when it can be. One that cannot leaves all records alone. -/
theorem openFile_performs (h : t.store.Represents F) (p : Path) (flags : OpenFlags)
    (mode : UInt32) : PerformsOpen F p flags mode t ((openFile p flags mode).runOn t) := by
  unfold openFile
  rw [Action.runOn_get_bind]
  cases hx : F p with
  | some x =>
    have taken : F.space p ≠ none := by rw [Slots.space_some hx]; exact Option.some_ne_none _
    rw [RecordStore.lookup_some h.coherent h.rooted h.holds hx]
    dsimp only
    -- What is there is opened if it is a file and the caller did not ask for a new one.
    by_cases new : (flags.create && flags.exclusive) = true
    · rw [if_pos new]
      refine ⟨.refl t, fun _ opens => ?_⟩
      rcases opens with ⟨-, old⟩ | ⟨free, -⟩
      · exact old (Bool.and_eq_true_iff.1 new)
      · exact taken free.1
    rw [if_neg new]
    cases hb : x.body with
    | directory l =>
      rw [(h.coherent.fits p x hx).isDir_of_directory hb]
      refine ⟨.refl t, fun _ opens => ?_⟩
      rcases opens with ⟨file, -⟩ | ⟨free, -⟩
      · exact file.not_isDirectory (Slots.isDirectory_iff.2 ⟨l, x, hx, hb⟩)
      · exact taken free.1
    | file data =>
      simp only [(h.coherent.fits p x hx).isDir_of_file hb, Bool.false_eq_true, if_false,
        runOn_ask_bind, h.holds.content hx, hb]
      have shows := (h.coherent.fits p x hx).shows
      have found := Slots.space_some hx
      rw [Slot.entry_file hb] at shows found
      rw [← Space.opened_taken taken mode] at found
      exact ⟨.inl ⟨Slots.isFile_iff.2 ⟨x, data, hx, hb⟩, fun k => new (Bool.and_eq_true_iff.2 k)⟩,
        .refl t, ⟨F, h, (Space.opened_taken taken mode).symm⟩, _, found, shows⟩
  | none =>
    have absent : F.space p = none := Slots.space_none hx
    obtain ⟨e, he, notFound⟩ := RecordStore.lookup_none h.coherent h.rooted h.holds hx
    rw [he]
    dsimp only
    -- What is not there is created if the caller wants that and a directory is there to hold it.
    have free : F.space.Opens p flags → F.space.IsFree p ∧ flags.create = true := by
      rintro (⟨file, -⟩ | free)
      · exact absurd absent file.ne_none
      · exact free
    by_cases create : (e.isNotFound && flags.create) = true
    case neg =>
      rw [if_neg create]
      refine ⟨.refl t, fun _ opens => create ?_⟩
      rw [notFound (Slots.isDirectory_iff.1 (free opens).1.2), (free opens).2]
      rfl
    rw [if_pos create, Action.runOn_bind]
    obtain ⟨t', ⟨y, hr, new, isFree, extended, F', hF, space, -⟩ | ⟨e, hr, idle, taken⟩⟩ :=
      runOn_addEntry h p (.file []) (.inl rfl) mode
    · rw [show (addEntry p .file mode []).runOn t = _ from hr]
      have shown : y.entry = .file (mode &&& permMask) [] := by
        rw [Slot.entry_file new.body, new.perm]
      have opened : F.space.opened p mode = F.space.put p y.entry := by
        rw [Space.opened_free absent, shown]
      refine ⟨.inr ⟨isFree, (Bool.and_eq_true_iff.1 create).2⟩, extended,
        ⟨F', hF, space.trans opened.symm⟩, mode &&& permMask, ?_, ?_⟩
      · rw [opened, Space.put_self, shown]
      · rw [← shown]
        exact new.fits.shows
    · rw [show (addEntry p .file mode []).runOn t = _ from hr]
      exact ⟨idle, fun fresh opens => taken fresh (free opens).1⟩

end RecordTree

end MountSpace
