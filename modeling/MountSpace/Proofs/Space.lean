import MountSpace.OpenFile
import MountSpace.Proofs.Path
import MountSpace.Proofs.SortedMap

/-!
# What a directory tree looks like from outside

A `Space` says what stands at every path, and nothing about how it is kept. Both kinds of tree are
measured against it.

- `Entry`, `Space`: a file with its bytes, or a directory, with the permission bits of either.
- `Space.IsTree`: the root is a directory, and so is what stands above an entry.
- `Change`, `Space.Allows`, `Space.after`: the changes, when they may happen and what they leave.
- `Space.Opens`, `Space.opened`: the same for opening a file, which may create it.
- `Space.Stats`, `Space.Reads`, `Space.Enumerates`: an answer is the right one. Only one listing
  shows the entries of a directory (`Space.Lists.unique`).
- `IsTree.after`, `IsTree.opened`: a change that may happen leaves a tree.
-/

namespace MountSpace

/-- What stands at a path, as far as a caller can tell. -/
inductive Entry where
  | file (perm : UInt32) (data : Bytes)
  | directory (perm : UInt32)
  deriving DecidableEq

namespace Entry

def kind : Entry → FileKind
  | file _ _ => .file
  | directory _ => .directory

/-- The permission bits. -/
def perm : Entry → UInt32
  | file perm _ => perm
  | directory perm => perm

/-- The bytes of a file. -/
def data? : Entry → Option Bytes
  | file _ data => some data
  | directory _ => none

/-- Attributes tell the kind, the permission bits and the size of what stands there. -/
structure Shows (e : Entry) (a : FileAttr) : Prop where
  kind : a.kind = e.kind
  perm : a.perm &&& permMask = e.perm
  /-- A size that can be recorded is told exactly. -/
  size : ∀ data, e.data? = some data → data.length ≤ maxFileLength → a.size = data.length.toUInt64

end Entry

/-- What stands at each path. -/
abbrev Space := Path → Option Entry

/-- A change of a tree that a caller can ask for. -/
inductive Change where
  | mkdir (p : Path) (mode : UInt32)
  | unlink (p : Path)
  | rmdir (p : Path)
  | rename (source target : Path)
  /-- Stores content and attributes of a file. -/
  | sync (p : Path) (data : Bytes) (attr : FileAttr)

namespace Space

variable (S : Space)

def IsDirectory (p : Path) : Prop := ∃ perm, S p = some (.directory perm)

def IsFile (p : Path) : Prop := ∃ perm data, S p = some (.file perm data)

def HasEntries (p : Path) : Prop := ∃ s : Segment, S (p.child s) ≠ none

/-- Nothing stands at the path, and something may be created there. -/
def IsFree (p : Path) : Prop := S p = none ∧ S.IsDirectory p.parent

/-- The root is a directory, and above every entry stands a directory. -/
structure IsTree : Prop where
  root : S.IsDirectory .root
  parent : ∀ (p : Path) (s : Segment), S (p.child s) ≠ none → S.IsDirectory p

/-! ## Changes -/

def put (p : Path) (e : Entry) : Space := fun q => if q = p then some e else S q

def remove (p : Path) : Space := fun q => if q = p then none else S q

/-- The space after what stands at and below one path has moved to another. -/
def relocate (source target : Path) : Space := fun q =>
  if target.isPrefixOf q then S (source ++ q.relativeTo target)
  else if source.isPrefixOf q then none
  else S q

/-- An entry of a kind may take the place of what a path holds: nothing, or an entry of its kind
that has no entries itself. -/
def Replaceable (p : Path) (kind : FileKind) : Prop :=
  ∀ e, S p = some e → e.kind = kind ∧ ¬S.HasEntries p

/-- The entry at a path may move to another one. -/
def Movable (source target : Path) : Prop :=
  source ≠ .root ∧ ∃ e, S source = some e ∧
    (source = target ∨
      ¬source.isPrefixOf target = true ∧ S.IsDirectory target.parent ∧ S.Replaceable target e.kind)

/-- A change may happen. -/
def Allows : Change → Prop
  | .mkdir p _ => S.IsFree p
  | .unlink p => S.IsFile p
  | .rmdir p => p ≠ .root ∧ S.IsDirectory p ∧ ¬S.HasEntries p
  | .rename source target => S.Movable source target
  | .sync p _ _ => S.IsFile p

/-- What a change leaves. -/
def after : Change → Space
  | .mkdir p mode => S.put p (.directory (mode &&& permMask))
  | .unlink p => S.remove p
  | .rmdir p => S.remove p
  | .rename source target => S.relocate source target
  | .sync p data attr => S.put p (.file (attr.perm &&& permMask) data)

/-- A file can be opened: it is there and need not be new, or it may be created. -/
def Opens (p : Path) (flags : OpenFlags) : Prop :=
  S.IsFile p ∧ ¬(flags.create = true ∧ flags.exclusive = true) ∨
    S.IsFree p ∧ flags.create = true

/-- What opening a file leaves: an empty one where there was none. -/
def opened (p : Path) (mode : UInt32) : Space :=
  if S p = none then S.put p (.file (mode &&& permMask) []) else S

/-! ## Answers -/

/-- A listing shows the entries of a directory, ascending by name. -/
structure Lists (p : Path) (entries : List DirEntry) : Prop where
  ascending : entries.Pairwise (·.name < ·.name)
  mem : ∀ d, d ∈ entries ↔
    ∃ (s : Segment) (e : Entry), S (p.child s) = some e ∧ d = ⟨s.text, e.kind⟩

/-- The answer to an inquiry is that of the space. -/
def Stats (p : Path) : Except FsError FileAttr → Prop
  | .ok a => ∃ e, S p = some e ∧ e.Shows a
  | .error _ => S p = none

/-- What was read of a file is that of the space. -/
def Reads (p : Path) : Except FsError Bytes → Prop
  | .ok data => ∃ perm, S p = some (.file perm data)
  | .error _ => ¬S.IsFile p

/-- What was listed of a directory is that of the space. -/
def Enumerates (p : Path) : Except FsError (List DirEntry) → Prop
  | .ok entries => S.IsDirectory p ∧ S.Lists p entries
  | .error _ => ¬S.IsDirectory p

variable {S}

/-- What stands at a path is what is read there. -/
theorem Reads.of_file {p : Path} {perm : UInt32} {data : Bytes} {answer : Except FsError Bytes}
    (reads : S.Reads p answer) (there : S p = some (.file perm data)) : answer = .ok data := by
  cases answer with
  | error e => exact absurd ⟨perm, data, there⟩ reads
  | ok data' =>
    obtain ⟨perm', found⟩ := reads
    cases found.symm.trans there
    rfl

/-- Only one listing shows the entries of a directory. -/
theorem Lists.unique {p : Path} {l l' : List DirEntry} (h : S.Lists p l) (h' : S.Lists p l') :
    l = l' :=
  SortedMap.eq_of_mem_iff DirEntry.name h.ascending h'.ascending fun d =>
    (h.mem d).trans (h'.mem d).symm

/-! ## Looking up changed spaces -/

@[simp] theorem put_self (p : Path) (e : Entry) : S.put p e p = some e := if_pos rfl

theorem put_other {p q : Path} (e : Entry) (h : q ≠ p) : S.put p e q = S q := if_neg h

@[simp] theorem remove_self (p : Path) : S.remove p p = none := if_pos rfl

theorem remove_other {p q : Path} (h : q ≠ p) : S.remove p q = S q := if_neg h

@[simp] theorem relocate_below (source target k : Path) :
    S.relocate source target (target ++ k) = S (source ++ k) := by
  rw [relocate, if_pos (Path.isPrefixOf_append ..), Path.relativeTo_append]

@[simp] theorem relocate_target (source target : Path) :
    S.relocate source target target = S source := by
  simpa using relocate_below (S := S) source target .root

theorem relocate_left {source target q : Path} (h : ¬target.isPrefixOf q = true)
    (k : source.isPrefixOf q = true) : S.relocate source target q = none := by
  rw [relocate, if_neg h, if_pos k]

theorem relocate_other {source target q : Path} (h : ¬target.isPrefixOf q = true)
    (k : ¬source.isPrefixOf q = true) : S.relocate source target q = S q := by
  rw [relocate, if_neg h, if_neg k]

/-- Moving an entry to where it is changes nothing. -/
@[simp] theorem relocate_self (p : Path) : S.relocate p p = S := by
  funext q
  by_cases h : p.isPrefixOf q = true
  · rw [relocate, if_pos h, Path.append_relativeTo h]
  · exact relocate_other h h

theorem opened_free {p : Path} (h : S p = none) (mode : UInt32) :
    S.opened p mode = S.put p (.file (mode &&& permMask) []) := if_pos h

theorem opened_taken {p : Path} (h : S p ≠ none) (mode : UInt32) : S.opened p mode = S := if_neg h

theorem opened_other {p q : Path} (mode : UInt32) (h : q ≠ p) : S.opened p mode q = S q := by
  by_cases free : S p = none
  · rw [opened_free free, put_other _ h]
  · rw [opened_taken free]

/-! ## Kinds of entries -/

theorem IsDirectory.ne_none {p : Path} : S.IsDirectory p → S p ≠ none
  | ⟨_, h⟩, k => Option.some_ne_none _ (h.symm.trans k)

theorem IsFile.ne_none {p : Path} : S.IsFile p → S p ≠ none
  | ⟨_, _, h⟩, k => Option.some_ne_none _ (h.symm.trans k)

theorem IsFile.not_isDirectory {p : Path} : S.IsFile p → ¬S.IsDirectory p
  | ⟨_, _, h⟩, ⟨_, k⟩ => Entry.noConfusion (Option.some.inj (h.symm.trans k))

theorem isFile_of_kind {p : Path} {e : Entry} (h : S p = some e) (k : e.kind = .file) :
    S.IsFile p := by
  cases e with
  | file perm data => exact ⟨perm, data, h⟩
  | directory _ => cases k

theorem isDirectory_of_kind {p : Path} {e : Entry} (h : S p = some e) (k : e.kind = .directory) :
    S.IsDirectory p := by
  cases e with
  | file _ _ => cases k
  | directory perm => exact ⟨perm, h⟩

/-! ## Trees stay trees -/

namespace IsTree

variable (tree : S.IsTree)
include tree

/-- Strictly above an entry stands a directory. -/
theorem above {p k : Path} (h : S (p ++ k) ≠ none) (strict : k ≠ .root) : S.IsDirectory p := by
  induction k using Path.childInduction with
  | atRoot => exact absurd rfl strict
  | atChild k s ih =>
    rw [Path.append_child] at h
    have holder := tree.parent _ _ h
    by_cases hk : k = .root
    · rwa [hk, Path.append_root] at holder
    · exact ih holder.ne_none hk

theorem file_ne_root {p : Path} (h : S.IsFile p) : p ≠ .root :=
  fun e => h.not_isDirectory (e ▸ tree.root)

theorem file_no_entries {p : Path} (h : S.IsFile p) : ¬S.HasEntries p :=
  fun ⟨s, hs⟩ => h.not_isDirectory (tree.parent p s hs)

/-- What has something below it has entries. -/
theorem hasEntries {p k : Path} (h : S (p ++ k) ≠ none) (strict : k ≠ .root) : S.HasEntries p := by
  obtain ⟨s, l, rfl⟩ := Path.exists_first strict
  refine ⟨s, ?_⟩
  rw [← Path.append_assoc, Path.append_child, Path.append_root] at h
  by_cases hl : l = .root
  · rwa [hl, Path.append_root] at h
  · exact (tree.above h hl).ne_none

/-- What may move does not replace the root. -/
theorem target_ne_root {source target : Path} (h : S.Movable source target) : target ≠ .root := by
  obtain ⟨nonroot, e, he, rfl | ⟨-, -, free⟩⟩ := h
  · exact nonroot
  · rintro rfl
    obtain ⟨perm, hp⟩ := tree.root
    have taken : S source ≠ none := by rw [he]; exact Option.some_ne_none e
    exact (free _ hp).2 (tree.hasEntries (p := .root) taken nonroot)

/-- An entry put at a path that may hold it leaves a tree. -/
theorem put {p : Path} {e : Entry} (nonroot : p ≠ .root) (holder : S.IsDirectory p.parent)
    (leaf : ¬S.HasEntries p) : (S.put p e).IsTree where
  root := by
    obtain ⟨perm, h⟩ := tree.root
    exact ⟨perm, (put_other e (Ne.symm nonroot)).trans h⟩
  parent := by
    intro q s h
    -- The directory above is not the path itself, which has no entries.
    have ne : q ≠ p := by
      rintro rfl
      rw [put_other e (Path.child_ne_self q s)] at h
      exact leaf ⟨s, h⟩
    have above : S.IsDirectory q := by
      by_cases hq : q.child s = p
      · rwa [← hq, Path.parent_child] at holder
      · rw [put_other e hq] at h
        exact tree.parent q s h
    obtain ⟨perm, hd⟩ := above
    exact ⟨perm, (put_other e ne).trans hd⟩

theorem remove {p : Path} (nonroot : p ≠ .root) (leaf : ¬S.HasEntries p) : (S.remove p).IsTree where
  root := by
    obtain ⟨perm, h⟩ := tree.root
    exact ⟨perm, (remove_other (Ne.symm nonroot)).trans h⟩
  parent := by
    intro q s h
    have hs : q.child s ≠ p := by
      rintro rfl
      exact h (remove_self _)
    rw [remove_other hs] at h
    have ne : q ≠ p := fun e => leaf ⟨s, e ▸ h⟩
    obtain ⟨perm, hd⟩ := tree.parent q s h
    exact ⟨perm, (remove_other ne).trans hd⟩

theorem relocate {source target : Path} (h : S.Movable source target) :
    (S.relocate source target).IsTree := by
  have nonroot := tree.target_ne_root h
  obtain ⟨hs, e, he, rfl | ⟨outside, holder, -⟩⟩ := h
  · rwa [relocate_self]
  have kept : ∀ q, ¬target.isPrefixOf q = true → ¬source.isPrefixOf q = true → S.IsDirectory q →
      (S.relocate source target).IsDirectory q :=
    fun q ht hs ⟨perm, hd⟩ => ⟨perm, (relocate_other ht hs).trans hd⟩
  constructor
  · exact kept _ (fun k => nonroot (Path.isPrefixOf_root.1 k))
      (fun k => hs (Path.isPrefixOf_root.1 k)) tree.root
  · intro p s taken
    by_cases ht : target.isPrefixOf (p.child s) = true
    · rcases Path.isPrefixOf_child.1 ht with rfl | hp
      · -- The moved entry itself: its new directory has stayed where it was.
        rw [Path.parent_child] at holder
        exact kept p (Path.child_not_isPrefixOf p s)
          (fun k => outside (Path.isPrefixOf_child.2 (.inr k))) holder
      · obtain ⟨k, rfl⟩ := Path.isPrefixOf_iff.1 hp
        rw [← Path.append_child, relocate_below, Path.append_child] at taken
        obtain ⟨perm, hd⟩ := tree.parent _ _ taken
        exact ⟨perm, (relocate_below ..).trans hd⟩
    · have hns : ¬source.isPrefixOf (p.child s) = true := fun k => taken (relocate_left ht k)
      rw [relocate_other ht hns] at taken
      exact kept p (fun k => ht (Path.isPrefixOf_child.2 (.inr k)))
        (fun k => hns (Path.isPrefixOf_child.2 (.inr k))) (tree.parent p s taken)

/-- Nothing lies below what has no entries. -/
theorem nothing_below {p k : Path} (h : ¬S.HasEntries p) (strict : k ≠ .root) : S (p ++ k) = none :=
  Classical.byContradiction fun taken => h (tree.hasEntries taken strict)

/-- Nothing lies below what may be replaced. -/
theorem replaceable_below {p k : Path} {kind : FileKind} (h : S.Replaceable p kind)
    (strict : k ≠ .root) : S (p ++ k) = none := by
  refine Classical.byContradiction fun taken => ?_
  obtain ⟨perm, hp⟩ := tree.above taken strict
  exact (h _ hp).2 (tree.hasEntries taken strict)

/-- What moves does not lie below its target, or the target would have had entries. -/
theorem not_below_target {source target : Path} (h : S.Movable source target) (ne : source ≠ target)
    (k : Path) : ¬target.isPrefixOf (source ++ k) = true := by
  obtain ⟨-, e, he, eq | ⟨outside, -, free⟩⟩ := h
  · exact absurd eq ne
  · intro above
    rcases Path.isPrefixOf_total above (Path.isPrefixOf_append source k) with above | above
    · obtain ⟨j, rfl⟩ := Path.isPrefixOf_iff.1 above
      have strict : j ≠ .root := fun e => ne (by rw [e, Path.append_root])
      cases (tree.replaceable_below free strict).symm.trans he
    · exact outside above

theorem parent_of_file {p : Path} (h : S.IsFile p) : S.IsDirectory p.parent := by
  rcases Path.root_or_child p with rfl | ⟨q, s, rfl⟩
  · exact absurd rfl (tree.file_ne_root h)
  · rw [Path.parent_child]
    exact tree.parent q s h.ne_none

theorem free_ne_root {p : Path} (h : S.IsFree p) : p ≠ .root :=
  fun e => tree.root.ne_none (e ▸ h.1)

theorem free_no_entries {p : Path} (h : S.IsFree p) : ¬S.HasEntries p :=
  fun ⟨s, hs⟩ => (tree.parent p s hs).ne_none h.1

/-- Nothing stands at or below a path where something may be created. -/
theorem free_below {p : Path} (h : S.IsFree p) (k : Path) : S (p ++ k) = none := by
  by_cases hk : k = .root
  · rw [hk, Path.append_root]
    exact h.1
  · exact tree.nothing_below (tree.free_no_entries h) hk

/-- A change that may happen leaves a tree. -/
theorem after {c : Change} (h : S.Allows c) : (S.after c).IsTree := by
  cases c with
  | mkdir p mode => exact tree.put (tree.free_ne_root h) h.2 (tree.free_no_entries h)
  | unlink p => exact tree.remove (tree.file_ne_root h) (tree.file_no_entries h)
  | rmdir p => exact tree.remove h.1 h.2.2
  | rename source target => exact tree.relocate h
  | sync p data attr =>
    exact tree.put (tree.file_ne_root h) (tree.parent_of_file h) (tree.file_no_entries h)

theorem opened {p : Path} {flags : OpenFlags} (h : S.Opens p flags) (mode : UInt32) :
    (S.opened p mode).IsTree := by
  rcases h with ⟨file, -⟩ | ⟨free, -⟩
  · rwa [opened_taken file.ne_none]
  · rw [opened_free free.1]
    exact tree.put (tree.free_ne_root free) free.2 (tree.free_no_entries free)

end IsTree

end Space

end MountSpace
