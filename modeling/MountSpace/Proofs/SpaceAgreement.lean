import MountSpace.Proofs.Space

/-!
# Spaces that agree below the root

Two kinds of backend give a fresh root different permissions. Spaces that differ in nothing else
allow the same changes, and differ in nothing else afterwards.

- `Space.SameBelow`: agreement on everything but the permissions of the root.
- `SameBelow.allows`, `SameBelow.opens`, `SameBelow.after`, `SameBelow.opened`: what follows from
  it.
- `Space.Bounded`: no file is longer than can be recorded.
-/

namespace MountSpace

namespace Space

/-- Two spaces agree on everything but the permissions of the root. -/
structure SameBelow (S S' : Space) : Prop where
  below : ∀ p, p ≠ .root → S p = S' p
  root : S.IsDirectory .root
  root' : S'.IsDirectory .root

/-- No file is longer than can be recorded. -/
def Bounded (S : Space) : Prop :=
  ∀ p perm data, S p = some (.file perm data) → data.length ≤ maxFileLength

variable {S S' : Space}

namespace SameBelow

variable (same : S.SameBelow S')
include same

theorem symm : S'.SameBelow S := ⟨fun p hp => (same.below p hp).symm, same.root', same.root⟩

theorem isFile {p : Path} (h : S.IsFile p) : S'.IsFile p := by
  by_cases hp : p = .root
  · exact absurd (hp ▸ same.root) h.not_isDirectory
  · obtain ⟨perm, data, h⟩ := h
    exact ⟨perm, data, (same.below p hp).symm.trans h⟩

theorem isDirectory {p : Path} (h : S.IsDirectory p) : S'.IsDirectory p := by
  by_cases hp : p = .root
  · exact hp ▸ same.root'
  · obtain ⟨perm, h⟩ := h
    exact ⟨perm, (same.below p hp).symm.trans h⟩

theorem eq_none {p : Path} (h : S p = none) : S' p = none := by
  by_cases hp : p = .root
  · exact absurd (hp ▸ h) same.root.ne_none
  · exact (same.below p hp).symm.trans h

theorem kind {p : Path} {e : Entry} (h : S p = some e) :
    ∃ e', S' p = some e' ∧ e'.kind = e.kind := by
  cases e with
  | file perm data =>
    obtain ⟨perm', data', h'⟩ := same.isFile ⟨perm, data, h⟩
    exact ⟨_, h', rfl⟩
  | directory perm =>
    obtain ⟨perm', h'⟩ := same.isDirectory ⟨perm, h⟩
    exact ⟨_, h', rfl⟩

theorem hasEntries {p : Path} (h : S.HasEntries p) : S'.HasEntries p := by
  obtain ⟨s, hs⟩ := h
  exact ⟨s, fun e => hs (same.symm.eq_none e)⟩

theorem isFree {p : Path} (h : S.IsFree p) : S'.IsFree p := ⟨same.eq_none h.1, same.isDirectory h.2⟩

theorem replaceable {p : Path} {kind : FileKind} (h : S.Replaceable p kind) :
    S'.Replaceable p kind := by
  intro e' he'
  obtain ⟨e, he, hk⟩ := same.symm.kind he'
  exact ⟨hk.symm.trans (h e he).1, fun full => (h e he).2 (same.symm.hasEntries full)⟩

theorem movable {source target : Path} (h : S.Movable source target) :
    S'.Movable source target := by
  obtain ⟨nonroot, e, he, move⟩ := h
  obtain ⟨e', he', hk⟩ := same.kind he
  refine ⟨nonroot, e', he', move.imp_right fun ⟨outside, dir, free⟩ => ?_⟩
  exact ⟨outside, same.isDirectory dir, hk ▸ same.replaceable free⟩

/-- What one of the spaces allows, the other allows as well. -/
theorem allows {c : Change} (h : S.Allows c) : S'.Allows c := by
  cases c with
  | mkdir p mode => exact same.isFree h
  | unlink p => exact same.isFile h
  | rmdir p => exact ⟨h.1, same.isDirectory h.2.1, fun full => h.2.2 (same.symm.hasEntries full)⟩
  | rename source target => exact same.movable h
  | sync p data attr => exact same.isFile h

theorem opens {p : Path} {flags : OpenFlags} (h : S.Opens p flags) : S'.Opens p flags :=
  h.imp (fun h => ⟨same.isFile h.1, h.2⟩) fun h => ⟨same.isFree h.1, h.2⟩

theorem lists {p : Path} {l : List DirEntry} (h : S.Lists p l) : S'.Lists p l := by
  refine ⟨h.ascending, fun d => (h.mem d).trans ?_⟩
  constructor
  · rintro ⟨s, e, he, rfl⟩
    exact ⟨s, e, (same.below _ (Path.child_ne_root p s)).symm.trans he, rfl⟩
  · rintro ⟨s, e, he, rfl⟩
    exact ⟨s, e, (same.below _ (Path.child_ne_root p s)).trans he, rfl⟩

theorem put {p : Path} (nonroot : p ≠ .root) (e : Entry) : (S.put p e).SameBelow (S'.put p e) where
  below := by
    intro q hq
    by_cases hp : q = p
    · rw [hp, put_self, put_self]
    · rw [put_other e hp, put_other e hp, same.below q hq]
  root := by
    obtain ⟨perm, h⟩ := same.root
    exact ⟨perm, (put_other e (Ne.symm nonroot)).trans h⟩
  root' := by
    obtain ⟨perm, h⟩ := same.root'
    exact ⟨perm, (put_other e (Ne.symm nonroot)).trans h⟩

theorem remove {p : Path} (nonroot : p ≠ .root) : (S.remove p).SameBelow (S'.remove p) where
  below := by
    intro q hq
    by_cases hp : q = p
    · rw [hp, remove_self, remove_self]
    · rw [remove_other hp, remove_other hp, same.below q hq]
  root := by
    obtain ⟨perm, h⟩ := same.root
    exact ⟨perm, (remove_other (Ne.symm nonroot)).trans h⟩
  root' := by
    obtain ⟨perm, h⟩ := same.root'
    exact ⟨perm, (remove_other (Ne.symm nonroot)).trans h⟩

theorem relocate {source target : Path} (hs : source ≠ .root) (ht : target ≠ .root) :
    (S.relocate source target).SameBelow (S'.relocate source target) := by
  -- A move that may happen has neither end at the root.
  have top : ∀ S : Space, S.relocate source target .root = S .root := fun S =>
    relocate_other (fun k => ht (Path.isPrefixOf_root.1 k)) fun k => hs (Path.isPrefixOf_root.1 k)
  refine ⟨fun q hq => ?_, ?_, ?_⟩
  · rw [Space.relocate, Space.relocate, same.below q hq, same.below]
    exact fun e => hs (Path.append_eq_root.1 e).1
  · obtain ⟨perm, h⟩ := same.root
    exact ⟨perm, (top S).trans h⟩
  · obtain ⟨perm, h⟩ := same.root'
    exact ⟨perm, (top S').trans h⟩

/-- After a change that both allow the two agree again. -/
theorem after (tree : S.IsTree) {c : Change} (h : S.Allows c) :
    (S.after c).SameBelow (S'.after c) := by
  cases c with
  | mkdir p mode => exact same.put (tree.free_ne_root h) _
  | unlink p => exact same.remove (tree.file_ne_root h)
  | rmdir p => exact same.remove h.1
  | rename source target => exact same.relocate h.1 (tree.target_ne_root h)
  | sync p data attr => exact same.put (tree.file_ne_root h) _

theorem opened (tree : S.IsTree) {p : Path} {flags : OpenFlags} (h : S.Opens p flags)
    (mode : UInt32) : (S.opened p mode).SameBelow (S'.opened p mode) := by
  rcases h with ⟨file, -⟩ | ⟨free, -⟩
  · rw [opened_taken file.ne_none, opened_taken (same.isFile file).ne_none]
    exact same
  · rw [opened_free free.1, opened_free (same.eq_none free.1)]
    exact same.put (tree.free_ne_root free) _

end SameBelow

/-- No change reaches the root itself. -/
theorem after_root (tree : S.IsTree) {c : Change} (h : S.Allows c) : S.after c .root = S .root := by
  cases c with
  | mkdir p mode => exact put_other _ (Ne.symm (tree.free_ne_root h))
  | unlink p => exact remove_other (Ne.symm (tree.file_ne_root h))
  | rmdir p => exact remove_other (Ne.symm h.1)
  | rename source target =>
    exact relocate_other (fun k => tree.target_ne_root h (Path.isPrefixOf_root.1 k))
      fun k => h.1 (Path.isPrefixOf_root.1 k)
  | sync p data attr => exact put_other _ (Ne.symm (tree.file_ne_root h))

theorem opened_root (tree : S.IsTree) {p : Path} {flags : OpenFlags} (h : S.Opens p flags)
    (mode : UInt32) : S.opened p mode .root = S .root := by
  refine opened_other mode fun e => ?_
  rcases h with ⟨file, -⟩ | ⟨free, -⟩
  · exact tree.file_ne_root file e.symm
  · exact tree.free_ne_root free e.symm

theorem Bounded.put (h : S.Bounded) {p : Path} {e : Entry}
    (bound : ∀ data, e.data? = some data → data.length ≤ maxFileLength) : (S.put p e).Bounded := by
  intro q perm data hq
  by_cases hp : q = p
  · rw [hp, put_self] at hq
    cases hq
    exact bound data rfl
  · rw [put_other e hp] at hq
    exact h q perm data hq

theorem Bounded.remove (h : S.Bounded) (p : Path) : (S.remove p).Bounded := by
  intro q perm data hq
  by_cases hp : q = p
  · rw [hp, remove_self] at hq
    cases hq
  · rw [remove_other hp] at hq
    exact h q perm data hq

theorem Bounded.relocate (h : S.Bounded) (source target : Path) :
    (S.relocate source target).Bounded := by
  intro q perm data hq
  rw [Space.relocate] at hq
  split at hq
  · exact h _ perm data hq
  · split at hq
    · cases hq
    · exact h _ perm data hq

/-- No content is stored that could not be recorded. -/
def Storable : Change → Prop
  | .sync _ data _ => data.length ≤ maxFileLength
  | _ => True

theorem Bounded.after (h : S.Bounded) {c : Change} (storable : Storable c) :
    (S.after c).Bounded := by
  cases c with
  | mkdir p mode => exact h.put fun _ e => by cases e
  | unlink p => exact h.remove p
  | rmdir p => exact h.remove p
  | rename source target => exact h.relocate source target
  | sync p data attr =>
    refine h.put fun _ e => ?_
    cases e
    exact storable

theorem Bounded.opened (h : S.Bounded) (p : Path) (mode : UInt32) : (S.opened p mode).Bounded := by
  by_cases free : S p = none
  · rw [opened_free free]
    refine h.put fun _ e => ?_
    cases e
    exact Nat.zero_le _
  · rwa [opened_taken free]

end Space

end MountSpace
