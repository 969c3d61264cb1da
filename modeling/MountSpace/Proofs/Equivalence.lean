import MountSpace.Proofs.Serves
import MountSpace.Proofs.Session
import MountSpace.Proofs.SpaceAgreement

/-!
# Two backends that cannot be told apart

Two backends that answer for volumes of their own answer a call alike and leave volumes that look
alike, if the volumes looked alike before and every id that is drawn is new. The only thing that may
differ is the permissions of the root, which no call changes.

- `Alike`: two outcomes are both failures, or both successes with related results.
- `Volumes.Like`, `OpenFile.Like`: what is related on the two sides.
- `Paired`: two actions come to alike outcomes and leave related volumes.
- `change_alike`, `openFile_alike`, `sync_alike`, `close_alike`, `writeAll_alike`: one call.
-/

namespace MountSpace

/-- Two outcomes are both failures, or both successes with related results. -/
def Alike {α β : Type} (R : α → β → Prop) : Except FsError α → Except FsError β → Prop
  | .ok a, .ok b => R a b
  | .error _, .error _ => True
  | _, _ => False

theorem Alike.bind {α α' β β' : Type} {R : α → α' → Prop} {S : β → β' → Prop} {x : Except FsError α}
    {x' : Except FsError α'} {g : α → Except FsError β} {g' : α' → Except FsError β'}
    (h : Alike R x x') (k : ∀ a a', R a a' → Alike S (g a) (g' a')) :
    Alike S (x >>= g) (x' >>= g') := by
  match x, x', h with
  | .ok a, .ok a', h => exact k a a' h
  | .error _, .error _, _ => trivial

theorem Alike.cases {α β : Type} {R : α → β → Prop} {x : Except FsError α} {y : Except FsError β}
    (h : Alike R x y) :
    (∃ a b, x = .ok a ∧ y = .ok b ∧ R a b) ∨ ∃ e e', x = .error e ∧ y = .error e' := by
  match x, y, h with
  | .ok a, .ok b, h => exact .inl ⟨a, b, rfl, rfl, h⟩
  | .error e, .error e', _ => exact .inr ⟨e, e', rfl, rfl⟩

/-! ## Open files -/

/-- Two open files are the same, but for numbers and times in their attributes. -/
structure OpenFile.Like (f f' : OpenFile) : Prop where
  path : f.path = f'.path
  flags : f.flags = f'.flags
  perm : f.attr.perm &&& permMask = f'.attr.perm &&& permMask
  data : f.data = f'.data
  dirty : f.dirty = f'.dirty
  closed : f.closed = f'.closed
  bounded : f.data.length ≤ maxFileLength

theorem length_splice (data : Bytes) (offset : Nat) (new : Bytes) :
    (splice data offset new).length = max data.length (offset + new.length) := by
  simp only [splice, List.length_append, List.length_take, List.length_replicate, List.length_drop]
  omega

theorem length_resize (data : Bytes) (length : Nat) : (resize data length).length = length := by
  simp only [resize, List.length_append, List.length_take, List.length_replicate]
  omega

namespace OpenFile

/-- Files that are opened over the same content are the same. -/
theorem load_like {owner owner' : BackendId} (path : Bytes) (flags : OpenFlags)
    {attr attr' : FileAttr} {data : Bytes} (now now' : Instant)
    (perm : attr.perm &&& permMask = attr'.perm &&& permMask)
    (bounded : data.length ≤ maxFileLength) :
    (load owner path flags attr data now).Like (load owner' path flags attr' data now') := by
  rw [load, load]
  split
  · exact ⟨rfl, rfl, perm, rfl, rfl, rfl, Nat.zero_le _⟩
  · exact ⟨rfl, rfl, perm, rfl, rfl, rfl, bounded⟩

namespace Like

variable {f f' : OpenFile} (like : f.Like f')
include like

theorem checkOpen : Alike (fun _ _ => True) f.checkOpen f'.checkOpen := by
  rw [OpenFile.checkOpen, OpenFile.checkOpen, like.closed]
  split <;> trivial

theorem checkWriteable : Alike (fun _ _ => True) f.checkWriteable f'.checkWriteable := by
  refine like.checkOpen.bind fun _ _ _ => ?_
  rw [like.flags]
  cases f'.flags.isWriteable <;> trivial

theorem withData {data : Bytes} (bounded : data.length ≤ maxFileLength) (now now' : Instant) :
    (f.withData data now).Like (f'.withData data now') :=
  ⟨like.path, like.flags, like.perm, rfl, rfl, like.closed, bounded⟩

theorem read (offset size : Nat) : Alike Eq (f.read offset size) (f'.read offset size) := by
  refine like.checkOpen.bind fun _ _ _ => ?_
  rw [like.flags, like.data]
  cases f'.flags.read
  · trivial
  · rfl

theorem write (offset : Nat) (new : Bytes) (now now' : Instant) :
    Alike OpenFile.Like (f.write offset new now) (f'.write offset new now') := by
  refine like.checkWriteable.bind fun _ _ _ => ?_
  have same : f.writeOffset offset = f'.writeOffset offset := by
    rw [writeOffset, writeOffset, like.flags, like.data]
  dsimp only
  rw [same, like.data]
  by_cases large : maxFileLength < f'.writeOffset offset + new.length
  · rw [if_pos large, if_pos large]
    trivial
  · rw [if_neg large, if_neg large]
    refine like.withData ?_ now now'
    rw [length_splice, ← like.data]
    exact Nat.max_le.2 ⟨like.bounded, Nat.le_of_not_lt large⟩

theorem truncate (size : Nat) (now now' : Instant) :
    Alike OpenFile.Like (f.truncate size now) (f'.truncate size now') := by
  refine like.checkWriteable.bind fun _ _ _ => ?_
  dsimp only
  rw [like.data]
  by_cases large : maxFileLength < size
  · rw [if_pos large, if_pos large]
    trivial
  · rw [if_neg large, if_neg large]
    refine like.withData ?_ now now'
    rw [length_resize]
    exact Nat.le_of_not_lt large

theorem stored : ({ f with dirty := false } : OpenFile).Like { f' with dirty := false } :=
  ⟨like.path, like.flags, like.perm, like.data, rfl, like.closed, like.bounded⟩

theorem givenUp : ({ f with closed := true } : OpenFile).Like { f' with closed := true } :=
  ⟨like.path, like.flags, like.perm, like.data, like.dirty, rfl, like.bounded⟩

end Like

end OpenFile

/-! ## Volumes -/

/-- Two volumes are in order and agree on everything but the permissions of the root, which are
those that a tree in memory and a store of records are made with. The ids that come before a given
draw are new to each of them. -/
structure Volumes.Like (vol vol' : Volume) (n n' : Nat) (v v' : Volumes) : Prop where
  sound : v.SoundAt vol
  sound' : v'.SoundAt vol'
  below : ∀ p, p ≠ .root → v.space vol p = v'.space vol' p
  root : v.space vol .root = some (.directory MemoryTree.rootPerm)
  root' : v'.space vol' .root = some (.directory RecordTree.rootPerm)
  bounded : (v.space vol).Bounded
  fresh : v.FreshAt n vol
  fresh' : v'.FreshAt n' vol'

namespace Volumes.Like

variable {vol vol' : Volume} {n n' : Nat} {v v' v₁ v₁' : Volumes} (like : Like vol vol' n n' v v')
include like

theorem same : (v.space vol).SameBelow (v'.space vol') :=
  ⟨like.below, ⟨_, like.root⟩, ⟨_, like.root'⟩⟩

/-- Related volumes stay related if the same happens to both of them below the root. -/
theorem step (only : v.ChangesOnly v₁ vol) (only' : v'.ChangesOnly v₁' vol')
    (same : (v₁.space vol).SameBelow (v₁'.space vol'))
    (top : v₁.space vol .root = v.space vol .root)
    (top' : v₁'.space vol' .root = v'.space vol' .root) (bounded : (v₁.space vol).Bounded) :
    Like vol vol' n n' v₁ v₁' :=
  ⟨only.sound like.sound, only'.sound like.sound', same.below, top.trans like.root,
    top'.trans like.root', bounded, only.fresh n like.fresh, only'.fresh n' like.fresh'⟩

/-- Related volumes stay related if nothing looks different. -/
theorem idle (only : v.ChangesOnly v₁ vol) (only' : v'.ChangesOnly v₁' vol')
    (space : v₁.space vol = v.space vol) (space' : v₁'.space vol' = v'.space vol') :
    Like vol vol' n n' v₁ v₁' := by
  refine like.step only only' ?_ (congrFun space _) (congrFun space' _) ?_
  · rw [space, space']
    exact like.same
  · rw [space]
    exact like.bounded

theorem ticked : Like vol vol' n n' v.ticked v'.ticked :=
  like.idle (v.changesOnly_ticked vol) (v'.changesOnly_ticked vol') (space_ticked ..)
    (space_ticked ..)

end Volumes.Like

theorem Volumes.FreshAt.mono {v : Volumes} {vol : Volume} {b b' : Nat} (fresh : v.FreshAt b' vol)
    (h : b ≤ b') : v.FreshAt b vol := by
  cases vol with
  | tree i => trivial
  | store j => exact Transaction.Fresh.mono fresh h

/-! ## One call -/

/-- Two computations are answered alike and leave related volumes, as long as they draw no ids past
the ones that are known to be new. -/
def Paired {α α' : Type} (vol vol' : Volume) (n n' : Nat) (R : α → α' → Prop)
    (r : Except FsError α × Volumes) (r' : Except FsError α' × Volumes) : Prop :=
  r.2.ambient.draws ≤ n → r'.2.ambient.draws ≤ n' →
    Alike R r.1 r'.1 ∧ Volumes.Like vol vol' n n' r.2 r'.2

namespace Paired

variable {α α' β β' : Type} {vol vol' : Volume} {n n' : Nat} {R : α → α' → Prop} {S : β → β' → Prop}
variable {x : Action Volumes α} {x' : Action Volumes α'} {v v' : Volumes}
variable (paired : Paired vol vol' n n' R (x.runOn v) (x'.runOn v'))
include paired

/-- What follows on either side may draw ids of its own. -/
theorem bind {g : α → Action Volumes β} {g' : α' → Action Volumes β'}
    (grows : ∀ a v₁, x.runOn v = (.ok a, v₁) → v₁.ambient.draws ≤ ((g a).runOn v₁).2.ambient.draws)
    (grows' : ∀ a v₁, x'.runOn v' = (.ok a, v₁) →
      v₁.ambient.draws ≤ ((g' a).runOn v₁).2.ambient.draws)
    (next : ∀ a a' v₁ v₁', x.runOn v = (.ok a, v₁) → x'.runOn v' = (.ok a', v₁') → R a a' →
      Volumes.Like vol vol' n n' v₁ v₁' →
      Paired vol vol' n n' S ((g a).runOn v₁) ((g' a').runOn v₁')) :
    Paired vol vol' n n' S ((x >>= g).runOn v) ((x' >>= g').runOn v') := by
  intro drawn drawn'
  rw [Action.runOn_bind] at drawn drawn'
  rw [Action.runOn_bind, Action.runOn_bind]
  rcases hr : x.runOn v with ⟨o, v₁⟩
  rcases hr' : x'.runOn v' with ⟨o', v₁'⟩
  rw [hr] at drawn paired
  rw [hr'] at drawn' paired
  -- The first computation drew no more ids than the two of them together.
  have start : v₁.ambient.draws ≤ n := by
    cases o with
    | error e => exact drawn
    | ok a => exact Nat.le_trans (grows a v₁ hr) drawn
  have start' : v₁'.ambient.draws ≤ n' := by
    cases o' with
    | error e => exact drawn'
    | ok a => exact Nat.le_trans (grows' a v₁' hr') drawn'
  obtain ⟨alike, like⟩ := paired start start'
  obtain ⟨a, a', rfl, rfl, related⟩ | ⟨e, e', rfl, rfl⟩ := alike.cases
  · exact next a a' v₁ v₁' hr hr' related like drawn drawn'
  · exact ⟨trivial, like⟩

theorem bind_pure {g : α → β} {g' : α' → β'} (k : ∀ a a', R a a' → S (g a) (g' a')) :
    Paired vol vol' n n' S ((x >>= fun a => pure (g a)).runOn v)
      ((x' >>= fun a => pure (g' a)).runOn v') :=
  paired.bind (fun _ _ _ => Nat.le_refl _) (fun _ _ _ => Nat.le_refl _)
    fun a a' _ _ _ _ related like _ _ => ⟨k a a' related, like⟩

end Paired

section Calls

variable {fs fs' : FileSystem} {owner owner' : BackendId} {vol vol' : Volume} {n n' : Nat}
variable {v v' : Volumes}
variable (serves : Serves fs owner vol false) (serves' : Serves fs' owner' vol' false)
variable (like : Volumes.Like vol vol' n n' v v')
include serves serves' like

/-- A change takes place in both volumes or in neither. The two may be told different attributes of
a file, as long as they come to the same. -/
theorem change_alike (c c' : Change) (allows : ∀ S : Space, S.Allows c' ↔ S.Allows c)
    (after : ∀ S : Space, S.after c' = S.after c) (storable : Space.Storable c) :
    Paired vol vol' n n' (fun _ _ => True) ((fs.change c).runOn v) ((fs'.change c').runOn v') := by
  intro drawn drawn'
  have settles := serves.change v c like.sound
  have settles' := serves'.change v' c' like.sound'
  generalize (fs.change c).runOn v = r at *
  generalize (fs'.change c').runOn v' = r' at *
  obtain ⟨_ | _, v₁⟩ := r <;> obtain ⟨_ | _, v₁'⟩ := r'
  · obtain ⟨only, space, -⟩ := settles
    obtain ⟨only', space', -⟩ := settles'
    exact ⟨trivial, like.idle only only' space space'⟩
  · -- Only one of the two took place, though both spaces allow the same and all ids were new.
    have refused := settles.2.2 rfl (.inl (like.fresh.mono drawn))
    exact absurd (like.same.symm.allows ((allows _).1 settles'.2.2.1)) refused
  · have refused := settles'.2.2 rfl (.inl (like.fresh'.mono drawn'))
    exact absurd ((allows _).2 (like.same.allows settles.2.2.1)) refused
  · obtain ⟨only, -, allowed, space⟩ := settles
    obtain ⟨only', -, -, space'⟩ := settles'
    have allowed' := (allows _).2 (like.same.allows allowed)
    refine ⟨trivial, like.step only only' ?_ ?_ ?_ ?_⟩
    · show (v₁.space vol).SameBelow (v₁'.space vol')
      rw [space, space', after]
      exact like.same.after like.sound.tree allowed
    · show v₁.space vol .root = _
      rw [space]
      exact Space.after_root like.sound.tree allowed
    · show v₁'.space vol' .root = _
      rw [space']
      exact Space.after_root like.sound'.tree allowed'
    · show (v₁.space vol).Bounded
      rw [space]
      exact like.bounded.after storable

/-- A file is opened in both volumes or in neither. -/
theorem openFile_alike (p : Path) (flags : OpenFlags) (mode : UInt32) :
    Paired vol vol' n n' OpenFile.Like ((fs.openFile p flags mode).runOn v)
      ((fs'.openFile p flags mode).runOn v') := by
  intro drawn drawn'
  have settles := serves.openFile v p flags mode like.sound
  have settles' := serves'.openFile v' p flags mode like.sound'
  generalize (fs.openFile p flags mode).runOn v = r at *
  generalize (fs'.openFile p flags mode).runOn v' = r' at *
  obtain ⟨_ | _, v₁⟩ := r <;> obtain ⟨_ | _, v₁'⟩ := r'
  · obtain ⟨only, space, -⟩ := settles
    obtain ⟨only', space', -⟩ := settles'
    exact ⟨trivial, like.idle only only' space space'⟩
  · have refused := settles.2.2 rfl (like.fresh.mono drawn)
    exact absurd (like.same.symm.opens settles'.2.2.1) refused
  · have refused := settles'.2.2 rfl (like.fresh'.mono drawn')
    exact absurd (like.same.opens settles.2.2.1) refused
  · obtain ⟨only, -, opens, space, perm, data, attr, now, found, shows, rfl⟩ := settles
    obtain ⟨only', -, opens', space', perm', data', attr', now', found', shows', rfl⟩ := settles'
    have same : (v₁.space vol).SameBelow (v₁'.space vol') := by
      rw [space, space']
      exact like.same.opened like.sound.tree opens mode
    have bounded : (v₁.space vol).Bounded := by
      rw [space]
      exact like.bounded.opened p mode
    have top : v₁.space vol .root = v.space vol .root :=
      (congrFun space _).trans (Space.opened_root like.sound.tree opens mode)
    have top' : v₁'.space vol' .root = v'.space vol' .root :=
      (congrFun space' _).trans (Space.opened_root like.sound'.tree opens' mode)
    refine ⟨?_, like.step only only' same top top' bounded⟩
    -- What was opened is a file, so it is not at the root, and both volumes have the same there.
    have nonroot : p ≠ .root := fun e =>
      absurd (e ▸ same.root) (show (v₁.space vol).IsFile p from ⟨_, _, found⟩).not_isDirectory
    have agree := found.symm.trans ((same.below p nonroot).trans found')
    cases agree
    exact OpenFile.load_like _ flags now now' (shows.perm.trans shows'.perm.symm)
      (bounded p perm data found)

variable {f f' : OpenFile} (files : f.Like f')
include files

/-- A buffer is stored in both volumes or in neither. -/
theorem sync_alike :
    Paired vol vol' n n' OpenFile.Like ((f.sync fs).runOn v) ((f'.sync fs').runOn v') := by
  rw [OpenFile.sync, OpenFile.sync, Action.runOn_ofExcept_bind, Action.runOn_ofExcept_bind]
  obtain ⟨_, _, ho, ho', -⟩ | ⟨e, e', ho, ho'⟩ := files.checkOpen.cases
  · rw [ho, ho', files.dirty]
    cases f'.dirty with
    | false => exact fun _ _ => ⟨files.stored, like⟩
    | true =>
      -- The attributes that are stored differ in the times, of which a space says nothing.
      have changed := change_alike serves serves' like
        (.sync (Path.ofBytes f.path) f.data f.attr) (.sync (Path.ofBytes f'.path) f'.data f'.attr)
        (fun S => by rw [files.path]; rfl)
        (fun S => by rw [Space.after, Space.after, files.path, files.perm, files.data])
        files.bounded
      exact changed.bind_pure fun _ _ _ => files.stored
  · rw [ho, ho']
    exact fun _ _ => ⟨trivial, like⟩

/-- A file is given up on both sides or on neither. -/
theorem close_alike :
    Paired vol vol' n n' OpenFile.Like ((f.close fs).runOn v) ((f'.close fs').runOn v') :=
  (sync_alike serves serves' like files).bind_pure fun _ _ files => files.givenUp

theorem refill_alike {owners owners' : BackendId → FileSystem} (same : owners owner = fs)
    (same' : owners' owner' = fs') (own : f.owner = owner) (own' : f'.owner = owner')
    (data : Bytes) : Paired vol vol' n n' (fun _ _ => True) ((f.refill owners data).runOn v)
      ((f'.refill owners' data).runOn v') := by
  rw [OpenFile.refill, OpenFile.refill, Volumes.runOn_now_bind, Volumes.runOn_now_bind,
    Action.runOn_ofExcept_bind, Action.runOn_ofExcept_bind]
  obtain ⟨g, g', hw, hw', written⟩ | ⟨e, e', hw, hw'⟩ :=
    (files.write 0 data v.ambient.now v'.ambient.now).cases
  · have kept : g.owner = owner := (OpenFile.write_owner hw).trans own
    have kept' : g'.owner = owner' := (OpenFile.write_owner hw').trans own'
    rw [hw, hw']
    dsimp only
    rw [kept, kept', same, same']
    exact (close_alike serves serves' like.ticked written).bind_pure fun _ _ _ => trivial
  · rw [hw, hw']
    exact fun _ _ => ⟨trivial, like.ticked⟩

omit files

/-- A file is given a new content in both volumes or in neither. -/
theorem writeAll_alike {owners owners' : BackendId → FileSystem} (same : owners owner = fs)
    (same' : owners' owner' = fs') (p : Path) (data : Bytes) :
    Paired vol vol' n n' (fun _ _ => True) ((fs.writeAll owners p data).runOn v)
      ((fs'.writeAll owners' p data).runOn v') := by
  rw [FileSystem.writeAll_eq, FileSystem.writeAll_eq]
  refine (openFile_alike serves serves' like p .replacing newFilePerm).bind ?_ ?_ ?_
  · intro f v₁ hr
    have only := serves.changesOnly_openFile like.sound p .replacing newFilePerm
    rw [hr] at only
    exact (serves.changesOnly_refill (only.sound like.sound) same
      (serves.owner_of_openFile like.sound hr) data).draws
  · intro f v₁ hr
    have only := serves'.changesOnly_openFile like.sound' p .replacing newFilePerm
    rw [hr] at only
    exact (serves'.changesOnly_refill (only.sound like.sound') same'
      (serves'.owner_of_openFile like.sound' hr) data).draws
  · intro f f' v₁ v₁' hr hr' files like'
    exact refill_alike serves serves' like' files same same'
      (serves.owner_of_openFile like.sound hr) (serves'.owner_of_openFile like.sound' hr') data

end Calls

end MountSpace
