import MountSpace.Proofs.Routes
import MountSpace.Proofs.Serves

/-!
# What calls keep

A property of the volumes that every change and every opening of a file keeps, at each of some
backends, is kept by everything that is made of such calls: by composites over these backends, by
files that are stored and given up, and by the directories that are created above a mount. It is
enough that the backends keep it for calls at the places that a table sends calls to.

- `Reach`: the places that some calls may come to, and those that they may clear away.
- `FileSystem.KeepsAt`: a backend keeps a property for calls within reach, and files that are opened
  belong to places within reach. `FileSystem.Keeps`: it keeps a property for all calls.
- `Space.Step`, `Serves.keepsAt`: a backend that answers for a volume keeps what survives the
  changes of that volume that are within reach.
- `fileSystem_keepsAt`: what the backends of a group keep that keep a tree themselves,
  all of the group keep.
- `FileSystem.keepsAt_composite`, `keeps_writeAll`, `OpenFile.keeps_close`,
  `Composite.keeps_ensureAncestors`, `keeps_mount`, `keeps_unmount`: what is made of calls.
-/

namespace MountSpace

open MountSpace.Action

/-! ## Calls within reach -/

/-- The places that some calls may come to: those at which something may be made, read or stored,
and those from which what stands there may be taken away with all that lies below. -/
structure Reach where
  near : BackendId → Path → Prop
  clear : BackendId → Path → Prop

/-- An open file is stored at a place within reach. -/
def Reach.Holds (R : Reach) (f : OpenFile) : Prop := R.near f.owner (Path.ofBytes f.path)

/-- Calls may come to every place. -/
def Reach.all : Reach := ⟨fun _ _ => True, fun _ _ => True⟩

/-- A change concerns only certain paths. -/
def Change.Within (near clear : Path → Prop) : Change → Prop
  | .mkdir p _ => near p
  | .unlink p => near p
  | .rmdir p => clear p
  | .rename source target => clear source ∧ clear target
  | .sync p _ _ => near p

/-- A property of the volumes survives the calls to a backend that concern only certain paths, also
those that fail, and the files that are opened have a property. -/
structure FileSystem.KeepsAt (P : Volumes → Prop) (near clear : Path → Prop) (Q : OpenFile → Prop)
    (fs : FileSystem) : Prop where
  change : ∀ c : Change, c.Within near clear → Action.Keeps P (fs.change c)
  openFile : ∀ p flags mode, near p → Action.Yields P Q (fs.openFile p flags mode)

/-- A property of the volumes survives all calls to a backend, also those that fail. -/
structure FileSystem.Keeps (P : Volumes → Prop) (fs : FileSystem) : Prop where
  change : ∀ c, Action.Keeps P (fs.change c)
  openFile : ∀ p flags mode, Action.Keeps P (fs.openFile p flags mode)

variable {P : Volumes → Prop} {Q : OpenFile → Prop} {near clear : Path → Prop}

theorem Change.within_all (c : Change) : c.Within (fun _ => True) fun _ => True := by
  cases c with
  | rename source target => exact ⟨trivial, trivial⟩
  | _ => trivial

theorem FileSystem.KeepsAt.keeps {fs : FileSystem}
    (keeps : fs.KeepsAt P (fun _ => True) (fun _ => True) Q) : fs.Keeps P where
  change := fun c => keeps.change c c.within_all
  openFile := fun p flags mode => (keeps.openFile p flags mode trivial).keeps

/-- What is kept for all calls is kept for certain ones. -/
theorem FileSystem.KeepsAt.within {fs : FileSystem}
    (keeps : fs.KeepsAt P (fun _ => True) (fun _ => True) Q) : fs.KeepsAt P near clear Q where
  change := fun c _ => keeps.change c c.within_all
  openFile := fun p flags mode _ => keeps.openFile p flags mode trivial

theorem FileSystem.Keeps.keepsAt {fs : FileSystem} (keeps : fs.Keeps P) (b : BackendId) :
    fs.KeepsAt P (Reach.all.near b) (Reach.all.clear b) Reach.all.Holds where
  change := fun c _ => keeps.change c
  openFile := fun p flags mode _ => (keeps.openFile p flags mode).yields

/-- A backend that nothing may be asked of keeps everything. -/
theorem FileSystem.keepsAt_nothing (fs : FileSystem) (near' : ∀ p, ¬near p)
    (clear' : ∀ p, ¬clear p) : fs.KeepsAt P near clear Q where
  change := by
    intro c within
    cases c with
    | mkdir p mode => exact absurd within (near' p)
    | unlink p => exact absurd within (near' p)
    | rmdir p => exact absurd within (clear' p)
    | rename source target => exact absurd within.1 (clear' source)
    | sync p data attr => exact absurd within (near' p)
  openFile := fun p _ _ here => absurd here (near' p)

theorem FileSystem.keepsAt_failing (e : FsError) :
    (FileSystem.failing e).KeepsAt P near clear Q where
  change := fun c _ => by cases c <;> exact keeps_throw e
  openFile := fun _ _ _ _ => yields_throw e

/-- Reading the clock changes nothing but the clock. -/
theorem Volumes.keeps_now (ticks : ∀ v : Volumes, P v → P v.ticked) : Action.Keeps P Volumes.now :=
  keeps_modifyGet ticks

/-! ## Backends that answer for a volume -/

/-- What one call that concerns only certain paths makes of a space: nothing, or what an allowed
change or the opening of a file leaves. -/
inductive Space.Step (near clear : Path → Prop) (S : Space) : Space → Prop
  | idle : Step near clear S S
  | change (c : Change) (within : c.Within near clear) (allowed : S.Allows c) :
      Step near clear S (S.after c)
  | opened (p : Path) (flags : OpenFlags) (mode : UInt32) (here : near p)
      (opens : S.Opens p flags) :
      Step near clear S (S.opened p mode)

/-- A backend that answers for a volume keeps what survives the steps of that volume. -/
theorem Serves.keepsAt {fs : FileSystem} {owner : BackendId} {vol : Volume} {readOnly : Bool}
    (serves : Serves fs owner vol readOnly) (sound : ∀ v, P v → v.SoundAt vol)
    (closed : ∀ v v' : Volumes, P v → v.ChangesOnly v' vol →
      (v.space vol).Step near clear (v'.space vol) → P v')
    (held : ∀ f : OpenFile, f.owner = owner → near (Path.ofBytes f.path) → Q f) :
    fs.KeepsAt P near clear Q where
  change := by
    intro c within v h
    have settles := serves.change v c (sound v h)
    generalize (fs.change c).runOn v = r at settles
    obtain ⟨e | _, v'⟩ := r
    · obtain ⟨only, same, -⟩ := settles
      exact closed v v' h only (same ▸ .idle)
    · obtain ⟨only, -, allowed, after⟩ := settles
      exact closed v v' h only (after ▸ .change c within allowed)
  openFile := by
    intro p flags mode here v h
    have settles := serves.openFile v p flags mode (sound v h)
    generalize (fs.openFile p flags mode).runOn v = r at settles
    obtain ⟨e | f, v'⟩ := r
    · obtain ⟨only, same, -⟩ := settles
      refine ⟨closed v v' h only (same ▸ .idle), fun f e => ?_⟩
      cases e
    · obtain ⟨only, -, opens, after, perm, data, attr, now, -, -, rfl⟩ := settles
      refine ⟨closed v v' h only (after ▸ .opened p flags mode here opens), fun f e => ?_⟩
      cases e
      refine held _ (OpenFile.owner_load ..) ?_
      rwa [OpenFile.path_load, Path.ofBytes_spelling]

/-- A backend that answers for a volume keeps what survives changes of that volume. -/
theorem Serves.keeps {fs : FileSystem} {owner : BackendId} {vol : Volume} {readOnly : Bool}
    (serves : Serves fs owner vol readOnly) (sound : ∀ v, P v → v.SoundAt vol)
    (closed : ∀ v v' : Volumes, P v → v.ChangesOnly v' vol → P v') : fs.Keeps P :=
  (serves.keepsAt (Q := fun _ => True) sound (fun v v' h only _ => closed v v' h only)
    fun _ _ _ => trivial).keeps

/-! ## Open files -/

/-- Storing a file keeps what the call to its owner keeps. -/
theorem OpenFile.keeps_sync {fs : FileSystem} {f : OpenFile}
    (keeps : Action.Keeps P (fs.change (.sync (Path.ofBytes f.path) f.data f.attr))) :
    Action.Keeps P (f.sync fs) := by
  refine (keeps_ofExcept _).bind fun _ => ?_
  dsimp only
  split
  · exact keeps.bind fun _ => keeps_pure _
  · exact keeps_pure _

theorem OpenFile.keeps_close {fs : FileSystem} {f : OpenFile}
    (keeps : Action.Keeps P (fs.change (.sync (Path.ofBytes f.path) f.data f.attr))) :
    Action.Keeps P (f.close fs) := (keeps_sync keeps).bind fun _ => keeps_pure _

theorem OpenFile.keeps_refill {owners : BackendId → FileSystem} {f : OpenFile}
    (keeps : ∀ data attr,
      Action.Keeps P ((owners f.owner).change (.sync (Path.ofBytes f.path) data attr)))
    (ticks : ∀ v : Volumes, P v → P v.ticked) (data : Bytes) :
    Action.Keeps P (f.refill owners data) := by
  refine (Volumes.keeps_now ticks).bind fun _ => keeps_ofExcept_bind fun g written => ?_
  rw [(write_ok written).1]
  exact (keeps_close (f := f.withData _ _) (keeps _ _)).discard

theorem FileSystem.keeps_writeAll {fs : FileSystem} {owners : BackendId → FileSystem}
    (keeps : fs.KeepsAt P near clear Q)
    (keeps' : ∀ f : OpenFile, Q f → ∀ data attr,
      Action.Keeps P ((owners f.owner).change (.sync (Path.ofBytes f.path) data attr)))
    (ticks : ∀ v : Volumes, P v → P v.ticked) {p : Path} (here : near p) (data : Bytes) :
    Action.Keeps P (fs.writeAll owners p data) :=
  (keeps.openFile p .replacing newFilePerm here).bind fun f held =>
    OpenFile.keeps_refill (keeps' f held) ticks data

/-! ## Composites -/

namespace Composite

variable {t : MountTable} {p : Path} {r : Route}

theorem guardMountPoint_free (free : t.isMountPoint p = false) :
    guardMountPoint t p = .ok (t.resolve p) := by
  rw [guardMountPoint, if_neg (Bool.eq_false_iff.1 free)]

theorem guardMountPoint_mount (mounted : t.isMountPoint p = true) :
    guardMountPoint t p = .error (.busy p.toText) := by
  rw [guardMountPoint, if_pos mounted]

theorem guardSubtree_clear (h : t.IsClear p) : guardSubtree t p = .ok (t.resolve p) := by
  rw [guardSubtree, h.1, h.2]
  rfl

theorem guardSubtree_busy (h : ¬t.IsClear p) : guardSubtree t p = .error (.busy p.toText) := by
  refine if_pos (Classical.byContradiction fun free => h ?_)
  rwa [Bool.not_eq_true, Bool.or_eq_false_iff] at free

theorem guardMountPoint_ok (h : guardMountPoint t p = .ok r) : r = t.resolve p := by
  cases mounted : t.isMountPoint p with
  | true =>
    rw [guardMountPoint_mount mounted] at h
    cases h
  | false =>
    rw [guardMountPoint_free mounted] at h
    exact (Except.ok.inj h).symm

theorem guardSubtree_ok (h : guardSubtree t p = .ok r) : r = t.resolve p ∧ t.IsClear p := by
  by_cases free : t.IsClear p
  · rw [guardSubtree_clear free] at h
    exact ⟨(Except.ok.inj h).symm, free⟩
  · rw [guardSubtree_busy free] at h
    cases h

end Composite

section Composite

variable {child : BackendId → FileSystem} {R : Reach}
variable (keeps : ∀ b, (child b).KeepsAt P (R.near b) (R.clear b) R.Holds)

/-- The place that a table sends a path to is within reach. -/
def Reach.Near (R : Reach) (t : MountTable) (p : Path) : Prop :=
  R.near (t.resolve p).backend (t.resolve p).relative

/-- What stands at the place that a table sends a path to may be taken away. -/
def Reach.Clear (R : Reach) (t : MountTable) (p : Path) : Prop :=
  R.clear (t.resolve p).backend (t.resolve p).relative

include keeps

theorem Composite.keeps_removeCopy {target : Route} (here : R.near target.backend target.relative) :
    Action.Keeps P (Composite.removeCopy child target) :=
  ((keeps target.backend).change (.unlink target.relative) here).tryCatch fun _ => keeps_pure _

theorem Composite.keeps_ensureDirectory {t : MountTable} {p : Path} (here : R.Near t p) :
    Action.Keeps P (Composite.ensureDirectory child t p) := by
  rw [Composite.ensureDirectory]
  split
  · exact keeps_pure _
  · refine keeps_get_bind fun v _ => ?_
    split
    · split
      · exact keeps_pure _
      · exact keeps_throw _
    · split
      · exact (keeps _).change (.mkdir _ _) here
      · exact keeps_throw _

theorem Composite.keeps_ensureAncestors {t : MountTable} {p : Path}
    (here : ∀ a ∈ p.strictAncestors, R.Near t a) :
    Action.Keeps P (Composite.ensureAncestors child t p) :=
  keeps_forM _ fun a ha => keeps_ensureDirectory keeps (here a ha)

/-- A mount creates directories above it, and inserts what it found to be possible before. -/
theorem Composite.keeps_mount {table : Nat} {p : Path} {c : BackendId}
    (here : ∀ v, P v → ∀ a ∈ p.strictAncestors, R.Near (v.tables table) a)
    (inserted : ∀ v w t, P v → P w → (v.tables table).insert p c (child c).name = .ok t →
      P { w with tables := setAt w.tables table t }) :
    Action.Keeps P (Composite.mount child table p c) := by
  refine keeps_get_bind fun v h => keeps_ofExcept_bind fun _ _ => ?_
  refine (Composite.keeps_ensureAncestors keeps (here v h)).bind fun _ => ?_
  exact keeps_ofExcept_bind fun t ht => keeps_modify fun w hw => inserted v w t h hw ht

omit keeps in
theorem Composite.keeps_unmount {table : Nat} {p : Path}
    (removed : ∀ v c t, P v → (v.tables table).remove p = .ok (c, t) →
      P { v with tables := setAt v.tables table t }) :
      Action.Keeps P (Composite.unmount table p) := by
  intro v h
  unfold Composite.unmount
  rw [runOn_get_bind, runOn_ofExcept_bind]
  cases ht : (v.tables table).remove p with
  | error e => exact h
  | ok r => exact removed v r.1 r.2 h ht

variable (ticks : ∀ v : Volumes, P v → P v.ticked)
include ticks

theorem Composite.keeps_renameAcross {source target : Route}
    (here : R.near source.backend source.relative) (there : R.near target.backend target.relative) :
    Action.Keeps P (Composite.renameAcross child source target) := by
  rw [Composite.renameAcross]
  dsimp only
  split
  · exact keeps_throw _
  refine keeps_get_bind fun v _ => (keeps_ofExcept _).bind fun attr => ?_
  split
  · exact keeps_throw _
  refine keeps_get_bind fun v _ => (keeps_ofExcept _).bind fun data => ?_
  refine ((keeps _).openFile _ _ _ there).bind fun copy held =>
    (Volumes.keeps_now ticks).bind fun now => ?_
  refine keeps_ofExcept_bind fun filled written => ?_
  -- The filled copy belongs to the place at which it was opened.
  rw [(OpenFile.write_ok written).1]
  refine (OpenFile.keeps_close (f := copy.withData _ _)
    ((keeps _).change (.sync _ _ _) held)).discard.bind fun _ => ?_
  refine ((keeps _).change (.unlink source.relative) here).tryCatch fun e => ?_
  exact (keeps_removeCopy keeps there).bind fun _ => keeps_throw e

theorem Composite.keeps_rename {t : MountTable} {source target : Path} (here : R.Near t source)
    (there : R.Near t target) (clear : ∀ q, t.IsClear q → R.Clear t q) :
    Action.Keeps P (Composite.rename child t source target) := by
  refine keeps_ofExcept_bind fun s hs => keeps_ofExcept_bind fun d hd => ?_
  obtain ⟨rfl, source'⟩ := guardSubtree_ok hs
  obtain ⟨rfl, target'⟩ := guardSubtree_ok hd
  have clear' := clear target target'
  split
  next same =>
    rw [Reach.Clear, ← same] at clear'
    exact (keeps _).change (.rename _ _) ⟨clear source source', clear'⟩
  next => exact keeps_renameAcross keeps ticks here there

/-- A composite keeps what its backends keep for calls within reach, if its table sends
calls nowhere else. -/
theorem FileSystem.keepsAt_composite {table : Nat}
    (near : ∀ v, P v → ∀ q, R.Near (v.tables table) q)
    (clear : ∀ v, P v → ∀ q, (v.tables table).IsClear q → R.Clear (v.tables table) q) :
    (FileSystem.composite table child).KeepsAt P (fun _ => True) (fun _ => True) R.Holds where
  change := by
    intro c _
    cases c with
    | mkdir p mode =>
      refine keeps_get_bind fun v h => keeps_ofExcept_bind fun r hr => ?_
      rw [Composite.guardMountPoint_ok hr]
      exact (keeps _).change (.mkdir _ mode) (near v h p)
    | unlink p =>
      refine keeps_get_bind fun v h => keeps_ofExcept_bind fun r hr => ?_
      rw [Composite.guardMountPoint_ok hr]
      exact (keeps _).change (.unlink _) (near v h p)
    | rmdir p =>
      refine keeps_get_bind fun v h => keeps_ofExcept_bind fun r hr => ?_
      obtain ⟨rfl, free⟩ := Composite.guardSubtree_ok hr
      exact (keeps _).change (.rmdir _) (clear v h p free)
    | rename source target =>
      exact keeps_get_bind fun v h =>
        Composite.keeps_rename keeps ticks (near v h source) (near v h target) (clear v h)
    | sync p data attr =>
      exact keeps_get_bind fun v h => (keeps _).change (.sync _ data attr) (near v h p)
  openFile := fun p flags mode _ v h => (keeps _).openFile _ flags mode (near v h p) v h

end Composite

/-! ## Backends that call each other -/

/-- A backend before another one changes nothing itself. -/
theorem FileSystem.keepsAt_faulty {self : BackendId} {inner : FileSystem} {Q' : OpenFile → Prop}
    (keeps : inner.KeepsAt P (fun _ => True) (fun _ => True) Q') (faults : List Fault)
    (capabilities : Option Capabilities) (ticks : ∀ v : Volumes, P v → P v.ticked)
    (held : ∀ f : OpenFile, f.owner = self → Q f) :
    (FileSystem.faulty self inner faults capabilities).KeepsAt P
      (fun _ => True) (fun _ => True) Q where
  change := by
    intro c _
    cases c with
    | mkdir p mode => exact (keeps_ofExcept _).bind fun _ => keeps.change (.mkdir p mode) trivial
    | unlink p => exact (keeps_ofExcept _).bind fun _ => keeps.change (.unlink p) trivial
    | rmdir p => exact (keeps_ofExcept _).bind fun _ => keeps.change (.rmdir p) trivial
    | rename source target =>
      exact (keeps_ofExcept _).bind fun _ => keeps.change (.rename source target) ⟨trivial, trivial⟩
    | sync p data attr =>
      exact (keeps_ofExcept _).bind fun _ => keeps.change (.sync p data attr) trivial
  openFile := by
    intro p flags mode _
    refine (keeps_ofExcept _).bind_yields fun _ => ?_
    refine (keeps.openFile p flags mode trivial).bind_yields fun f _ =>
      yields_get_bind fun v _ => ?_
    refine (keeps_ofExcept _).bind_yields fun data => ?_
    exact (Volumes.keeps_now ticks).bind_yields fun _ =>
      yields_pure (held _ (OpenFile.owner_load ..))

/-- Calls come to certain backends only. -/
def Reach.group (group : BackendId → Prop) : Reach := ⟨fun b _ => group b, fun b _ => group b⟩

/-- Backends of a group are within reach, and nothing is asked of others. -/
theorem FileSystem.keepsAt_group {group : BackendId → Prop} {child : BackendId → FileSystem}
    (asked : ∀ c, group c → (child c).KeepsAt P (fun _ => True) (fun _ => True) fun f =>
      group f.owner)
    (c : BackendId) :
    (child c).KeepsAt P ((Reach.group group).near c) ((Reach.group group).clear c)
      (Reach.group group).Holds := by
  by_cases inside : group c
  · exact (asked c inside).within
  · exact FileSystem.keepsAt_nothing _ (fun _ near => inside near) fun _ clear => inside clear

/-- What the backends of a group keep that keep a tree themselves is kept by all of the group, if
they lead to no others, and files that are opened belong to the group. -/
theorem fileSystem_keepsAt {backends : List Backend} (group : BackendId → Prop)
    (ticks : ∀ v : Volumes, P v → P v.ticked)
    (memory : ∀ (b : Nat) tree, group b → backends[b]? = some (.memory tree) →
      (FileSystem.memory b tree).KeepsAt P (fun _ => True) (fun _ => True) fun f => group f.owner)
    (keyValue : ∀ (b : Nat) store readOnly, group b →
      backends[b]? = some (.keyValue store readOnly) →
      (FileSystem.keyValue b store readOnly).KeepsAt P (fun _ => True) (fun _ => True) fun f =>
      group f.owner)
    (faulty : ∀ (b : Nat) inner faults capabilities, group b →
      backends[b]? = some (.faulty inner faults capabilities) → group inner)
    (routed : ∀ v, P v → ∀ (b : Nat) table q, group b → backends[b]? = some (.composite table) →
      group ((v.tables table).resolve q).backend) :
    ∀ hops b, group b →
      (fileSystem backends hops b).KeepsAt P (fun _ => True) (fun _ => True) fun f =>
      group f.owner := by
  -- The induction is on the bound: what a backend sends on it sends to one of the group.
  intro hops
  induction hops with
  | zero =>
    intro b here
    rw [fileSystem]
    split
    next tree hb => exact memory b tree here hb
    next j readOnly hb => exact keyValue b j readOnly here hb
    next => exact FileSystem.keepsAt_failing _
  | succ hops ih =>
    intro b here
    rw [fileSystem]
    split
    next tree hb => exact memory b tree here hb
    next j readOnly hb => exact keyValue b j readOnly here hb
    next inner faults capabilities hb =>
      have inside := faulty b inner faults capabilities here hb
      exact FileSystem.keepsAt_faulty (ih inner inside) faults capabilities ticks
        fun f own => own ▸ here
    next table hb =>
      exact FileSystem.keepsAt_composite (FileSystem.keepsAt_group ih) ticks
        (fun v h q => routed v h b table q here hb) fun v h q _ => routed v h b table q here hb
    next => exact FileSystem.keepsAt_failing _

end MountSpace
