import MountSpace.Proofs.Located

/-!
# What calls leave alone

Calls that come only to certain places leave alone what the changes there cannot touch: a directory
stays one unless it is removed or moved itself or with a directory above it, and what stands at a
path stays the same unless something happens at that path or to what lies above it.

- `Space.Step.isDirectory`, `Space.Step.same`: one step of a space.
- `Volumes.Retains`: a table is as it should be, and so is what the volumes look like.
- `Reach.Spares`: what is to be retained survives the steps of the volumes within reach.
- `Reach.Covers`: a table sends calls to places within reach only.
- `keepsAt_fileSystem`, `keepsAt_table`: backends that keep a tree themselves and the composite over
  them keep what is to be retained.
- `Retains.mount_cases`, `Retains.unmount_cases`: so do mounting and unmounting, which change the
  table alone once the directories above the mount point are there.
-/

namespace MountSpace

open MountSpace.Action

/-! ## One step of a space -/

namespace Space.Step

variable {near clear : Path → Prop} {S S' : Space} {d : Path}

/-- A directory is still one unless it may be cleared away: everything else that takes the place of
an entry takes that of a file or of nothing. -/
theorem isDirectory (step : S.Step near clear S') (kept : ∀ r, clear r → ¬r.isPrefixOf d = true)
    (dir : S.IsDirectory d) : S'.IsDirectory d := by
  have other : ∀ {r : Path}, (¬S.IsDirectory r) → d ≠ r := fun no e => no (e ▸ dir)
  obtain ⟨perm, found⟩ := dir
  cases step with
  | idle => exact ⟨perm, found⟩
  | change c within allowed =>
    cases c with
    | mkdir p mode =>
      exact ⟨perm, (put_other _ (other fun no => no.ne_none allowed.1)).trans found⟩
    | unlink p => exact ⟨perm, (remove_other (other (IsFile.not_isDirectory allowed))).trans found⟩
    | rmdir p =>
      have ne : d ≠ p := fun e => kept p within (e ▸ Path.isPrefixOf_self d)
      exact ⟨perm, (remove_other ne).trans found⟩
    | rename source target =>
      exact ⟨perm, (relocate_other (kept _ within.2) (kept _ within.1)).trans found⟩
    | sync p data attr =>
      exact ⟨perm, (put_other _ (other (IsFile.not_isDirectory allowed))).trans found⟩
  | opened p flags mode here opens =>
    by_cases free : S p = none
    · rw [opened_free free]
      exact ⟨perm, (put_other _ (other fun no => no.ne_none free)).trans found⟩
    · rw [opened_taken free]
      exact ⟨perm, found⟩

/-- What stands at a path is the same if nothing happens there and nothing above
it is cleared away. -/
theorem same (step : S.Step near clear S') (far : ¬near d)
    (kept : ∀ r, clear r → ¬r.isPrefixOf d = true) :
    S' d = S d := by
  have other : ∀ {r : Path}, near r → d ≠ r := fun here e => far (e ▸ here)
  cases step with
  | idle => rfl
  | change c within allowed =>
    cases c with
    | mkdir p mode => exact put_other _ (other within)
    | unlink p => exact remove_other (other within)
    | rmdir p => exact remove_other fun e => kept p within (e ▸ Path.isPrefixOf_self d)
    | rename source target => exact relocate_other (kept _ within.2) (kept _ within.1)
    | sync p data attr => exact put_other _ (other within)
  | opened p flags mode here opens => exact opened_other mode (other here)

end Space.Step

/-! ## What is to be retained -/

/-- Everything is in order, a table is as it should be, and so is what each volume looks like. -/
structure Volumes.Retains (backends : List Backend) (table : Nat) (T : MountTable → Prop)
    (G : Volume → Space → Prop) (v : Volumes) : Prop where
  inOrder : v.InOrder backends
  table : T (v.tables table)
  spaces : ∀ vol, G vol (v.space vol)

/-- Calls within reach come only to backends that keep a tree themselves, and what is to be retained
survives what they do there. -/
structure Reach.Spares (R : Reach) (backends : List Backend)
    (G : Volume → Space → Prop) : Prop where
  leaf : ∀ c r, R.near c r ∨ R.clear c r → ∃ vol, backends[c]?.bind Backend.volume? = some vol
  step : ∀ (c : BackendId) vol, backends[c]?.bind Backend.volume? = some vol → ∀ S S' : Space,
    S.Step (R.near c) (R.clear c) S' → G vol S → G vol S'

/-- A table sends calls to places within reach only, and lets only such places be
cleared away as may be. -/
structure Reach.Covers (R : Reach) (t : MountTable) : Prop where
  near : ∀ q, R.Near t q
  clear : ∀ q, t.IsClear q → R.Clear t q

section

variable {backends : List Backend} {table : Nat} {T : MountTable → Prop} {G : Volume → Space → Prop}
variable {R : Reach} {v : Volumes} {b : BackendId}

theorem Volumes.Retains.ticked (h : v.Retains backends table T G) :
    v.ticked.Retains backends table T G where
  inOrder := h.inOrder.ticked
  table := h.table
  spaces := fun vol => (v.space_ticked vol).symm ▸ h.spaces vol

/-- One volume may take a step that what is to be retained survives. -/
theorem Volumes.Retains.changesOnly {v' : Volumes} {vol : Volume} (h : v.Retains backends table T G)
    (only : v.ChangesOnly v' vol) (kept : G vol (v.space vol) → G vol (v'.space vol)) :
    v'.Retains backends table T G where
  inOrder := h.inOrder.changesOnly only
  table := only.tables ▸ h.table
  spaces := fun u => by
    by_cases e : u = vol
    · exact e ▸ kept (h.spaces vol)
    · rw [only.space_other e]
      exact h.spaces u

/-- A table may be replaced by one that mounts nothing twice. -/
theorem Volumes.Retains.withTable {t' : MountTable} (h : v.Retains backends table T G)
    (valid : t'.Valid) :
    Volumes.Retains backends table (· = t') G { v with tables := setAt v.tables table t' } where
  inOrder := h.inOrder.withTable table valid
  table := setAt_self ..
  spaces := fun vol => by cases vol <;> exact h.spaces _

/-- Unmounting fails, or changes the table. -/
theorem Volumes.Retains.unmount_cases (there : backends[b]? = some (.composite table))
    (h : v.Retains backends table T G) (p : Path) :
    (∃ e, (v.tables table).remove p = .error e ∧
      (Composite.unmount table p).runOn v = (.error e, v)) ∨
      ∃ c t' v', (v.tables table).remove p = .ok (c, t') ∧
        (Composite.unmount table p).runOn v = (.ok c, v') ∧
        v'.Retains backends table (· = t') G := by
  rw [Composite.unmount, runOn_get_bind, runOn_ofExcept_bind]
  cases hr : (v.tables table).remove p with
  | error e => exact .inl ⟨e, rfl, rfl⟩
  | ok r =>
    obtain ⟨c, t'⟩ := r
    exact .inr ⟨c, t', _, rfl, rfl, h.withTable ((h.inOrder.valid b table there).remove hr)⟩

variable (spares : R.Spares backends G)
include spares

/-- Every backend keeps what is to be retained for calls within reach. -/
theorem keepsAt_fileSystem (hops : Nat) (c : BackendId) :
    (fileSystem backends hops c).KeepsAt (Volumes.Retains backends table T G) (R.near c)
      (R.clear c) R.Holds := by
  cases hv : backends[c]?.bind Backend.volume? with
  | none =>
    have nowhere : ∀ r, ¬(R.near c r ∨ R.clear c r) := fun r here => by
      obtain ⟨vol, found⟩ := spares.leaf c r here
      cases hv.symm.trans found
    exact FileSystem.keepsAt_nothing _ (fun r here => nowhere r (.inl here)) fun r here =>
      nowhere r (.inr here)
  | some vol =>
    obtain ⟨x, hx, hvol⟩ := Option.bind_eq_some_iff.1 hv
    have sound : ∀ v : Volumes, v.Retains backends table T G → v.SoundAt vol :=
      fun v h => h.inOrder.sound c x vol hx hvol
    have closed : ∀ v v' : Volumes, v.Retains backends table T G → v.ChangesOnly v' vol →
        (v.space vol).Step (R.near c) (R.clear c) (v'.space vol) → v'.Retains backends table T G :=
      fun v v' h only step => h.changesOnly only (spares.step c vol hv _ _ step)
    have held : ∀ f : OpenFile, f.owner = c → R.near c (Path.ofBytes f.path) → R.Holds f :=
      fun f own here => by rwa [Reach.Holds, own]
    cases x with
    | memory i =>
      cases hvol
      rw [fileSystem_memory hx]
      exact (memory_serves c i).keepsAt sound closed held
    | keyValue j readOnly =>
      cases hvol
      rw [fileSystem_keyValue hx]
      exact (keyValue_serves c j readOnly).keepsAt sound closed held
    | faulty inner faults capabilities => cases hvol
    | composite table' => cases hvol

/-- Storing a file that belongs within reach keeps what is to be retained. -/
theorem keeps_stored {f : OpenFile} (held : R.Holds f) (hops : Nat) (data : Bytes)
    (attr : FileAttr) : Action.Keeps (Volumes.Retains backends table T G)
      ((fileSystem backends hops f.owner).change (.sync (Path.ofBytes f.path) data attr)) :=
  (keepsAt_fileSystem spares hops f.owner).change (.sync _ data attr) held

/-- If calls may come to every backend that keeps a tree itself, then any file may be
stored by any backend. -/
theorem keeps_sync_anywhere (plain : ∀ (b : Nat) (x : Backend), backends[b]? = some x →
      ∃ n, x.Within n)
    (near : ∀ (c : BackendId) r vol, backends[c]?.bind Backend.volume? = some vol → R.near c r)
    (hops : Nat) (c : BackendId) (p : Path) (data : Bytes) (attr : FileAttr) :
    Action.Keeps (Volumes.Retains backends table T G)
      ((fileSystem backends hops c).change (.sync p data attr)) := by
  intro v h
  show Volumes.Retains backends table T G
    (((fileSystem backends hops c).sync p data attr).runOn v).2
  cases hl : locate backends v.tables hops c p with
  | none =>
    rw [sync_lost plain hl]
    exact h
  | some pl =>
    have arr := locate_arrived hl
    have here : R.near pl.backend pl.path := by
      rcases arrived_cases arr with ⟨i, hb, -⟩ | ⟨j, readOnly, hb, -⟩
      · exact near pl.backend pl.path (.tree i) (by rw [hb]; rfl)
      · exact near pl.backend pl.path (.store j) (by rw [hb]; rfl)
    rw [sync_located hl, ← fileSystem_arrived arr hops]
    exact (keepsAt_fileSystem spares hops pl.backend).change (.sync pl.path data attr) here v h

/-- Mounting fails and leaves the table as it was, or changes the table. Directories are made above
the mount point, which must be within reach. -/
theorem Volumes.Retains.mount_cases (there : backends[b]? = some (.composite table))
    (h : v.Retains backends table T G) {p : Path}
    (here : ∀ a ∈ p.strictAncestors, R.Near (v.tables table) a) (hops : Nat) (c : BackendId) :
    (∃ e v', (Composite.mount (fileSystem backends hops) table p c).runOn v = (.error e, v') ∧
        v'.Retains backends table T G) ∨
      ∃ t' name v', (v.tables table).insert p c name = .ok t' ∧
        (Composite.mount (fileSystem backends hops) table p c).runOn v = (.ok (), v') ∧
        v'.Retains backends table (· = t') G := by
  generalize hn : (fileSystem backends hops c).name = name
  have ancestors : Action.Keeps (Volumes.Retains backends table T G)
      (Composite.ensureAncestors (fileSystem backends hops) (v.tables table) p) :=
    Composite.keeps_ensureAncestors (keepsAt_fileSystem spares hops) here
  have kept := ancestors v h
  rw [Composite.mount, runOn_get_bind, runOn_ofExcept_bind, hn]
  cases (v.tables table).checkAvailable p c name with
  | error e => exact .inl ⟨e, v, rfl, h⟩
  | ok _ =>
    dsimp only
    rw [runOn_bind]
    generalize
      (Composite.ensureAncestors (fileSystem backends hops) (v.tables table) p).runOn v = made
      at kept
    obtain ⟨e | _, v₁⟩ := made
    · exact .inl ⟨e, v₁, rfl, kept⟩
    · dsimp only
      rw [runOn_ofExcept_bind]
      cases hi : (v.tables table).insert p c name with
      | error e => exact .inl ⟨e, v₁, rfl, kept⟩
      | ok t' =>
        exact .inr ⟨t', name, _, hi, rfl,
          kept.withTable ((h.inOrder.valid b table there).insert hi)⟩

/-- A composite keeps what is to be retained, whatever is asked of it. -/
theorem keepsAt_table (covers : ∀ t, T t → R.Covers t)
    (there : backends[b]? = some (.composite table)) (hops : Nat) :
    (fileSystem backends hops b).KeepsAt (Volumes.Retains backends table T G)
    (fun _ => True) (fun _ => True) R.Holds := by
  cases hops with
  | zero =>
    rw [fileSystem, there]
    exact FileSystem.keepsAt_failing _
  | succ hops =>
    rw [fileSystem_composite there]
    exact FileSystem.keepsAt_composite (keepsAt_fileSystem spares hops) (fun _ h => h.ticked)
      (fun v h => (covers _ h.table).near) fun v h => (covers _ h.table).clear

end

end MountSpace
