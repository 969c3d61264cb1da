import MountSpace.Proofs.Places
import MountSpace.Proofs.Reachable

/-!
# What is seen at a path

A call at a path does what the backend does that the path leads to in the end, at the path there.
What is seen at a path is what stands at its place; at a path that leads nowhere there is nothing.

- `Place.fileSystem`, `Place.serves`: the backend at the end of the way.
- `stat_located`, `readAll_located`, `openFile_located`, `unlink_located`: calls at a path that
  leads to a place. `stat_lost` and others: calls at a path that goes round for ever.
- `System.locate`, `System.look`: the place of a path in a system, and what stands there.
- `System.ReadsAs`: a path has the same kind and the same content in two systems.
- `InOrder.stats_look`, `InOrder.content_look`: what is reported and read tells
  what stands at the place.
-/

namespace MountSpace

/-! ## Calls at a place -/

/-- The backend that keeps a place. -/
def Place.fileSystem (pl : Place) (backends : List Backend) : FileSystem :=
  MountSpace.fileSystem backends 0 pl.backend

section

variable {backends : List Backend} {tables : Nat → MountTable} {hops : Nat} {b : BackendId}
variable {p : Path} {pl : Place}

theorem arrived_cases (h : arrived backends (b, p) = some pl) :
    (∃ i, backends[b]? = some (.memory i) ∧ pl = ⟨b, .tree i, false, p⟩) ∨
      ∃ j readOnly, backends[b]? = some (.keyValue j readOnly) ∧
      pl = ⟨b, .store j, readOnly, p⟩ := by
  obtain ⟨x, hx, place⟩ := Option.bind_eq_some_iff.1 h
  cases x with
  | memory i =>
    cases place
    exact .inl ⟨i, hx, rfl⟩
  | keyValue j readOnly =>
    cases place
    exact .inr ⟨j, readOnly, hx, rfl⟩
  | faulty inner faults capabilities => cases place
  | composite table => cases place

/-- A backend that keeps a place does so under the path of the place. -/
theorem locate_arrived (h : locate backends tables hops b p = some pl) :
    arrived backends (pl.backend, pl.path) = some pl := by
  obtain ⟨n, ⟨c, q⟩, -, arr⟩ := exists_walked h
  rcases arrived_cases arr with ⟨i, hb, rfl⟩ | ⟨j, readOnly, hb, rfl⟩
  · exact arr
  · exact arr

/-- A backend that keeps a place keeps its other paths as well. -/
theorem arrived_beside (arr : arrived backends (pl.backend, pl.path) = some pl) (q : Path) :
    arrived backends (pl.backend, q) = some { pl with path := q } := by
  rcases arrived_cases arr with ⟨i, hb, e⟩ | ⟨j, readOnly, hb, e⟩ <;>
  · rw [arrived, hb, e]
    rfl

theorem locate_beside (arr : arrived backends (pl.backend, pl.path) = some pl) (q : Path)
    (hops : Nat) : locate backends tables hops pl.backend q = some { pl with path := q } :=
  locate_of_arrived (arrived_beside arr q) hops

/-- A path that leads somewhere is the root only if its place is one. -/
theorem locate_root (h : locate backends tables hops b .root = some pl) : pl.path = .root := by
  obtain ⟨n, ⟨c, q⟩, hn, arr⟩ := exists_walked h
  obtain ⟨u, hu⟩ := walked_suffix hn
  have root : q = .root := (Path.append_eq_root.1 hu.symm).2
  rcases arrived_cases arr with ⟨i, hb, rfl⟩ | ⟨j, readOnly, hb, rfl⟩
  · exact root
  · exact root

section

variable (h : arrived backends (pl.backend, pl.path) = some pl)
include h

/-- However often a call may still be sent on, a backend that keeps a place itself is the same. -/
theorem fileSystem_arrived (hops : Nat) :
    fileSystem backends hops pl.backend = pl.fileSystem backends := by
  rcases arrived_cases h with ⟨i, hb, -⟩ | ⟨j, readOnly, hb, -⟩
  · rw [Place.fileSystem, fileSystem_memory hb, fileSystem_memory hb]
  · rw [Place.fileSystem, fileSystem_keyValue hb, fileSystem_keyValue hb]

theorem Place.serves : Serves (pl.fileSystem backends) pl.backend pl.volume pl.readOnly := by
  rcases arrived_cases h with ⟨i, hb, e⟩ | ⟨j, readOnly, hb, e⟩
  · rw [Place.fileSystem, fileSystem_memory hb, e]
    exact memory_serves _ i
  · rw [Place.fileSystem, fileSystem_keyValue hb, e]
    exact keyValue_serves _ j readOnly

theorem Place.sound {v : Volumes} (inOrder : v.InOrder backends) : v.SoundAt pl.volume := by
  rcases arrived_cases h with ⟨i, hb, e⟩ | ⟨j, readOnly, hb, e⟩
  · rw [e]
    exact inOrder.sound _ _ _ hb rfl
  · rw [e]
    exact inOrder.sound _ _ _ hb rfl

end

/-! ## Calls at a path that leads to a place -/

/-- What stands at a path that leads to a place. -/
def Volumes.at (v : Volumes) (pl : Place) : Option Entry := v.space pl.volume pl.path

variable {v : Volumes}

theorem fileSystem_composite {table : Nat} (hb : backends[b]? = some (.composite table))
    (hops : Nat) :
    fileSystem backends (hops + 1) b = .composite table (fileSystem backends hops) := by
  rw [fileSystem, hb]

/-- Induction along the way to a place, from its end. -/
theorem locate_induction {motive : Nat → BackendId → Path → Prop}
    (arrive : ∀ hops, fileSystem backends hops pl.backend = pl.fileSystem backends →
      motive hops pl.backend pl.path)
    (onward : ∀ hops b p table, backends[b]? = some (.composite table) →
      locate backends tables hops ((tables table).resolve p).backend
        ((tables table).resolve p).relative =
        some pl →
      motive hops ((tables table).resolve p).backend ((tables table).resolve p).relative →
      motive (hops + 1) b p)
    (h : locate backends tables hops b p = some pl) : motive hops b p := by
  have arrive' : ∀ hops b p, arrived backends (b, p) = some pl → motive hops b p := by
    intro hops b p arr
    rcases arrived_cases arr with ⟨i, hb, rfl⟩ | ⟨j, readOnly, hb, rfl⟩
    · exact arrive hops (fileSystem_arrived arr hops)
    · exact arrive hops (fileSystem_arrived arr hops)
  induction hops generalizing b p with
  | zero => exact arrive' 0 b p h
  | succ hops ih =>
    rw [locate] at h
    split at h
    next table hb => exact onward hops b p table hb h (ih h)
    next => exact arrive' (hops + 1) b p h

/-- Induction along a way without an end, from where the bound stops it. -/
theorem lost_induction (plain : ∀ (b : Nat) (x : Backend), backends[b]? = some x → ∃ n, x.Within n)
    {motive : Nat → BackendId → Path → Prop}
    (stop : ∀ hops b p, fileSystem backends hops b = .failing .endless → motive hops b p)
    (onward : ∀ hops b p table, backends[b]? = some (.composite table) →
      motive hops ((tables table).resolve p).backend ((tables table).resolve p).relative →
      motive (hops + 1) b p)
    (h : locate backends tables hops b p = none) : motive hops b p := by
  induction hops generalizing b p with
  | zero =>
    refine stop 0 b p ?_
    rw [locate] at h
    rw [fileSystem]
    split
    next tree hb =>
      rw [hb] at h
      cases h
    next store readOnly hb =>
      rw [hb] at h
      cases h
    next => rfl
  | succ hops ih =>
    rw [locate] at h
    split at h
    next table hb => exact onward hops b p table hb (ih h)
    next composite =>
      refine stop (hops + 1) b p ?_
      rw [fileSystem]
      split
      next tree hb =>
        rw [hb] at h
        cases h
      next store readOnly hb =>
        rw [hb] at h
        cases h
      next inner faults capabilities hb =>
        obtain ⟨n, no⟩ := plain b _ hb
        exact no.elim
      next table hb => exact absurd hb (composite table)
      next => rfl

/-- A composite reports what the backend reports: a mount point is a root, which there always is. -/
theorem stat_located (inOrder : v.InOrder backends)
    (h : locate backends v.tables hops b p = some pl) :
    (fileSystem backends hops b).stat v p = (pl.fileSystem backends).stat v pl.path := by
  have arr := locate_arrived h
  have stats := (pl.serves arr).stat v pl.path (pl.sound arr inOrder)
  have root := (pl.sound arr inOrder).tree.root
  refine locate_induction (motive := fun hops b p => (fileSystem backends hops b).stat v p =
    (pl.fileSystem backends).stat v pl.path) (fun hops e => by rw [e]) ?_ h
  intro hops b p table hb h ih
  rw [fileSystem_composite hb]
  show Composite.stat _ (v.tables table) v p = _
  rw [Composite.stat, ih]
  generalize (pl.fileSystem backends).stat v pl.path = o at stats
  cases o with
  | ok attr => rfl
  | error e =>
    have nothing : (v.tables table).isMountPoint p = false := by
      refine Bool.eq_false_iff.2 fun mounted => ?_
      rw [MountTable.relative_of_isMountPoint mounted] at h
      rw [locate_root h] at stats
      exact root.ne_none stats
    simp only [nothing, Bool.false_and]
    rfl

theorem readAll_located (h : locate backends v.tables hops b p = some pl) :
    (fileSystem backends hops b).readAll v p = (pl.fileSystem backends).readAll v pl.path := by
  refine locate_induction (motive := fun hops b p => (fileSystem backends hops b).readAll v p =
    (pl.fileSystem backends).readAll v pl.path) (fun hops e => by rw [e]) ?_ h
  intro hops b p table hb _ ih
  rw [fileSystem_composite hb]
  exact ih

theorem openFile_located (h : locate backends v.tables hops b p = some pl) (flags : OpenFlags)
    (mode : UInt32) : ((fileSystem backends hops b).openFile p flags mode).runOn v =
      ((pl.fileSystem backends).openFile pl.path flags mode).runOn v := by
  refine locate_induction (motive := fun hops b p =>
    ((fileSystem backends hops b).openFile p flags mode).runOn v =
      ((pl.fileSystem backends).openFile pl.path flags mode).runOn v) (fun hops e => by rw [e]) ?_ h
  intro hops b p table hb _ ih
  rw [fileSystem_composite hb]
  exact ih

theorem sync_located (h : locate backends v.tables hops b p = some pl) (data : Bytes)
    (attr : FileAttr) : ((fileSystem backends hops b).sync p data attr).runOn v =
      ((pl.fileSystem backends).sync pl.path data attr).runOn v := by
  refine locate_induction (motive := fun hops b p =>
    ((fileSystem backends hops b).sync p data attr).runOn v =
      ((pl.fileSystem backends).sync pl.path data attr).runOn v) (fun hops e => by rw [e]) ?_ h
  intro hops b p table hb _ ih
  rw [fileSystem_composite hb]
  exact ih

/-- A file can be removed as its backend removes it: it is not a mount point. -/
theorem unlink_located (inOrder : v.InOrder backends)
    (h : locate backends v.tables hops b p = some pl) (file : (v.space pl.volume).IsFile pl.path) :
    ((fileSystem backends hops b).unlink p).runOn v =
      ((pl.fileSystem backends).unlink pl.path).runOn v := by
  have root := (pl.sound (locate_arrived h) inOrder).tree.root
  refine locate_induction (motive := fun hops b p =>
    ((fileSystem backends hops b).unlink p).runOn v =
      ((pl.fileSystem backends).unlink pl.path).runOn v) (fun hops e => by rw [e]) ?_ h
  intro hops b p table hb h ih
  have nothing : (v.tables table).isMountPoint p = false := by
    refine Bool.eq_false_iff.2 fun mounted => ?_
    rw [MountTable.relative_of_isMountPoint mounted] at h
    rw [locate_root h] at file
    exact file.not_isDirectory root
  rw [fileSystem_composite hb]
  show (get >>= fun v => Action.ofExcept (Composite.guardMountPoint (v.tables table) p) >>= _ :
    Action Volumes Unit).runOn v = _
  rw [Action.runOn_get_bind, Composite.guardMountPoint, nothing]
  exact ih

/-! ## Calls at a path that leads nowhere -/

section

variable (plain : ∀ (b : Nat) (x : Backend), backends[b]? = some x → ∃ n, x.Within n)
variable (h : locate backends v.tables hops b p = none)
include plain h

theorem stat_lost : (fileSystem backends hops b).stat v p = .error .endless := by
  refine lost_induction plain (motive := fun hops b p =>
    (fileSystem backends hops b).stat v p = .error .endless) (fun hops b p e => by rw [e]; rfl) ?_ h
  intro hops b p table hb ih
  rw [fileSystem_composite hb]
  show Composite.stat _ (v.tables table) v p = _
  rw [Composite.stat, ih]
  simp only [FsError.isNotFound, Bool.and_false]
  rfl

theorem readAll_lost : (fileSystem backends hops b).readAll v p = .error .endless := by
  refine lost_induction plain (motive := fun hops b p =>
    (fileSystem backends hops b).readAll v p = .error .endless)
      (fun hops b p e => by rw [e]; rfl) ?_ h
  intro hops b p table hb ih
  rw [fileSystem_composite hb]
  exact ih

theorem openFile_lost (flags : OpenFlags) (mode : UInt32) :
    ((fileSystem backends hops b).openFile p flags mode).runOn v = (.error .endless, v) := by
  refine lost_induction plain (motive := fun hops b p =>
    ((fileSystem backends hops b).openFile p flags mode).runOn v = (.error .endless, v))
    (fun hops b p e => by rw [e]; rfl) ?_ h
  intro hops b p table hb ih
  rw [fileSystem_composite hb]
  exact ih

theorem sync_lost (data : Bytes) (attr : FileAttr) :
    ((fileSystem backends hops b).sync p data attr).runOn v = (.error .endless, v) := by
  refine lost_induction plain (motive := fun hops b p =>
    ((fileSystem backends hops b).sync p data attr).runOn v = (.error .endless, v))
    (fun hops b p e => by rw [e]; rfl) ?_ h
  intro hops b p table hb ih
  rw [fileSystem_composite hb]
  exact ih

end

end

/-! ## Places in a system -/

namespace System

/-- The place that a path in a backend leads to. -/
def locate (s : System) (b : BackendId) (p : Path) : Option Place :=
  MountSpace.locate s.backends s.volumes.tables (s.hopBudget p) b p

/-- What stands at the place that a path in a backend leads to. -/
def look (s : System) (b : BackendId) (p : Path) : Option Entry := (s.locate b p).bind s.volumes.at

/-- A path in a backend has the same kind and the same content in two systems,
or is absent in both. -/
structure ReadsAs (s s' : System) (b : BackendId) (p : Path) : Prop where
  kind : (s.stat b p).toOption.map (·.kind) = (s'.stat b p).toOption.map (·.kind)
  content : (s.readAll b p).toOption = (s'.readAll b p).toOption

variable {s s' : System} {b : BackendId} {p : Path} {pl : Place}

/-- The bound of a system is enough for any call at a path. -/
theorem enough_hopBudget (s : System) (p : Path) :
    s.backends.length * (p.segments.length + 1) ≤ s.hopBudget p :=
  Nat.mul_le_mul_right _ (Nat.le_succ _)

/-- The bound of a system is enough if any is. -/
theorem locate_of {hops : Nat}
    (h : MountSpace.locate s.backends s.volumes.tables hops b p = some pl) :
    s.locate b p = some pl := locate_within h (s.enough_hopBudget p)

/-- A greater bound leads to the same place, or nowhere. -/
theorem locate_eq {hops : Nat} (le : s.hopBudget p ≤ hops) :
    MountSpace.locate s.backends s.volumes.tables hops b p = s.locate b p := by
  cases h : MountSpace.locate s.backends s.volumes.tables hops b p with
  | some pl => exact (locate_of h).symm
  | none =>
    cases h' : s.locate b p with
    | none => rfl
    | some pl => exact nomatch h.symm.trans (locate_mono h' le)

theorem look_located (h : s.locate b p = some pl) : s.look b p = s.volumes.at pl := by
  rw [look, h, Option.bind_some]

/-- Where paths lead depends on the backends and the tables. -/
theorem locate_congr {v' : Volumes} (tables : v'.tables = s.volumes.tables) (b : BackendId)
    (p : Path) : System.locate ⟨s.backends, v'⟩ b p = s.locate b p := by
  rw [locate, locate, hopBudget, hopBudget, tables]

theorem InOrder.plain (inOrder : s.InOrder) (b : Nat) (x : Backend) (h : s.backends[b]? = some x) :
    ∃ n, x.Within n := ⟨s.next, inOrder.within b x h⟩

/-- An inquiry at a path tells what stands at its place. -/
theorem InOrder.stats_look (inOrder : s.InOrder) (b : BackendId) (p : Path) :
    Space.Stats (s.look b) p (s.stat b p) := by
  rw [stat, fileSystems]
  cases h : s.locate b p with
  | none =>
    rw [stat_lost inOrder.plain h]
    show s.look b p = none
    rw [look, h]
    rfl
  | some pl =>
    have arr := locate_arrived h
    have stats := (pl.serves arr).stat s.volumes pl.path (pl.sound arr inOrder.volumes)
    rw [stat_located inOrder.volumes h]
    generalize (pl.fileSystem s.backends).stat s.volumes pl.path = o at stats
    cases o with
    | ok a =>
      obtain ⟨e, found, shows⟩ := stats
      exact ⟨e, (look_located h).trans found, shows⟩
    | error e => exact (look_located h).trans stats

/-- The kind at a path is that of what stands at its place. -/
theorem InOrder.kind_look (inOrder : s.InOrder) (b : BackendId) (p : Path) :
    (s.stat b p).toOption.map (·.kind) = (s.look b p).map Entry.kind := by
  have stats := inOrder.stats_look b p
  cases hs : s.stat b p with
  | ok a =>
    rw [hs] at stats
    obtain ⟨e, found, shows⟩ := stats
    rw [found]
    exact congrArg some shows.kind
  | error e =>
    rw [hs] at stats
    rw [show s.look b p = none from stats]
    rfl

/-- The permission bits at a path are those of what stands at its place. -/
theorem InOrder.perm_look (inOrder : s.InOrder) (b : BackendId) (p : Path) :
    (s.stat b p).toOption.map (fun a => a.perm &&& permMask) = (s.look b p).map Entry.perm := by
  have stats := inOrder.stats_look b p
  cases hs : s.stat b p with
  | ok a =>
    rw [hs] at stats
    obtain ⟨e, found, shows⟩ := stats
    rw [found]
    exact congrArg some shows.perm
  | error e =>
    rw [hs] at stats
    rw [show s.look b p = none from stats]
    rfl

/-- An inquiry reports a kind where something of the kind stands at the place. -/
theorem InOrder.stat_kind_iff (inOrder : s.InOrder) {kind : FileKind} :
    (∃ a, s.stat b p = .ok a ∧ a.kind = kind) ↔ (s.look b p).map Entry.kind = some kind := by
  rw [← inOrder.kind_look]
  cases s.stat b p with
  | ok a =>
    constructor
    · rintro ⟨a', same, here⟩
      cases same
      exact congrArg some here
    · exact fun here => ⟨a, rfl, Option.some.inj here⟩
  | error e =>
    constructor
    · rintro ⟨a, same, -⟩
      cases same
    · intro here
      cases here

/-- The content at a path is that of what stands at its place. -/
theorem InOrder.content_look (inOrder : s.InOrder) (b : BackendId) (p : Path) :
    (s.readAll b p).toOption = (s.look b p).bind Entry.data? := by
  rw [look, readAll, fileSystems]
  cases h : s.locate b p with
  | none => rw [readAll_lost inOrder.plain h]; rfl
  | some pl =>
    have arr := locate_arrived h
    have reads := (pl.serves arr).readAll s.volumes pl.path (pl.sound arr inOrder.volumes)
    rw [readAll_located h, Option.bind_some, Volumes.at]
    generalize (pl.fileSystem s.backends).readAll s.volumes pl.path = o at reads
    cases o with
    | ok data =>
      obtain ⟨perm, found⟩ := reads
      rw [found]
      rfl
    | error e =>
      cases found : s.volumes.space pl.volume pl.path with
      | none => rfl
      | some e =>
        cases e with
        | directory perm => rfl
        | file perm data => exact absurd ⟨perm, data, found⟩ reads

/-- What looks the same reads the same. -/
theorem InOrder.readsAs (inOrder : s.InOrder) (inOrder' : s'.InOrder)
    (same : s.look b p = s'.look b p) : s.ReadsAs s' b p :=
  ⟨by rw [inOrder.kind_look, inOrder'.kind_look, same],
    by rw [inOrder.content_look, inOrder'.content_look, same]⟩

end System

end MountSpace
