import MountSpace.Proofs.Deeds
import MountSpace.Proofs.FileMoves

/-!
# Mount points and the directories above them

Nobody can remove or move a mount point or a directory above one through the composite. The guards
refuse the calls that would; and no other call gets at the directory, since no other path leads to
it or above it, and what takes the place of an entry takes that of a file or of nothing.

- `System.mkdir_busy`, `unlink_busy`, `rmdir_busy`, `rename_refused_source`,
  `rename_refused_target`: what the guards refuse, and that nothing changes.
- `System.aboveMount`: the reach of the calls to a composite. It clears away nothing that
  lies above a mount point.
- `mount_point_protected`: whatever is asked of a composite, and whatever files were open before,
  the calls at and above a mount point are refused and directories above it stay.
-/

namespace MountSpace

open MountSpace.Action

namespace System

variable {s : System} {b : BackendId} {table : Nat} {m p q a : Path}

/-! ## Refusals -/

/-- A computation that fails at once leaves the system as it is. -/
theorem run_refused {α : Type} {act : Action Volumes α} {e : FsError}
    (h : act.runOn s.volumes = (.error e, s.volumes)) : s.run act = (.error e, s) := by
  rw [run, h]

section

variable (there : s.backends[b]? = some (.composite table))
include there

theorem mkdir_busy (mounted : (s.volumes.tables table).isMountPoint p = true) (mode : UInt32) :
    s.mkdir b p mode = (.error (.busy p.toText), s) := by
  obtain ⟨k, -, hk⟩ := fileSystems_composite there p
  refine run_refused ?_
  rw [hk, FileSystem.composite, runOn_get_bind, Composite.guardMountPoint_mount mounted]
  rfl

theorem unlink_busy (mounted : (s.volumes.tables table).isMountPoint p = true) :
    s.unlink b p = (.error (.busy p.toText), s) := by
  obtain ⟨k, -, hk⟩ := fileSystems_composite there p
  refine run_refused ?_
  rw [hk, FileSystem.composite, runOn_get_bind, Composite.guardMountPoint_mount mounted]
  rfl

theorem rmdir_busy (busy : ¬(s.volumes.tables table).IsClear p) :
    s.rmdir b p = (.error (.busy p.toText), s) := by
  obtain ⟨k, -, hk⟩ := fileSystems_composite there p
  refine run_refused ?_
  rw [hk, FileSystem.composite, runOn_get_bind, Composite.guardSubtree_busy busy]
  rfl

/-- A rename looks at where it starts first. -/
theorem rename_refused_source (busy : ¬(s.volumes.tables table).IsClear p) (q : Path) :
    s.rename b p q = (.error (.busy p.toText), s) := by
  obtain ⟨k, -, hk⟩ := fileSystems_composite there (p ++ q)
  refine run_refused ?_
  rw [hk, FileSystem.composite, runOn_get_bind, Composite.rename, Composite.guardSubtree_busy busy]
  rfl

theorem rename_refused_target (busy : ¬(s.volumes.tables table).IsClear p) (q : Path) :
    ∃ x, (x = q ∨ x = p) ∧ s.rename b q p = (.error (.busy x.toText), s) := by
  by_cases clear : (s.volumes.tables table).IsClear q
  · obtain ⟨k, -, hk⟩ := fileSystems_composite there (q ++ p)
    refine ⟨p, .inr rfl, run_refused ?_⟩
    rw [hk, FileSystem.composite, runOn_get_bind, Composite.rename,
      Composite.guardSubtree_clear clear, runOn_ofExcept_bind, Composite.guardSubtree_busy busy]
    rfl
  · exact ⟨q, .inl rfl, rename_refused_source there clear p⟩

end

/-! ## Calls to a composite clear away nothing above a mount point -/

/-- Calls may come to every backend that keeps a tree itself. They may clear away what is at a path
in a backend that a table names, but not the place of a directory strictly above a mount point or
what lies above it. -/
def aboveMount (s : System) (t : MountTable) (m : Path) : Reach where
  near c _ := ∃ vol, s.volume? c = some vol
  clear c r := (t.Names c ∧ ∃ vol, s.volume? c = some vol) ∧
    ∀ a, a.isPrefixOf m = true → a ≠ m → (t.resolve a).backend = c →
      ¬r.isPrefixOf (t.resolve a).relative = true

/-- Directories strictly above a mount point, as a table finds them in a volume,
are still directories. -/
def StaysAbove (s : System) (t : MountTable) (m : Path) (vol : Volume) (S : Space) : Prop :=
  ∀ a, a.isPrefixOf m = true → a ≠ m → s.volume? (t.resolve a).backend = some vol →
    (s.volumes.space vol).IsDirectory (t.resolve a).relative → S.IsDirectory (t.resolve a).relative

variable {t : MountTable}

theorem aboveMount_spares (unshared : s.Unshared t.Names) (m : Path) :
    (s.aboveMount t m).Spares s.backends (s.StaysAbove t m) where
  leaf := by
    rintro c r (here | ⟨⟨-, here⟩, -⟩)
    · exact here
    · exact here
  step := by
    intro c vol hc S S' step stays a above ne ha dir
    refine step.isDirectory (fun r clear => ?_) (stays a above ne ha dir)
    -- Only one backend keeps the volume, so it is the one that the table finds the directory in.
    have same : (t.resolve a).backend = c :=
      unshared.apart _ _ (t.names_resolve a) clear.1.1 (ha.trans hc.symm)
    exact clear.2 a above ne same

theorem aboveMount_covers (valid : t.Valid) (unshared : s.Unshared t.Names)
    (mounted : t.isMountPoint m = true) : (s.aboveMount t m).Covers t where
  near := fun q => unshared.kept _ (t.names_resolve q)
  clear := by
    refine fun q free => ⟨⟨t.names_resolve q, unshared.kept _ (t.names_resolve q)⟩, ?_⟩
    intro a above _ same higher
    -- What lies above the place of the directory is the place of a path above it.
    obtain ⟨base, hbase⟩ := valid.resolve_eq (t.resolve q).backend
    obtain ⟨k, hk⟩ := Path.isPrefixOf_iff.1 higher
    have upper : q.isPrefixOf a = true := by
      rw [hbase q rfl, hbase a same, hk, ← Path.append_assoc]
      exact Path.isPrefixOf_append ..
    exact MountTable.isClear_iff.1 free m mounted (Path.isPrefixOf_trans upper above)

/-- An inquiry in a composite finds a directory where there is one at the place that the
table sends the path to. -/
theorem InOrder.stat_directory_iff (inOrder : s.InOrder)
    (there : s.backends[b]? = some (.composite table)) {vol : Volume}
    (h : s.volume? ((s.volumes.tables table).resolve p).backend = some vol) :
    (∃ attr, s.stat b p = .ok attr ∧ attr.kind = .directory) ↔
      (s.volumes.space vol).IsDirectory ((s.volumes.tables table).resolve p).relative := by
  rw [inOrder.stat_kind_iff, look_routed there h, Option.map_eq_some_iff]
  constructor
  · rintro ⟨e, found, kind⟩
    exact Space.isDirectory_of_kind found kind
  · rintro ⟨perm, found⟩
    exact ⟨_, found, rfl⟩

/-- **Mount points and the directories above them are protected**: after whatever was asked
of a composite over backends that share no volume, and whatever files were open before,
`mkdir`, `unlink`, `rmdir` and `rename` at a mount point and `rmdir` and `rename` at a
directory above it are refused and change nothing; and every directory strictly above the
mount point is a directory still. -/
theorem mount_point_protected (reachable : s.Reachable)
    (there : s.backends[b]? = some (.composite table))
    (unshared : s.Unshared (s.volumes.tables table).Names)
    (mounted : (s.volumes.tables table).isMountPoint m = true) (handles : Nat → Option OpenFile)
    {calls : List Deed} (only : ∀ d ∈ calls, d.IsCall) :
    let s' := (Session.carryAll b table ⟨s, handles⟩ calls).system
    (∀ mode, s'.mkdir b m mode = (.error (.busy m.toText), s')) ∧
    s'.unlink b m = (.error (.busy m.toText), s') ∧
    (∀ a, a.isPrefixOf m = true → s'.rmdir b a = (.error (.busy a.toText), s') ∧
      ∀ q, s'.rename b a q = (.error (.busy a.toText), s') ∧
        ∃ x, (x = q ∨ x = a) ∧ s'.rename b q a = (.error (.busy x.toText), s')) ∧
    ∀ a attr, a.isPrefixOf m = true → a ≠ m → s.stat b a = .ok attr → attr.kind = .directory →
      ∃ attr', s'.stat b a = .ok attr' ∧ attr'.kind = .directory := by
  intro s'
  have inOrder := reachable.inOrder
  let t := s.volumes.tables table
  have valid : t.Valid := inOrder.volumes.valid b table there
  have spares := aboveMount_spares unshared m
  have covers : ∀ t', t' = t → (s.aboveMount t m).Covers t' := by
    rintro t' rfl
    exact aboveMount_covers valid unshared mounted
  have start : Session.Retains s.backends table (· = t) (s.StaysAbove t m) ⟨s, handles⟩ :=
    ⟨rfl, ⟨inOrder.volumes, rfl, fun _ _ _ _ _ dir => dir⟩, fun n f _ hops data attr =>
      keeps_sync_anywhere spares inOrder.plain (fun c r vol hc => ⟨vol, hc⟩) hops f.owner _
        data attr⟩
  have retained := start.carryAll spares covers there fun d mem => (only d mem).maintains _
  have same : s'.backends = s.backends := retained.same
  have there' : s'.backends[b]? = some (.composite table) := same ▸ there
  have table' : s'.volumes.tables table = t := retained.volumes.table
  have mounted' : (s'.volumes.tables table).isMountPoint m = true := table' ▸ mounted
  have busy : ∀ a : Path, a.isPrefixOf m = true →
      ¬(s'.volumes.tables table).IsClear a := fun a above free =>
    MountTable.isClear_iff.1 free m mounted' above
  refine ⟨mkdir_busy there' mounted', unlink_busy there' mounted', fun a above =>
    ⟨rmdir_busy there' (busy a above), fun q => ⟨rename_refused_source there' (busy a above) q,
      rename_refused_target there' (busy a above) q⟩⟩, ?_⟩
  intro a attr above ne found isDir
  obtain ⟨vol, hvol⟩ := unshared.kept _ (t.names_resolve a)
  have dir := (inOrder.stat_directory_iff there hvol).1 ⟨attr, found, isDir⟩
  have inOrder' : s'.InOrder := inOrder.of_backends same retained.volumes.inOrder
  have hvol' : s'.volume? ((s'.volumes.tables table).resolve a).backend = some vol := by
    rw [table', volume?_congr same]
    exact hvol
  rw [inOrder'.stat_directory_iff there' hvol', table']
  exact retained.volumes.spaces vol a above ne hvol dir

/-- A composite over a tree, with another tree mounted at `/a/m`. -/
def sheltered : System :=
  (((empty .counting).addMemory.addMemory.addComposite 0).mount 2 (.ofText "/a/m") 1).2

theorem sheltered_reached : sheltered.Reached [.memory 0, .memory 1, .composite 2] := by
  have made := (Reached.empty .counting).addMemory.addMemory.addComposite (show 0 < _ by decide)
  exact made.mount (b := 2) rfl (show 1 < _ by decide) (.ofText "/a/m")

theorem sheltered_unshared : sheltered.Unshared (sheltered.volumes.tables 2).Names := by
  have names : (let t := sheltered.volumes.tables 2; t.root :: t.mounts.values) = [0, 1] := by
    decide +kernel
  refine .of_trees fun c hc => ?_
  rw [MountTable.names_iff, names, List.mem_pair] at hc
  rw [volume?, sheltered_reached.backends]
  rcases hc with rfl | rfl <;> rfl

/-- A changed buffer over what was a file at `/a` before the directory was made. -/
def staleFile : OpenFile where
  owner := 0
  path := Utf8.encode (Path.ofText "/a").spelling
  flags := .replacing
  attr := .file 1 0o644 .epoch
  data := [120]
  dirty := true
  closed := false

/-- Neither moving nor replacing the directory above the mount point, nor storing an old file
over it, gets through. -/
theorem mount_point_protected_sheltered :
    sheltered.Reachable ∧
    let calls := [.ask (.rename (.ofText "/a") (.ofText "/b")), .ask (.sync 0),
      .ask (.writeAll (.ofText "/a") [1]), .store (.ofText "/a") [2] staleFile.attr,
      .ask (.unlink (.ofText "/a"))]
    let s' := (Session.carryAll 2 2 ⟨sheltered, fun _ => some staleFile⟩ calls).system
    s'.rmdir 2 (.ofText "/a") = (.error (.busy "/a"), s') ∧
      ∃ attr, s'.stat 2 (.ofText "/a") = .ok attr ∧ attr.kind = .directory := by
  refine ⟨sheltered_reached.reachable, ?_⟩
  intro calls
  have only : ∀ d ∈ calls, d.IsCall := by
    intro d mem
    simp only [calls, List.mem_cons, List.not_mem_nil, or_false] at mem
    rcases mem with rfl | rfl | rfl | rfl | rfl <;> trivial
  obtain ⟨attr, found, isDir⟩ :
      ∃ attr, sheltered.stat 2 (.ofText "/a") = .ok attr ∧ attr.kind = .directory :=
    sheltered_reached.reachable.inOrder.stat_kind_iff.2 (by decide +kernel)
  obtain ⟨-, -, above, stays⟩ :=
    mount_point_protected (m := .ofText "/a/m") sheltered_reached.reachable
    (sheltered_reached.at' (b := 2) rfl) sheltered_unshared (by decide +kernel)
    (fun _ => some staleFile) only
  exact ⟨(above (.ofText "/a") (by decide)).1, stays _ attr (by decide) (by decide) found isDir⟩

end System

end MountSpace
