import MountSpace.Proofs.Reachable
import MountSpace.Proofs.Session

/-!
# What a tree in memory holds

A tree is a flat map, so that nothing in its type says that it is a tree. Seen from its nodes alone,
a tree that is in order has a root, a directory above every other node, and attributes that fit the
nodes they belong to. A call that fails leaves the whole map as it was.

- `MemoryTree.Intact`: what is said of the nodes.
- `Sound.intact`: a tree that is in order is intact.
- `Action.SparesTree`, `System.KeptTree`: whatever fails leaves a tree as it was.
- `Reachable.tree_intact`: both, for every tree of a system, whatever has been done with it.
-/

namespace MountSpace

open MemoryTree (Node)

namespace MemoryTree

/-- The nodes form a tree, and each is described as what it is. -/
structure Intact (t : MemoryTree) : Prop where
  /-- The root is a directory. -/
  root : ∃ attr, t.get? .root = some (.directory attr)
  /-- Every other node stands in a directory. -/
  parent : ∀ p n, p ≠ .root → t.get? p = some n → ∃ attr, t.get? p.parent = some (.directory attr)
  /-- All that lies above a node are directories, so that nothing is orphaned. -/
  above : ∀ p k n, k ≠ .root → t.get? (p ++ k) = some n → ∃ attr, t.get? p = some (.directory attr)
  /-- Nothing lies below a file. -/
  leaf : ∀ p k data attr, k ≠ .root → t.get? p = some (.file data attr) → t.get? (p ++ k) = none
  /-- A file is described as a file of the length of its content. -/
  file : ∀ p data attr, t.get? p = some (.file data attr) →
    attr.kind = .file ∧ attr.size = data.length.toUInt64 ∧
      (data.length < UInt64.size → attr.size.toNat = data.length)
  /-- A directory is described as one. -/
  directory : ∀ p attr, t.get? p = some (.directory attr) → attr.kind = .directory

variable {t : MemoryTree}

theorem Sound.intact (h : t.Sound) : t.Intact where
  root := isDirectory_iff.1 h.tree.root
  parent := fun p n nonroot hn => by
    obtain ⟨s, hs⟩ := Path.exists_name nonroot
    have there : t.space (p.parent.child s) ≠ none := by
      rw [← Path.eq_child hs, space_some hn]
      exact Option.some_ne_none _
    exact isDirectory_iff.1 (h.tree.parent p.parent s there)
  above := fun p k n below hn => by
    have there : t.space (p ++ k) ≠ none := by
      rw [space_some hn]
      exact Option.some_ne_none _
    exact isDirectory_iff.1 (h.tree.above there below)
  leaf := fun p k data attr below hn =>
    space_eq_none_iff.1
      (h.tree.nothing_below (h.tree.file_no_entries (isFile_iff.2 ⟨data, attr, hn⟩)) below)
  file := fun p data attr hn => by
    obtain ⟨kind, size⟩ := h.nodes p _ hn
    exact ⟨kind, size, fun small => size ▸ Nat.mod_eq_of_lt small⟩
  directory := fun p attr hn => h.nodes p _ hn

end MemoryTree

/-! ## Calls that fail -/

/-- Wherever a computation on the volumes fails, a tree is as it was. -/
def Action.SparesTree {α : Type} (tree : Nat) (act : Action Volumes α) : Prop :=
  ∀ v : Volumes, (act.runOn v).1.isOk = false → (act.runOn v).2.trees tree = v.trees tree

/-- A change is worked out before anything is replaced. -/
theorem memory_change_spares (self tree : Nat) (c : Change) :
    ((FileSystem.memory self tree).change c).SparesTree tree := by
  intro v failed
  obtain ⟨v₁, now, read, hr⟩ := memory_change self tree c v
  have same : v₁.trees tree = v.trees tree := by rcases read with rfl | rfl <;> rfl
  rw [hr, Volumes.runOn_changeTree] at failed ⊢
  cases hc : (v₁.trees tree).change now c with
  | ok t =>
    rw [hc] at failed
    cases failed
  | error e => exact same

theorem memory_openFile_spares (self tree : Nat) (p : Path) (flags : OpenFlags) (mode : UInt32) :
    ((FileSystem.memory self tree).openFile p flags mode).SparesTree tree := by
  intro v failed
  rw [memory_openFile] at failed ⊢
  cases ho : (v.trees tree).openFile p flags mode v.ambient.now with
  | ok r =>
    rw [ho] at failed
    cases failed
  | error e => rfl

namespace OpenFile

/-- Storing a buffer is a change of the tree, or fails before it comes to that. -/
theorem sync_spares (self tree : Nat) (f : OpenFile) :
    (f.sync (FileSystem.memory self tree)).SparesTree tree := by
  have stored := memory_change_spares self tree (.sync (Path.ofBytes f.path) f.data f.attr)
  intro v failed
  rw [runOn_sync] at failed ⊢
  split
  · rfl
  next isOpen =>
    rw [if_neg isOpen] at failed
    split
    next changed =>
      rw [if_pos changed, Except.isOk_map] at failed
      exact stored v failed
    · rfl

theorem close_spares (self tree : Nat) (f : OpenFile) :
    (f.close (FileSystem.memory self tree)).SparesTree tree := by
  intro v failed
  rw [runOn_close] at failed ⊢
  rw [Except.isOk_map] at failed
  exact sync_spares self tree f v failed

end OpenFile

namespace System

/-- A call that failed has left a tree as it was. -/
def KeptTree {α : Type} (s : System) (tree : Nat) (outcome : Except FsError α × System) : Prop :=
  outcome.1.isOk = false → outcome.2.volumes.trees tree = s.volumes.trees tree

variable {s : System} {b : BackendId} {tree : Nat}

theorem keptTree_run {α : Type} {act : Action Volumes α} (spares : act.SparesTree tree) :
    s.KeptTree tree (s.run act) := spares s.volumes

/-- **Integrity of trees**: whatever has been done with a system, and however often it failed, the
nodes of every tree hang together and are described as what they are. A call to a backend over the
tree, or to store a file that was opened in it, leaves the whole map as it was if it fails. -/
theorem Reachable.tree_intact (reachable : s.Reachable)
    (there : s.backends[b]? = some (.memory tree)) :
    (s.volumes.trees tree).Intact ∧
    (∀ p mode, s.KeptTree tree (s.mkdir b p mode)) ∧
    (∀ p, s.KeptTree tree (s.unlink b p)) ∧
    (∀ p, s.KeptTree tree (s.rmdir b p)) ∧
    (∀ source target, s.KeptTree tree (s.rename b source target)) ∧
    (∀ p flags mode, s.KeptTree tree (s.openFile b p flags mode)) ∧
    (∀ p data attr, s.KeptTree tree (s.sync b p data attr)) ∧
    ∀ f : OpenFile, f.owner = b → s.KeptTree tree (s.syncFile f) ∧ s.KeptTree tree
      (s.closeFile f) := by
  have sound : s.volumes.SoundAt (.tree tree) := reachable.inOrder.volumes.sound b _ _ there rfl
  have backend : ∀ p, s.fileSystems p b = .memory b tree := fun p => fileSystem_memory there _
  refine ⟨MemoryTree.Sound.intact sound, fun p mode => ?_, fun p => ?_, fun p => ?_,
    fun source target => ?_, fun p flags mode => ?_, fun p data attr => ?_, fun f own => ?_⟩
  · rw [mkdir, backend]
    exact keptTree_run (memory_change_spares b tree (.mkdir p mode))
  · rw [unlink, backend]
    exact keptTree_run (memory_change_spares b tree (.unlink p))
  · rw [rmdir, backend]
    exact keptTree_run (memory_change_spares b tree (.rmdir p))
  · rw [rename, backend]
    exact keptTree_run (memory_change_spares b tree (.rename source target))
  · rw [openFile, backend]
    exact keptTree_run (memory_openFile_spares b tree p flags mode)
  · rw [sync, backend]
    exact keptTree_run (memory_change_spares b tree (.sync p data attr))
  · rw [syncFile, closeFile, own, backend]
    exact ⟨keptTree_run (f.sync_spares b tree), keptTree_run (f.close_spares b tree)⟩

/-- A tree with a file in a directory that has been moved over an empty one. -/
def movedDirectory : System :=
  let s := ((empty .counting).addMemory.mkdir 0 (.ofText "/a") 0o755).2
  let s := (s.writeAll 0 (.ofText "/a/f") [120]).2
  let s := (s.mkdir 0 (.ofText "/b") 0o700).2
  (s.rename 0 (.ofText "/a") (.ofText "/b")).2

/-- The file lies below the directory that it was moved into, and the directory can be moved neither
below itself nor below the file. -/
theorem Reachable.tree_intact_movedDirectory :
    movedDirectory.readAll 0 (.ofText "/b/f") = .ok [120] ∧
    (movedDirectory.volumes.trees 0).Intact ∧
    (movedDirectory.rename 0 (.ofText "/b") (.ofText "/b/f/c")).1.isOk = false ∧
    (movedDirectory.rename 0 (.ofText "/b") (.ofText "/b/f/c")).2.volumes.trees 0 =
      movedDirectory.volumes.trees 0 := by
  have tree := (Reached.empty .counting).addMemory
  have reached : movedDirectory.Reached [.memory 0] :=
    (((tree.mkdir 0 (.ofText "/a") 0o755).writeAll 0 (.ofText "/a/f") [120]).mkdir 0 (.ofText "/b")
      0o700).rename 0 (.ofText "/a") (.ofText "/b")
  obtain ⟨read, failed⟩ : movedDirectory.readAll 0 (.ofText "/b/f") = .ok [120] ∧
      (movedDirectory.rename 0 (.ofText "/b") (.ofText "/b/f/c")).1.isOk = false := by
    decide +kernel
  obtain ⟨intact, -, -, -, keptRename, -⟩ :=
    reached.reachable.tree_intact (reached.at' (b := 0) rfl)
  exact ⟨read, intact, failed, keptRename _ _ failed⟩

end System

end MountSpace
