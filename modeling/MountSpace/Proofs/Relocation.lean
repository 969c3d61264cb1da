import MountSpace.Proofs.Reachable
import MountSpace.Proofs.Session

/-!
# Moving a subtree

A tree in memory moves an entry by giving new keys to all nodes below it, a store of records by
writing the listings of two directories, which may be one. Both come to the same: what stood at and
below the source stands at and below the target, and nothing else is different.

- `System.Relocated`: what can be seen of a move, by inquiries alone.
- `relocated_memory`, `relocated_keyValue`: from what becomes of each node, and of each slot.
- `Reachable.rename_relocates`: every move that succeeds is of this form.
-/

namespace MountSpace

open MemoryTree (Node)

/-- What is replaced is of the kind of what replaces it, and has nothing below it. -/
theorem Space.IsTree.replaced {S : Space} (tree : S.IsTree) {source target : Path}
    (movable : S.Movable source target) (ne : source ≠ target) {a a' : FileAttr}
    (moved : S.Stats source (.ok a)) (replaced : S.Stats target (.ok a')) :
    a'.kind = a.kind ∧ ∀ k : Path, k ≠ .root → S (target ++ k) = none := by
  obtain ⟨e, he, shows⟩ := moved
  obtain ⟨e', he', shows'⟩ := replaced
  obtain ⟨-, e₁, he₁, eq | ⟨-, -, free⟩⟩ := movable
  · exact absurd eq ne
  · cases he.symm.trans he₁
    refine ⟨?_, fun k hk => tree.replaceable_below free hk⟩
    rw [shows.kind, shows'.kind]
    exact (free e' he').1

/-- The directory that the moved entry has left is still there. -/
theorem RecordTree.Shifts.holder {F F' : Slots} {source target : Path}
    (shifts : Shifts F F' source target) (tree : F.space.IsTree)
    (movable : F.space.Movable source target) (ne : source ≠ target) :
    ∃ l, F'.HasListing source.parent l := by
  have nonroot : source ≠ .root := movable.1
  obtain ⟨n, hn⟩ := Path.exists_name nonroot
  have dir : F.space.IsDirectory source.parent := by
    obtain ⟨-, e, he, -⟩ := movable
    refine tree.parent source.parent n ?_
    rw [← Path.eq_child hn, he]
    exact Option.some_ne_none e
  have outside : ¬target.isPrefixOf source.parent = true := fun above => by
    have apart := tree.not_below_target movable ne .root
    rw [Path.append_root] at apart
    exact apart (Path.isPrefixOf_trans above (Path.parent_isPrefixOf source))
  obtain ⟨l, x, hx, hl⟩ := Slots.isDirectory_iff.1 dir
  obtain stays | ⟨x', d, -, l', -, -, hd, relists⟩ :=
    shifts.other source.parent (Path.not_isPrefixOf_parent nonroot) outside
  · exact ⟨l, x, stays.trans hx, hl⟩
  · exact ⟨l', d, hd, relists.body⟩

namespace System

/-- What stood at and below one path of a backend stands at and below another one. The attributes of
what was moved may be told apart from those it had. -/
structure Relocated (s s' : System) (b : BackendId) (source target : Path)
    (told : FileAttr → FileAttr → Prop) : Prop where
  /-- The entry that was moved was there, and is at the target. -/
  entry : ∃ a a', s.stat b source = .ok a ∧ s'.stat b target = .ok a' ∧ told a a'
  /-- Everything below it has moved along, and nothing else is below the target. -/
  below : ∀ r : Path, r ≠ .root →
    (s'.stat b (target ++ r)).toOption = (s.stat b (source ++ r)).toOption
  /-- So has the content of every file. -/
  content : ∀ r : Path, (s'.readAll b (target ++ r)).toOption = (s.readAll b (source ++ r)).toOption
  /-- Nothing is left at or below the source. -/
  left : ∀ r : Path, ∃ e, s'.stat b (source ++ r) = .error e ∧ e.isNotFound = true
  /-- If an entry was replaced, it was of the same kind and had nothing below it. -/
  replaced : ∀ a a', s.stat b source = .ok a → s.stat b target = .ok a' →
    a'.kind = a.kind ∧ ∀ r : Path, r ≠ .root → (s.stat b (target ++ r)).isOk = false
  /-- Elsewhere the same entries are there, with the same permissions and content. -/
  kept : ∀ q : Path, ¬source.isPrefixOf q = true → ¬target.isPrefixOf q = true →
    (s'.stat b q).toOption.map (fun a => (a.kind, a.perm)) =
        (s.stat b q).toOption.map (fun a => (a.kind, a.perm)) ∧
      (s'.readAll b q).toOption = (s.readAll b q).toOption

variable {s s' : System} {b : BackendId} {source target : Path}

/-- Where an inquiry answers for a space, an entry is replaced as the space allows. -/
theorem replaced_of_movable {S : Space} (tree : S.IsTree) (movable : S.Movable source target)
    (ne : source ≠ target) (stats : ∀ p, S.Stats p (s.stat b p)) {a a' : FileAttr}
    (moved : s.stat b source = .ok a) (replaced : s.stat b target = .ok a') :
    a'.kind = a.kind ∧ ∀ r : Path, r ≠ .root → (s.stat b (target ++ r)).isOk = false := by
  obtain ⟨kind, empty⟩ := tree.replaced movable ne (moved ▸ stats source) (replaced ▸ stats target)
  refine ⟨kind, fun r hr => ?_⟩
  have answer := stats (target ++ r)
  cases found : s.stat b (target ++ r) with
  | error e => rfl
  | ok a₁ =>
    rw [found] at answer
    obtain ⟨e, he, -⟩ := answer
    cases (empty r hr).symm.trans he

theorem Relocated.mono {told told' : FileAttr → FileAttr → Prop}
    (h : Relocated s s' b source target told) (weaker : ∀ a a', told a a' → told' a a') :
    Relocated s s' b source target told' where
  entry := by
    obtain ⟨a, a', ha, ha', same⟩ := h.entry
    exact ⟨a, a', ha, ha', weaker a a' same⟩
  below := h.below
  content := h.content
  left := h.left
  replaced := h.replaced
  kept := h.kept

/-- A move in a tree that succeeds is one of the nodes. -/
theorem rename_memory {tree : Nat} (there : s.backends[b]? = some (.memory tree))
    (renamed : (s.rename b source target).1 = .ok ()) : ∃ now t',
    (s.volumes.trees tree).rename source target now = .ok t' ∧
      (s.rename b source target).2.volumes.trees tree = t' := by
  obtain ⟨v₁, now, read, hr⟩ := memory_change b tree (.rename source target) s.volumes
  have same : v₁.trees tree = s.volumes.trees tree := by rcases read with rfl | rfl <;> rfl
  have run_eq : s.rename b source target =
      s.run ((FileSystem.memory b tree).change (.rename source target)) := by
    rw [rename, fileSystems, fileSystem_memory there]
    rfl
  rw [run_eq, run, hr, Volumes.runOn_changeTree, same] at renamed ⊢
  refine ⟨now, ?_⟩
  change ∃ t', (s.volumes.trees tree).change now (.rename source target) = .ok t' ∧ _
  cases hc : (s.volumes.trees tree).change now (.rename source target) with
  | error e =>
    rw [hc] at renamed
    cases renamed
  | ok t => exact ⟨t, rfl, setAt_self ..⟩

/-- A move in a store that succeeds is one of the records, and the backend is
not closed to changes. -/
theorem rename_keyValue {store : Nat} {readOnly : Bool}
    (there : s.backends[b]? = some (.keyValue store readOnly))
    (renamed : (s.rename b source target).1 = .ok ()) : ∃ t,
    (RecordTree.rename source target).runOn (s.volumes.transaction store) = (.ok (), t) ∧
      (s.rename b source target).2.volumes.stores store = t.store := by
  have run_eq : s.rename b source target =
      s.run ((FileSystem.keyValue b store readOnly).change (.rename source target)) := by
    rw [rename, fileSystems, fileSystem_keyValue there]
    rfl
  rw [run_eq, run, keyValue_change] at renamed ⊢
  cases readOnly with
  | true => cases renamed
  | false =>
    rw [if_neg Bool.false_ne_true, Volumes.runOn_withStore] at renamed ⊢
    change ∃ t, (RecordTree.change (.rename source target)).runOn _ = (.ok (), t) ∧ _
    rcases hr : (RecordTree.change (.rename source target)).runOn (s.volumes.transaction store) with
      ⟨e | _, t⟩
    · rw [hr] at renamed
      cases renamed
    · exact ⟨t, rfl, Volumes.stores_committed ..⟩

/-- Moved nodes are seen as a move. -/
theorem relocated_memory {tree : Nat} {now : Instant} (there : s.backends[b]? = some (.memory tree))
    (same : s'.backends = s.backends) (sound : (s.volumes.trees tree).Sound)
    (movable : (s.volumes.trees tree).space.Movable source target) (ne : source ≠ target)
    (shifts : (s.volumes.trees tree).Shifts (s'.volumes.trees tree) source target now) :
    Relocated s s' b source target fun a a' => a' = { a with ctime := now } := by
  have there' : s'.backends[b]? = some (.memory tree) := same ▸ there
  obtain ⟨n, hn, hn'⟩ := shifts.entry
  constructor
  case entry =>
    refine ⟨n.attr, (n.changedAt now).attr, ?_, ?_, Node.attr_changedAt now n⟩
    · rw [stat_memory there, MemoryTree.stat, MemoryTree.node, hn]
      rfl
    · rw [stat_memory there', MemoryTree.stat, MemoryTree.node, hn']
      rfl
  case below =>
    intro r hr
    rw [stat_memory there, stat_memory there', MemoryTree.stat_toOption, MemoryTree.stat_toOption,
      shifts.entered r hr]
  case content =>
    intro r
    rw [readAll_memory there, readAll_memory there', MemoryTree.readAll_toOption,
      MemoryTree.readAll_toOption]
    by_cases hr : r = .root
    · rw [hr, Path.append_root, Path.append_root, hn, hn', Option.bind_some, Option.bind_some,
        Node.content?_changedAt]
    · rw [shifts.entered r hr]
  case left =>
    intro r
    rw [stat_memory there', MemoryTree.stat_none (shifts.left r)]
    exact ⟨_, rfl, rfl⟩
  case replaced =>
    refine fun a a' => replaced_of_movable sound.tree movable ne fun p => ?_
    rw [stat_memory there]
    exact MemoryTree.stat_answer sound p
  case kept =>
    intro q out out'
    simp only [stat_memory there, stat_memory there', readAll_memory there, readAll_memory there',
      MemoryTree.stat_toOption, MemoryTree.readAll_toOption, shifts.other q out out', and_self]

/-- Moved slots are seen as a move. A directory that has another listing is seen
with other times only. -/
theorem relocated_keyValue {store : Nat} {readOnly : Bool} {F F' : Slots}
    (there : s.backends[b]? = some (.keyValue store readOnly)) (same : s'.backends = s.backends)
    (h : (s.volumes.stores store).Represents F) (h' : (s'.volumes.stores store).Represents F')
    (movable : F.space.Movable source target) (ne : source ≠ target)
    (shifts : RecordTree.Shifts F F' source target) : Relocated s s' b source target Eq := by
  have there' : s'.backends[b]? = some (.keyValue store readOnly) := same ▸ there
  have stat_eq : ∀ p, (s.stat b p).toOption = (F p).map fun x => x.inode.toAttr := fun p => by
    rw [stat_keyValue there, RecordTree.stat_toOption h]
  have stat_eq' : ∀ p, (s'.stat b p).toOption = (F' p).map fun x => x.inode.toAttr := fun p => by
    rw [stat_keyValue there', RecordTree.stat_toOption h']
  have read_eq : ∀ p, (s.readAll b p).toOption = (F p).bind fun x => x.body.content? := fun p => by
    rw [readAll_keyValue there, RecordTree.readAll_toOption h]
  have read_eq' : ∀ p, (s'.readAll b p).toOption = (F' p).bind fun x =>
      x.body.content? := fun p => by
    rw [readAll_keyValue there', RecordTree.readAll_toOption h']
  have arrived : F' target = F source := by simpa using shifts.entered .root
  constructor
  case entry =>
    obtain ⟨-, e, he, -⟩ := movable
    obtain ⟨x, hx, -⟩ := Option.map_eq_some_iff.1 he
    refine ⟨x.inode.toAttr, x.inode.toAttr, ?_, ?_, rfl⟩
    · rw [stat_keyValue there, RecordTree.stat,
        RecordStore.lookup_some h.coherent h.rooted h.holds hx]
      rfl
    · rw [stat_keyValue there', RecordTree.stat,
        RecordStore.lookup_some h'.coherent h'.rooted h'.holds (arrived.trans hx)]
      rfl
  case below =>
    intro r _
    rw [stat_eq, stat_eq', shifts.entered r]
  case content =>
    intro r
    rw [read_eq, read_eq', shifts.entered r]
  case left =>
    intro r
    have gone : F' source = none := by simpa using shifts.left .root
    obtain ⟨e, he, reason⟩ := RecordStore.lookup_none h'.coherent h'.rooted h'.holds gone
    rw [stat_keyValue there', RecordTree.stat, RecordStore.lookup_below he r]
    exact ⟨e, rfl, reason (shifts.holder h.tree movable ne)⟩
  case replaced =>
    refine fun a a' => replaced_of_movable h.tree movable ne fun p => ?_
    rw [stat_keyValue there]
    exact RecordTree.stat_answer h p
  case kept =>
    intro q out out'
    rw [stat_eq, stat_eq', read_eq, read_eq']
    obtain stays | ⟨x, d, l, l', hx, hl, hd, relists⟩ := shifts.other q out out'
    · rw [stays]
      exact ⟨rfl, rfl⟩
    · rw [hx, hd]
      simp only [Option.map_some, Option.bind_some, hl, relists.body, Inode.kind_toAttr,
        Inode.perm_toAttr, (h.coherent.fits q x hx).kind, relists.fits.kind, relists.perm,
        Body.kind, Body.content?, and_self]

/-- A move in a tree that succeeds marks the entry that was moved as changed. -/
theorem InOrder.relocated_memory (inOrder : s.InOrder) {tree : Nat}
    (there : s.backends[b]? = some (.memory tree)) (ne : source ≠ target)
    (renamed : (s.rename b source target).1 = .ok ()) :
    ∃ now, Relocated s (s.rename b source target).2 b source target fun a a' =>
    a' = { a with ctime := now } := by
  have sound : s.volumes.SoundAt (.tree tree) := inOrder.volumes.sound b _ _ there rfl
  obtain ⟨now, t', hr, after⟩ := rename_memory there renamed
  obtain ⟨movable, shifts⟩ := MemoryTree.rename_shifts sound ne hr
  exact ⟨now, System.relocated_memory there rfl sound movable ne (after ▸ shifts)⟩

/-- A move in a store that succeeds keeps the entry that was moved as it was, and deletes both
records of what was replaced. -/
theorem InOrder.relocated_keyValue (inOrder : s.InOrder) {store : Nat} {readOnly : Bool}
    (there : s.backends[b]? = some (.keyValue store readOnly)) (ne : source ≠ target)
    (renamed : (s.rename b source target).1 = .ok ()) :
    Relocated s (s.rename b source target).2 b source target Eq ∧
      ∀ id i, (s.volumes.stores store).lookup target = .ok (id, i) →
        ((s.rename b source target).2.volumes.stores store).get? id = none ∧
        ((s.rename b source target).2.volumes.stores store).get? i.contentId = none := by
  obtain ⟨F, h⟩ : s.volumes.SoundAt (.store store) := inOrder.volumes.sound b _ _ there rfl
  obtain ⟨t, hr, after⟩ := rename_keyValue there renamed
  have moves := RecordTree.rename_moves (t := s.volumes.transaction store) h source target
  rw [hr] at moves
  obtain ⟨movable, -, F', h', -, shifted⟩ := moves
  obtain ⟨shifts, cleared⟩ := shifted ne
  rw [← after] at h' cleared
  refine ⟨System.relocated_keyValue there rfl h h' movable ne shifts, fun id i found => ?_⟩
  obtain ⟨y, hy, rfl, rfl⟩ := h.exists_of_lookup found
  exact ⟨cleared y hy .inode, cleared y hy .content⟩

/-- **Moving moves a subtree**: in a backend over a tree or over a store of records, a move
that succeeds between two paths takes along just what lies at and below the source. A tree
marks the entry that was moved as changed, a store keeps it as it was and deletes both records
of what was replaced. -/
theorem Reachable.rename_relocates (reachable : s.Reachable) (ne : source ≠ target)
    (renamed : (s.rename b source target).1 = .ok ()) :
    (∀ tree, s.backends[b]? = some (.memory tree) →
      Relocated s (s.rename b source target).2 b source target
        fun a a' => ∃ now, a' = { a with ctime := now }) ∧
    ∀ store readOnly, s.backends[b]? = some (.keyValue store readOnly) →
      Relocated s (s.rename b source target).2 b source target Eq ∧
      ∀ id i, (s.volumes.stores store).lookup target = .ok (id, i) →
        ((s.rename b source target).2.volumes.stores store).get? id = none ∧
        ((s.rename b source target).2.volumes.stores store).get? i.contentId = none := by
  refine ⟨fun tree there => ?_, fun store readOnly there => ?_⟩
  · obtain ⟨now, relocated⟩ := reachable.inOrder.relocated_memory there ne renamed
    exact relocated.mono fun a a' same => ⟨now, same⟩
  · exact reachable.inOrder.relocated_keyValue there ne renamed

/-- A backend with a file in one of two directories. -/
def withSubtree (s : System) (b : BackendId) : System :=
  let s := (s.mkdir b (.ofText "/d") 0o755).2
  let s := (s.writeAll b (.ofText "/d/f") [120]).2
  (s.mkdir b (.ofText "/e") 0o700).2

theorem Reached.withSubtree {l : List Backend} (reached : s.Reached l) (b : BackendId) :
    (s.withSubtree b).Reached l :=
  ((reached.mkdir b _ _).writeAll b _ _).mkdir b _ _

theorem withSubtree_rename :
    ∀ s ∈ ((empty .counting).addMemory.addKeyValue (.ofRecords ∅) false).toOption,
    ∀ b : Nat, b < 2 → (((s.withSubtree 0).withSubtree 1).rename b (.ofText "/d")
      (.ofText "/e")).1 = .ok () ∧
      ((s.withSubtree 0).withSubtree 1).readAll b (.ofText "/d/f") = .ok [120] := by
  decide +kernel

/-- In a tree and in a store alike the one directory replaces the other, and
the file moves along. -/
theorem Reachable.rename_relocates_withSubtree : ∃ s : System, s.Reachable ∧
    s.backends = [.memory 0, .keyValue 1 false] ∧ ∀ b : Nat, b < 2 →
      (s.rename b (.ofText "/d") (.ofText "/e")).1 = .ok () ∧
      ((s.rename b (.ofText "/d") (.ofText "/e")).2.readAll b (.ofText "/e/f")).toOption =
        some [120] ∧
      ∃ e, (s.rename b (.ofText "/d") (.ofText "/e")).2.stat b (.ofText "/d/f") = .error e ∧
        e.isNotFound = true := by
  obtain ⟨t, F, made, -⟩ | ⟨e, -, refused⟩ :=
    (System.empty .counting).addMemory.addKeyValue_cases (.ofRecords ∅) rfl false
  case inr => exact absurd (fun _ => rfl) refused
  have moved := withSubtree_rename _ (by rw [made]; rfl)
  have reached :=
    (((Reached.empty .counting).addMemory.addKeyValue rfl made).withSubtree 0).withSubtree 1
  generalize System.withSubtree _ 1 = s at moved reached
  refine ⟨s, reached.reachable, reached.backends, fun b hb => ?_⟩
  obtain ⟨renamed, read⟩ := moved b hb
  have different : Path.ofText "/d" ≠ Path.ofText "/e" := by decide
  obtain ⟨inTree, inStore⟩ := reached.reachable.rename_relocates different renamed
  -- Whichever backend it is, the move is seen in the same way.
  obtain ⟨told, relocated⟩ : ∃ told, Relocated s (s.rename b (.ofText "/d") (.ofText "/e")).2 b
      (.ofText "/d") (.ofText "/e") told := by
    obtain rfl | rfl : b = 0 ∨ b = 1 := by omega
    · exact ⟨_, inTree 0 (reached.at' rfl)⟩
    · exact ⟨_, (inStore 1 false (reached.at' rfl)).1⟩
  refine ⟨renamed, ?_, ?_⟩
  · have content := relocated.content (.ofText "/f")
    rw [show Path.ofText "/e" ++ Path.ofText "/f" = .ofText "/e/f" by decide,
      show Path.ofText "/d" ++ Path.ofText "/f" = .ofText "/d/f" by decide, read] at content
    exact content
  · have left := relocated.left (.ofText "/f")
    rwa [show Path.ofText "/d" ++ Path.ofText "/f" = .ofText "/d/f" by decide] at left

end System

end MountSpace
