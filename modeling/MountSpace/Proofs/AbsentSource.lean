import MountSpace.Proofs.AnyRecords
import MountSpace.Proofs.Session

/-!
# Moving what is not there

An entry is to be moved that its directory does not list. A tree in memory looks for the entry
before anything else, so that the answer is the same for every target. A store of records looks at
the two paths first: the root is refused as a target, and so is a target inside the source, whether
or not there is a source.

- `MemoryTree.free_of_readdir`, `RecordTree.directory_of_readdir`: what a listing tells
  about nodes and records.
- `RecordTree.refusal`, `RecordTree.rename_unlisted`: the answer of a store, for each target.
- `System.rename_absent`: the answers of both, which change nothing.
-/

namespace MountSpace

/-! ## What a listing tells -/

/-- Where a listing does not have a name, there is no node. -/
theorem MemoryTree.free_of_readdir {t : MemoryTree} {dir : Path} {name : Segment}
    {entries : List DirEntry} (listed : t.readdir dir = .ok entries)
    (absent : ∀ e ∈ entries, e.name ≠ name.text) :
    t.get? (dir.child name) = none := by
  have lists := t.readdir_answer dir
  rw [listed] at lists
  obtain ⟨-, -, mem⟩ := lists
  refine Option.eq_none_iff_forall_ne_some.2 fun n found => ?_
  exact absent _ ((mem _).2 ⟨name, _, MemoryTree.space_some found, rfl⟩) rfl

namespace RecordTree

open StoreAction

variable {s : RecordStore} {dir target : Path} {name : Segment}

/-- The lines of a listing have the names that are stored. -/
theorem names_of_mapM : ∀ {l : List (String × String)} {entries : List DirEntry},
    l.mapM (entry s) = .ok entries → entries.map (·.name) = l.map (·.1)
  | [], _, read => by
    cases read
    rfl
  | e :: l, entries, read => by
    rw [List.mapM_cons] at read
    obtain ⟨first, hf, read⟩ := Except.bind_eq_ok.1 read
    obtain ⟨rest, hr, read⟩ := Except.bind_eq_ok.1 read
    obtain ⟨i, -, made⟩ := Except.bind_eq_ok.1 hf
    cases made
    cases read
    rw [List.map_cons, List.map_cons, names_of_mapM hr]

/-- A listing is of a directory that is stored, and has the names of its entries. -/
theorem directory_of_readdir {entries : List DirEntry} (listed : readdir s dir = .ok entries) :
    ∃ d, s.directory dir = .ok d ∧ entries.map (·.name) = d.listing.keys := by
  obtain ⟨d, hd, read⟩ := Except.bind_eq_ok.1 listed
  exact ⟨d, hd, names_of_mapM read⟩

/-! ## The answer of a store -/

/-- Why an entry that is not there cannot be moved. -/
def refusal (source target : Path) : FsError :=
  if target = .root then .busy "/"
  else if source ≠ target ∧ source.isPrefixOf target = true then
    .invalidPath ("cannot move " ++ source.toText ++ " inside itself")
  else .notFound source.toText

/-- A name that a listing does not have leads nowhere. -/
theorem lookup_unlisted {d : StoredDirectory} (hd : s.directory dir = .ok d)
    (unlisted : d.listing.get? name.text = none) :
    s.lookup (dir.child name) = .error (.notFound (dir.child name).toText) := by
  obtain ⟨hf, isDir, hl⟩ := RecordStore.directory_ok_iff.1 hd
  rw [RecordStore.lookup_child, hf]
  show s.follow dir (d.id, d.inode) [name] = _
  rw [RecordStore.follow_cons, if_pos isDir, hl]
  simp only [Except.bind, unlisted]

/-- Moving an entry that its directory does not have fails before anything is written. -/
theorem rename_unlisted {t : Transaction} {d : StoredDirectory} (hd : t.store.directory dir = .ok d)
    (unlisted : d.listing.get? name.text = none) (target : Path) :
    (rename (dir.child name) target).runOn t = (.error (refusal (dir.child name) target), t) := by
  rw [rename, refusal, Path.name?_child]
  rcases Path.root_or_child target with rfl | ⟨q, n, rfl⟩
  · rfl
  rw [Path.name?_child, if_neg (Path.child_ne_root q n)]
  dsimp only
  by_cases same : dir.child name = q.child n
  · rw [if_pos same, if_neg fun h => h.1 same, Action.runOn_bind, Action.runOn_discard, runOn_ask,
      lookup_unlisted hd unlisted]
    rfl
  rw [if_neg same]
  by_cases inside : (dir.child name).isPrefixOf (q.child n) = true
  · rw [if_pos inside, if_pos ⟨same, inside⟩]
    rfl
  · rw [if_neg inside, if_neg fun h => inside h.2, runOn_ask_bind, Path.parent_child, hd]
    dsimp only
    rw [unlisted]
    rfl

end RecordTree

/-! ## Both kinds of backends -/

/-- A store that is committed as it is changes nothing. -/
theorem Volumes.committed_transaction (v : Volumes) (j : Nat) :
    v.committed j (v.transaction j) = v := by
  have same : setAt v.stores j (v.stores j) = v.stores := by
    funext i
    by_cases here : i = j
    · rw [here, setAt_self]
    · rw [setAt_other _ _ here]
  rw [committed, transaction]
  dsimp only
  rw [same]

namespace System

variable {s : System} {b : BackendId} {dir : Path} {name : Segment} {entries : List DirEntry}

/-- **Moving what is not there**: an entry that its directory does not list cannot be moved
anywhere, and the attempt changes nothing. A tree in memory always answers that nothing was found;
all it does is to read the clock. A store answers so unless the target is the root, which is busy,
or lies inside the source, which makes the path invalid. -/
theorem rename_absent (listed : s.readdir b dir = .ok entries)
    (absent : ∀ e ∈ entries, e.name ≠ name.text) :
    (∀ tree, s.backends[b]? = some (.memory tree) → ∀ target, s.rename b (dir.child name) target =
      (.error (.notFound (dir.child name).toText), { s with volumes := s.volumes.ticked })) ∧
    ∀ store, s.backends[b]? = some (.keyValue store false) →
    ∀ target, s.rename b (dir.child name) target =
      (.error (RecordTree.refusal (dir.child name) target), s) := by
  refine ⟨fun tree there target => ?_, fun store there target => ?_⟩
  · rw [readdir, fileSystems, fileSystem_memory there] at listed
    have free := MemoryTree.free_of_readdir (t := s.volumes.trees tree) listed absent
    have refused :
        (s.volumes.ticked.trees tree).rename (dir.child name) target s.volumes.ambient.now =
          .error (.notFound (dir.child name).toText) := by
      rw [show s.volumes.ticked.trees tree = s.volumes.trees tree from rfl, MemoryTree.rename,
        MemoryTree.node, free]
      rfl
    rw [rename, fileSystems, fileSystem_memory there]
    show s.run (Volumes.now >>= fun now =>
      Volumes.changeTree tree (·.rename (dir.child name) target now)) = _
    rw [run, Volumes.runOn_now_bind, Volumes.runOn_changeTree, refused]
  · rw [readdir, fileSystems, fileSystem_keyValue there] at listed
    obtain ⟨d, hd, names⟩ := RecordTree.directory_of_readdir (s := s.volumes.stores store) listed
    have unlisted : d.listing.get? name.text = none := by
      refine Option.eq_none_iff_forall_ne_some.2 fun id found => ?_
      have key := SortedMap.mem_keys_iff.2 ⟨id, found⟩
      rw [← names] at key
      obtain ⟨e, mem, same⟩ := List.mem_map.1 key
      exact absent e mem same
    have refused := RecordTree.rename_unlisted (t := s.volumes.transaction store) hd unlisted target
    rw [rename, fileSystems, fileSystem_keyValue there]
    show s.run (Volumes.withStore store (RecordTree.rename (dir.child name) target)) = _
    rw [run, Volumes.runOn_withStore, refused, Volumes.committed_transaction]

/-- A directory with a file in each of two backends. -/
def withFile (s : System) (b : BackendId) : System :=
  (((s.mkdir b (.ofText "/d") 0o755).2).writeAll b (.ofText "/d/f") [120]).2

theorem Reached.withFile {l : List Backend} (reached : s.Reached l) (b : BackendId) :
    (s.withFile b).Reached l :=
  (reached.mkdir b _ _).writeAll b _ _

theorem withFile_readdir :
    ∀ s ∈ ((empty .counting).addMemory.addKeyValue (.ofRecords ∅) false).toOption,
    ∀ b : Nat, b < 2 →
      ((s.withFile 0).withFile 1).readdir b (.ofText "/d") = .ok [⟨"f", .file⟩] := by
  decide +kernel

/-- Next to a file, a name that is not there is not found by either backend, and nothing
changes in the store. -/
theorem rename_absent_besideFile :
    ∃ s : System, s.Reachable ∧ s.backends = [.memory 0, .keyValue 1 false] ∧
    (∀ b : Nat, b < 2 → s.readdir b (.ofText "/d") = .ok [⟨"f", .file⟩]) ∧
    (s.rename 0 (.ofText "/d/g") .root).1 = .error (.notFound "/d/g") ∧
    (s.rename 0 (.ofText "/d/g") (.ofText "/d/g/h")).1 = .error (.notFound "/d/g") ∧
    s.rename 1 (.ofText "/d/g") (.ofText "/x/y") = (.error (.notFound "/d/g"), s) ∧
    s.rename 1 (.ofText "/d/g") (.ofText "/d/g") = (.error (.notFound "/d/g"), s) := by
  obtain ⟨t, F, made, -⟩ | ⟨e, -, refused⟩ :=
    (System.empty .counting).addMemory.addKeyValue_cases (.ofRecords ∅) rfl false
  case inr => exact absurd (fun _ => rfl) refused
  have listed := withFile_readdir _ (by rw [made]; rfl)
  have reached := (((Reached.empty .counting).addMemory.addKeyValue rfl made).withFile 0).withFile 1
  generalize System.withFile _ 1 = s at listed reached
  let g : Segment := ⟨"g", by decide⟩
  have source : (Path.ofText "/d").child g = .ofText "/d/g" := by decide
  have absent : ∀ e ∈ [(⟨"f", .file⟩ : DirEntry)], e.name ≠ g.text := by decide
  have inTree := (rename_absent (listed 0 (by decide)) absent).1 0 (reached.at' rfl)
  have inStore := (rename_absent (listed 1 (by decide)) absent).2 1 (reached.at' rfl)
  rw [source] at inTree inStore
  refine ⟨s, reached.reachable, reached.backends, listed, ?_, ?_, inStore _, inStore _⟩
  · rw [inTree]
    rfl
  · rw [inTree]
    rfl

/-- An empty store does not say that a source is missing if it is to become the root, or to
move inside itself. -/
theorem absent_source_refused_otherwise :
    ∃ s, (System.empty .counting).addKeyValue (.ofRecords ∅) false = .ok s ∧ s.Reachable ∧
      s.readdir 0 .root = .ok [] ∧
      (s.rename 0 (.ofText "/a") .root).1 = .error (.busy "/") ∧
      (s.rename 0 (.ofText "/a") (.ofText "/a/b")).1 =
      .error (.invalidPath "cannot move /a inside itself") := by
  obtain ⟨s, made, answers⟩ := Except.exists_ok
    (x := (System.empty .counting).addKeyValue (.ofRecords ∅) false) (P := fun s =>
      s.readdir 0 .root = .ok [] ∧ (s.rename 0 (.ofText "/a") .root).1 = .error (.busy "/") ∧
      (s.rename 0 (.ofText "/a") (.ofText "/a/b")).1 =
      .error (.invalidPath "cannot move /a inside itself"))
    (by decide +kernel) (by decide +kernel)
  exact ⟨s, made, ((Reached.empty .counting).addKeyValue rfl made).reachable, answers⟩

end System

end MountSpace
