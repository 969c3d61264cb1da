import MountSpace.Proofs.FileCalls
import MountSpace.Proofs.FileMoves
import MountSpace.Proofs.Relocation
import MountSpace.Proofs.RenameFailures

/-!
# What is told of a file that has moved

A backend that renames a file keeps what is told of it. A composite that moves a file to another
backend copies it, permission bits included, but where a file stands at the target the copy is
written into that one. So kind and size are those of the file that was moved in either case, and its
permission bits are so too unless it has replaced a file in another backend, which keeps its own.

- `rename_tells`: what a backend tells of an entry that it has renamed itself.
- `rename_passed`: a rename that succeeds in a composite is one of a backend, or a
  copy to another backend.
- `rename_within`: within one backend a composite leaves a rename to that backend.
- `rename_across_becomes`: between two backends a file takes the permission
  bits of what it replaces.
- `rename_file_metadata`: what a composite tells of a file that it has renamed.
-/

namespace MountSpace

/-- A tree is the same after an entry has moved to where it is. -/
theorem MemoryTree.rename_self {t t' : MemoryTree} {p : Path} {now : Instant}
    (renamed : t.rename p p now = .ok t') : t' = t := by
  obtain ⟨n, -, renamed⟩ := Except.bind_eq_ok.1 renamed
  by_cases root : p.isRoot = true
  · rw [if_pos root] at renamed
    cases renamed
  · rw [if_neg root] at renamed
    change (if p = p then pure t else _) = _ at renamed
    rw [if_pos rfl] at renamed
    exact (Except.ok.inj renamed).symm

namespace System

variable {s : System} {b : BackendId} {table : Nat} {p source target : Path} {pl pl' : Place}
  {attr : FileAttr}
variable {perm : UInt32} {data : Bytes}

/-! ## What is told at a place -/

/-- Attributes of a file show one. -/
theorem InOrder.file_of_stat (inOrder : s.InOrder) (found : s.stat b p = .ok attr)
    (isFile : attr.isFile = true) :
    ∃ perm data, s.look b p = some (.file perm data) ∧ (Entry.file perm data).Shows attr := by
  have stats := inOrder.stats_look b p
  rw [found] at stats
  obtain ⟨e, look, shows⟩ := stats
  rw [FileAttr.isFile, shows.kind] at isFile
  obtain ⟨perm, data, rfl⟩ : ∃ perm data, e = .file perm data := by
    cases e with
    | file perm data => exact ⟨perm, data, rfl⟩
    | directory perm => cases isFile
  exact ⟨perm, data, look, shows⟩

namespace Leads

/-- A composite tells of a path what the backend that it leads to does. -/
theorem stat_eq (inOrder : s.InOrder) (there : s.backends[b]? = some (.composite table))
    (leads : s.Leads table p pl) : s.stat b p = s.stat pl.backend pl.path := by
  rw [stat, fileSystems, stat_located inOrder.volumes (leads.locate there), stat, fileSystems,
    fileSystem_arrived leads.arrived]

/-- From below the composite, too, a path leads to its place. -/
theorem locate_child (leads : s.Leads table p pl) (hops : Nat) :
    MountSpace.locate s.backends s.volumes.tables hops ((s.volumes.tables table).resolve p).backend
      ((s.volumes.tables table).resolve p).relative = some pl := by
  rw [leads.backend, leads.relative]
  exact locate_of_arrived leads.arrived hops

/-- A path leads to the same place while the tables are the same. -/
theorem congr {v' : Volumes} (leads : s.Leads table p pl) (tables : v'.tables = s.volumes.tables) :
    System.Leads ⟨s.backends, v'⟩ table p pl := by
  constructor
  · rw [tables, leads.backend]
  · rw [tables, leads.relative]
  · exact leads.arrived
  · exact leads.writable

/-- The backend at the end of a path is a tree or a store. -/
theorem isPlain (leads : s.Leads table p pl) : s.IsPlain pl.backend := by
  rcases arrived_cases leads.arrived with ⟨i, hb, -⟩ | ⟨j, readOnly, hb, -⟩
  · exact .inl ⟨i, hb⟩
  · exact .inr ⟨j, readOnly, hb⟩

end Leads

/-! ## Renaming within one backend -/

/-- A backend that renames an entry itself tells of it what it told before, apart
from times and numbers. -/
theorem rename_tells (inOrder : s.InOrder) (plain : s.IsPlain b)
    (found : s.stat b source = .ok attr) (renamed : (s.rename b source target).1 = .ok ()) :
    ∃ after, (s.rename b source target).2.stat b target = .ok after ∧
      after.kind = attr.kind ∧ after.size = attr.size ∧ after.perm = attr.perm := by
  by_cases ne : source = target
  · -- The tree or the store is the same afterwards, and so is what it tells.
    subst ne
    refine ⟨attr, ?_, rfl, rfl, rfl⟩
    rw [← found]
    obtain ⟨tree, there⟩ | ⟨store, readOnly, there⟩ := plain
    · obtain ⟨now, t', moved, after⟩ := rename_memory there renamed
      rw [stat_memory (s := (s.rename b source source).2) there, stat_memory there, after,
        MemoryTree.rename_self moved]
    · obtain ⟨t, moved, after⟩ := rename_keyValue there renamed
      have same : t = s.volumes.transaction store := by
        rw [← RecordTree.runOn_rename_self source (s.volumes.transaction store), moved]
      rw [stat_keyValue (s := (s.rename b source source).2) there, stat_keyValue there, after, same]
      rfl
  · obtain ⟨tree, there⟩ | ⟨store, readOnly, there⟩ := plain
    · obtain ⟨now, relocated⟩ := inOrder.relocated_memory there ne renamed
      obtain ⟨a, after, before, told, marked⟩ := relocated.entry
      cases found.symm.trans before
      exact ⟨after, told, by rw [marked], by rw [marked], by rw [marked]⟩
    · obtain ⟨a, after, before, told, same⟩ := (inOrder.relocated_keyValue there ne renamed).1.entry
      cases found.symm.trans before
      exact ⟨after, told, by rw [same], by rw [same], by rw [same]⟩

/-- A rename at the end of the way changes no table. -/
theorem rename_tables (arr : MountSpace.arrived s.backends (pl.backend, pl.path) = some pl)
    (inOrder : s.InOrder) (q : Path) :
    (s.rename pl.backend pl.path q).2.volumes.tables = s.volumes.tables := by
  have sound := pl.sound arr inOrder.volumes
  rw [rename, fileSystems, fileSystem_arrived arr]
  exact ((pl.serves arr).changesOnly_change sound (.rename pl.path q)).tables

/-- A rename that the guards of a composite let pass is left to a backend, or is a
copy to another one. -/
theorem rename_passed (there : s.backends[b]? = some (.composite table))
    (renamed : (s.rename b source target).1 = .ok ()) : ∃ k,
    let route := (s.volumes.tables table).resolve source
    let route' := (s.volumes.tables table).resolve target
    s.rename b source target = s.run (if route.backend = route'.backend then
      (fileSystem s.backends k route.backend).rename route.relative route'.relative
      else Composite.renameAcross (fileSystem s.backends k) route route') := by
  obtain ⟨k, -, -, eq⟩ := rename_eq there source target
  refine ⟨k, ?_⟩
  rw [eq, run] at renamed
  rcases Composite.runOn_rename (fileSystem s.backends k) (s.volumes.tables table) source target
    s.volumes with ⟨-, e, hr⟩ | ⟨-, -, hr⟩
  · rw [hr] at renamed
    cases renamed
  · rw [eq, run, hr]
    rfl

section

variable (inOrder : s.InOrder) (there : s.backends[b]? = some (.composite table))
variable (hs : s.Leads table source pl) (ht : s.Leads table target pl')
variable (renamed : (s.rename b source target).1 = .ok ())
include there hs ht renamed

/-- Within one backend a composite leaves a rename to that backend. -/
theorem rename_within (one : pl.backend = pl'.backend) :
    s.rename b source target = s.rename pl.backend pl.path pl'.path := by
  obtain ⟨k, eq⟩ := rename_passed there renamed
  dsimp only at eq
  rw [eq, hs.backend, ht.backend, if_pos one, hs.relative, ht.relative, rename, fileSystems,
    fileSystem_arrived hs.arrived, fileSystem_arrived hs.arrived]

include inOrder

/-- Between two backends a file moves to its place there, with the permission bits of the file that
stood at it, if there was one. -/
theorem rename_across_becomes (across : pl.backend ≠ pl'.backend)
    (file : s.volumes.at pl = some (.file perm data)) :
    data.length ≤ maxFileLength ∧
      s.volumes.Becomes s.backends (s.rename b source target).2.volumes
        (setEntry (setEntry s.volumes.space pl'
        (some (.file (((s.volumes.at pl').map Entry.perm).getD perm) data))) pl none) := by
  obtain ⟨k, eq⟩ := rename_passed there renamed
  dsimp only at eq
  rw [if_neg (by rwa [hs.backend, ht.backend])] at eq
  rw [eq, run] at renamed ⊢
  rcases Composite.runOn_renameAcross (fileSystem s.backends k)
    ((s.volumes.tables table).resolve source) ((s.volumes.tables table).resolve target) s.volumes
    with ⟨v', attr, data', f, opens, go⟩ | ⟨e, v', stop, -⟩
  case inr =>
    rw [stop] at renamed
    cases renamed
  have source_at := hs.locate_child k
  have target_at := ht.locate_child k
  obtain ⟨perm', stands⟩ := opens.source_file inOrder.volumes source_at
  cases file.symm.trans stands
  -- The copy is made with the permission bits that are told of the source.
  have own : attr.perm &&& permMask = perm := by
    have stats :=
      (pl.serves hs.arrived).stat s.volumes pl.path (pl.sound hs.arrived inOrder.volumes)
    rw [← stat_located inOrder.volumes source_at, opens.stat] at stats
    obtain ⟨e, stands, shows⟩ := stats
    cases file.symm.trans stands
    exact shows.perm
  rw [go] at renamed ⊢
  obtain ⟨v'', ⟨-, ⟨e, end'⟩, -⟩ | ⟨-, -, ⟨e, end'⟩, -⟩ | ⟨small, -, end', becomes⟩⟩ :=
    opens.becomes inOrder.volumes source_at target_at
  · rw [end'] at renamed
    cases renamed
  · rw [end'] at renamed
    cases renamed
  · rw [opens.perm inOrder.volumes target_at, own] at becomes
    rw [end']
    exact ⟨small, becomes⟩

end

/-! ## Renaming in a composite -/

/-- **What is told of a renamed file**: in a composite over backends that keep a tree each and can
be changed, a file that has been renamed is told of at the target with the kind and the size it had.
Within one backend it has its permission bits, too. Between two backends it has them if nothing was
at the target, and else those of the file that was there. -/
theorem rename_file_metadata (reachable : s.Reachable)
    (there : s.backends[b]? = some (.composite table)) (separate : s.Separate table)
    (found : s.stat b source = .ok attr) (isFile : attr.isFile = true)
    (renamed : (s.rename b source target).1 = .ok ()) :
    ∃ after, (s.rename b source target).2.stat b target = .ok after ∧
      after.kind = attr.kind ∧ after.size = attr.size ∧
      (((s.volumes.tables table).resolve source).backend =
        ((s.volumes.tables table).resolve target).backend →
        after.perm = attr.perm) ∧
      (((s.volumes.tables table).resolve source).backend ≠
        ((s.volumes.tables table).resolve target).backend →
        after.perm &&& permMask = ((s.stat b target).toOption.getD attr).perm &&& permMask) := by
  have inOrder := reachable.inOrder
  have inOrder' : (s.rename b source target).2.InOrder :=
    (reachable.step (.rename s b source target)).inOrder
  obtain ⟨pl, hs⟩ := separate.leads source
  obtain ⟨pl', ht⟩ := separate.leads target
  rw [hs.backend, ht.backend]
  by_cases one : pl.backend = pl'.backend
  · -- The backend does it, and tells of the target what the composite does.
    have within := rename_within there hs ht renamed one
    have tables := rename_tables hs.arrived inOrder pl'.path
    rw [within] at renamed inOrder' ⊢
    have ht' : (s.rename pl.backend pl.path pl'.path).2.Leads table target pl' := ht.congr tables
    have told : (s.rename pl.backend pl.path pl'.path).2.stat b target =
        (s.rename pl.backend pl.path pl'.path).2.stat pl.backend pl'.path := by
      rw [ht'.stat_eq inOrder' there, one]
    rw [hs.stat_eq inOrder there] at found
    obtain ⟨after, stat, kind, size, perm⟩ := rename_tells inOrder hs.isPlain found renamed
    exact ⟨after, told.trans stat, kind, size, fun _ => perm, fun ne => absurd one ne⟩
  · obtain ⟨perm, data, look, shows⟩ := inOrder.file_of_stat found isFile
    have file : s.volumes.at pl = some (.file perm data) := by
      rw [← look_located (hs.locate there), look]
    obtain ⟨small, becomes⟩ := rename_across_becomes inOrder there hs ht renamed one file
    have apart : ¬pl'.Same pl := fun same => one <| by
      have valid := inOrder.volumes.valid b table there
      rw [← hs.backend, ← ht.backend, ht.eq_of_same separate valid hs same]
    have landed : (s.rename b source target).2.look b target =
        some (.file (((s.volumes.at pl').map Entry.perm).getD perm) data) := by
      refine (look_of_becomes becomes (ht.locate there)).trans ?_
      rw [setEntry_other apart, setEntry_same ⟨rfl, rfl⟩]
    obtain ⟨after, stat, shows'⟩ := inOrder'.exists_shows landed
    refine ⟨after, stat, shows'.kind.trans shows.kind.symm, ?_, fun same => absurd same one,
      fun _ => ?_⟩
    · rw [shows'.size data rfl small, shows.size data rfl small]
    · -- What stood at the target showed its permission bits.
      have bits := inOrder.perm_look b target
      rw [look_located (ht.locate there)] at bits
      rw [shows'.perm, Entry.perm, ← bits, show perm = attr.perm &&& permMask from shows.perm.symm,
        Option.getD_map]

/-- A composite over a tree with another tree mounted at `/n`. The first tree has a file that is
only for its owner, the second one a file that all may read. -/
def privateFile : System :=
  let s := (((empty .counting).addMemory.addMemory.addComposite 0).mount 2 (.ofText "/n") 1).2
  let s := (s.openFile 2 (.ofText "/f") .replacing 0o600).2
  (s.writeAll 2 (.ofText "/n/g") [120]).2

theorem privateFile_reached : privateFile.Reached [.memory 0, .memory 1, .composite 2] := by
  have made := (Reached.empty .counting).addMemory.addMemory.addComposite (show 0 < _ by decide)
  exact ((made.mount (b := 2) rfl (by decide) (.ofText "/n")).openFile 2 _ _ _).writeAll 2 _ _

theorem privateFile_separate : privateFile.Separate 2 := by
  have names : (let t := privateFile.volumes.tables 2; t.root :: t.mounts.values) = [0, 1] := by
    decide +kernel
  have named : ∀ c, (privateFile.volumes.tables 2).Names c →
      privateFile.backends[c]? = some (.memory c) := by
    intro c hc
    rw [MountTable.names_iff, names, List.mem_pair] at hc
    rcases hc with rfl | rfl
    · exact privateFile_reached.at' rfl
    · exact privateFile_reached.at' rfl
  have unshared : privateFile.Unshared (privateFile.volumes.tables 2).Names :=
      .of_trees fun c hc => by
    rw [volume?, named c hc]
    rfl
  refine ⟨unshared.kept, fun c hc => ?_, unshared.apart⟩
  rw [isReadOnly, named c hc]
  rfl

theorem privateFile_stat :
    ∃ attr, privateFile.stat 2 (.ofText "/f") = .ok attr ∧ attr.isFile = true ∧
    attr.perm = 0o600 :=
  Except.exists_ok (by decide +kernel) (by decide +kernel)

/-- A private file stays one if nothing is at the target in the other tree. -/
theorem rename_file_metadata_privateFile : ∃ after,
    (privateFile.rename 2 (.ofText "/f") (.ofText "/n/h")).2.stat 2 (.ofText "/n/h") = .ok after ∧
      after.kind = .file ∧ after.perm &&& permMask = 0o600 := by
  obtain ⟨attr, found, isFile, perm⟩ := privateFile_stat
  have renamed : (privateFile.rename 2 (.ofText "/f") (.ofText "/n/h")).1 = .ok () := by
    decide +kernel
  obtain ⟨after, stat, kind, -, -, bits⟩ := rename_file_metadata privateFile_reached.reachable
    (privateFile_reached.at' (b := 2) rfl) privateFile_separate found isFile renamed
  have absent : (privateFile.stat 2 (.ofText "/n/h")).toOption = none := by decide +kernel
  rw [absent, Option.getD_none, perm] at bits
  exact ⟨after, stat, kind.trans (beq_iff_eq.1 isFile), bits (by decide +kernel)⟩

/-- A private file that replaces a public one in the other tree is public afterwards. -/
theorem moved_file_takes_replaced_perm :
    privateFile.Reachable ∧ privateFile.backends = [.memory 0, .memory 1, .composite 2] ∧
    privateFile.Separate 2 ∧
    ∃ attr after, privateFile.stat 2 (.ofText "/f") = .ok attr ∧ attr.isFile = true ∧
      (privateFile.rename 2 (.ofText "/f") (.ofText "/n/g")).1 = .ok () ∧
      (privateFile.rename 2 (.ofText "/f") (.ofText "/n/g")).2.stat 2 (.ofText "/n/g") = .ok after ∧
      attr.perm = 0o600 ∧ after.perm = 0o644 := by
  obtain ⟨attr, found, isFile, perm⟩ := privateFile_stat
  obtain ⟨after, stat, perm'⟩ := Except.exists_ok
    (x := (privateFile.rename 2 (.ofText "/f") (.ofText "/n/g")).2.stat 2 (.ofText "/n/g"))
    (P := fun a => a.perm = 0o644) (by decide +kernel) (by decide +kernel)
  exact ⟨privateFile_reached.reachable, privateFile_reached.backends, privateFile_separate, attr,
    after, found, isFile, by decide +kernel, stat, perm, perm'⟩

end System

end MountSpace
