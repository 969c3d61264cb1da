import MountSpace.Proofs.CopyAcross
import MountSpace.Proofs.Session

/-!
# Renaming across backends

A composite renames within one backend by that backend's own rename, and between two by
copying. Neither leaves things as one would wish in all cases, and this module says
exactly in which it does not.

- `System.CopyStarts`: a rename comes to the point where it opens a copy.
- `System.CopyLost`, `System.CopyStranded`: the two ways in which a rename that fails leaves a
  trace.
- `rename_across_without_trace`: there are no others.
- `rename_keeps_file`: a rename that succeeds loses the file just if both paths lead to one place.
-/

namespace MountSpace

open Composite

/-! ## A composite in a system -/

/-- A backend says that it refuses every change. -/
def Backend.readOnly : Backend → Bool
  | .keyValue _ readOnly => readOnly
  | _ => false

namespace System

/-- The backend with a number says that it refuses every change. -/
def isReadOnly (s : System) (b : BackendId) : Bool := (s.backends[b]?).any Backend.readOnly

variable {s : System} {b : BackendId} {table : Nat} {p source target : Path} {k : Nat}

theorem InOrder.isReadOnly (inOrder : s.InOrder) (hops : Nat) (b : BackendId) :
    (fileSystem s.backends hops b).readOnly = s.isReadOnly b := by
  rw [System.isReadOnly]
  cases hb : s.backends[b]? with
  | none => cases hops <;> (rw [fileSystem, hb]; rfl)
  | some x =>
    cases x with
    | memory i => rw [fileSystem_memory hb]; rfl
    | keyValue j readOnly => rw [fileSystem_keyValue hb]; rfl
    | faulty inner faults capabilities => exact (inOrder.within b _ hb).elim
    | composite table =>
      cases hops with
      | zero => rw [fileSystem, hb]; rfl
      | succ hops => rw [fileSystem_composite hb]; rfl

section

variable (inOrder : s.InOrder) (there : s.backends[b]? = some (.composite table))
variable (enough : s.hopBudget p ≤ k + 1)
include there enough

/-- The way of a call goes on from where the table of a composite sends it. -/
theorem locate_child : MountSpace.locate s.backends s.volumes.tables k
    ((s.volumes.tables table).resolve p).backend ((s.volumes.tables table).resolve p).relative =
      s.locate b p := by
  rw [← locate_eq enough, MountSpace.locate, there]

include inOrder

/-- A composite reports what the backend reports that it sends the call on to. -/
theorem stat_child :
    (fileSystem s.backends k ((s.volumes.tables table).resolve p).backend).stat s.volumes
    ((s.volumes.tables table).resolve p).relative = s.stat b p := by
  have child := locate_child there enough
  rw [stat, fileSystems]
  cases h : s.locate b p with
  | none =>
    rw [h] at child
    rw [stat_lost inOrder.plain child, stat_lost inOrder.plain h]
  | some pl =>
    rw [h] at child
    rw [stat_located inOrder.volumes child, stat_located inOrder.volumes h]

theorem readAll_child :
    (fileSystem s.backends k ((s.volumes.tables table).resolve p).backend).readAll
    s.volumes ((s.volumes.tables table).resolve p).relative = s.readAll b p := by
  have child := locate_child there enough
  rw [readAll, fileSystems]
  cases h : s.locate b p with
  | none =>
    rw [h] at child
    rw [readAll_lost inOrder.plain child, readAll_lost inOrder.plain h]
  | some pl =>
    rw [h] at child
    rw [readAll_located child, readAll_located h]

theorem openFile_child (flags : OpenFlags) (mode : UInt32) :
    ((fileSystem s.backends k ((s.volumes.tables table).resolve p).backend).openFile
      ((s.volumes.tables table).resolve p).relative flags mode).runOn s.volumes =
      ((s.openFile b p flags mode).1, (s.openFile b p flags mode).2.volumes) := by
  have child := locate_child there enough
  rw [openFile, fileSystems, run]
  cases h : s.locate b p with
  | none =>
    rw [h] at child
    rw [openFile_lost inOrder.plain child, openFile_lost inOrder.plain h]
  | some pl =>
    rw [h] at child
    rw [openFile_located child, openFile_located h]

end

/-- A composite takes one hop itself and leaves the others to its backends. -/
theorem fileSystems_composite (there : s.backends[b]? = some (.composite table)) (p : Path) :
    ∃ k, s.hopBudget p = k + 1 ∧
    s.fileSystems p b = .composite table (fileSystem s.backends k) := by
  have positive : 0 < s.hopBudget p := Nat.mul_pos (Nat.succ_pos _) (Nat.succ_pos _)
  obtain ⟨k, hk⟩ := Nat.exists_eq_add_of_le' positive
  exact ⟨k, hk, by rw [fileSystems, hk, fileSystem_composite there]⟩

/-- What is enough for two paths one after the other is enough for each. -/
theorem hopBudget_append (s : System) (p q : Path) :
    s.hopBudget p ≤ s.hopBudget (p ++ q) ∧ s.hopBudget q ≤ s.hopBudget (p ++ q) := by
  have longer : ∀ r : Path, r.segments.length ≤ (p ++ q).segments.length →
      s.hopBudget r ≤ s.hopBudget (p ++ q) :=
    fun r le => Nat.mul_le_mul_left _ (Nat.succ_le_succ le)
  refine ⟨longer p ?_, longer q ?_⟩
  · rw [Path.segments_append, List.length_append]
    exact Nat.le_add_right ..
  · rw [Path.segments_append, List.length_append]
    exact Nat.le_add_left ..

/-- A rename in a composite, with a bound that is enough for both paths. -/
theorem rename_eq (there : s.backends[b]? = some (.composite table)) (source target : Path) :
    ∃ k, s.hopBudget source ≤ k + 1 ∧ s.hopBudget target ≤ k + 1 ∧
      s.rename b source target =
        s.run
          (Composite.rename (fileSystem s.backends k) (s.volumes.tables table) source target) := by
  obtain ⟨k, budget, asked⟩ := fileSystems_composite there (source ++ target)
  obtain ⟨longer, longer'⟩ := s.hopBudget_append source target
  refine ⟨k, budget ▸ longer, budget ▸ longer', ?_⟩
  rw [rename, asked]
  rfl

end System

/-! ## When a move begins -/

/-- A rename with a mount point at either path, or below, is refused, whatever the backends are. -/
theorem Composite.rename_busy {t : MountTable} {source target : Path}
    (busy : ¬(t.IsClear source ∧ t.IsClear target)) :
    ∃ e, ∀ child v, (Composite.rename child t source target).runOn v = (.error e, v) := by
  by_cases clear : t.IsClear source
  · have busy' : ¬t.IsClear target := fun clear' => busy ⟨clear, clear'⟩
    refine ⟨.busy target.toText, fun child v => ?_⟩
    rw [Composite.rename, guardSubtree_clear clear, guardSubtree_busy busy']
    rfl
  · refine ⟨.busy source.toText, fun child v => ?_⟩
    rw [Composite.rename, guardSubtree_busy clear]
    rfl

/-- Any other rename is one within a backend or a move. -/
theorem Composite.rename_clear {t : MountTable} {source target : Path} (clear : t.IsClear source)
    (clear' : t.IsClear target) (child : BackendId → FileSystem) :
    Composite.rename child t source target =
      if (t.resolve source).backend = (t.resolve target).backend then
        (child (t.resolve source).backend).rename (t.resolve source).relative
          (t.resolve target).relative
      else renameAcross child (t.resolve source) (t.resolve target) := by
  rw [Composite.rename, guardSubtree_clear clear, guardSubtree_clear clear']
  rfl

/-- A rename is refused at a mount point or above one. Otherwise it is one within
a backend or a move. -/
theorem Composite.runOn_rename (child : BackendId → FileSystem) (t : MountTable)
    (source target : Path) (v : Volumes) :
    (¬(t.IsClear source ∧ t.IsClear target) ∧
      ∃ e, (Composite.rename child t source target).runOn v = (.error e, v)) ∨
    (t.IsClear source ∧ t.IsClear target ∧ (Composite.rename child t source target).runOn v =
      (if (t.resolve source).backend = (t.resolve target).backend then
        (child (t.resolve source).backend).rename (t.resolve source).relative
          (t.resolve target).relative
      else renameAcross child (t.resolve source) (t.resolve target)).runOn v) := by
  by_cases clear : t.IsClear source ∧ t.IsClear target
  · rw [rename_clear clear.1 clear.2]
    exact .inr ⟨clear.1, clear.2, rfl⟩
  · obtain ⟨e, refused⟩ := rename_busy clear
    exact .inl ⟨clear, e, refused child v⟩

namespace System

/-- A rename comes to the point where a copy of some content is open: neither path is a mount
point or above one, neither backend that the table names is read-only, the content can be read
and the target opened. -/
structure CopyStarts (s : System) (b : BackendId) (table : Nat) (source target : Path)
    (data : Bytes) : Prop where
  clear : (s.volumes.tables table).IsClear source
  clear' : (s.volumes.tables table).IsClear target
  here : s.isReadOnly ((s.volumes.tables table).resolve source).backend = false
  there : s.isReadOnly ((s.volumes.tables table).resolve target).backend = false
  read : s.readAll b source = .ok data
  opened : ∃ attr, s.stat b source = .ok attr ∧
    (s.openFile b target .replacing attr.perm).1.isOk = true

/-- A file at the target is lost: the source is in a read-only backend, so the
copy is removed again. -/
def CopyLost (s : System) (b : BackendId) (table : Nat) (source target : Path) : Prop :=
  ∃ data, s.CopyStarts b table source target data ∧ data.length ≤ maxFileLength ∧
    (∃ pl, s.locate b source = some pl ∧ pl.readOnly = true) ∧ (s.readAll b target).isOk = true

/-- An empty file is left at the target: the content is too large for the copy that was opened. -/
def CopyStranded (s : System) (b : BackendId) (table : Nat) (source target : Path) : Prop :=
  ∃ data, s.CopyStarts b table source target data ∧ maxFileLength < data.length ∧
    (s.stat b target).isOk = false

/-- Two paths in a backend lead to one place. -/
def SamePlace (s : System) (b : BackendId) (p q : Path) : Prop :=
  ∃ pl ql, s.locate b p = some pl ∧ s.locate b q = some ql ∧ pl.Same ql

section

variable {s : System} {b : BackendId} {table : Nat} {p source target : Path} {k : Nat}
  {data : Bytes}
variable (inOrder : s.InOrder)
include inOrder

/-- What is read is the content of a file. -/
theorem look_of_readAll (read : s.readAll b p = .ok data) :
    ∃ perm, s.look b p = some (.file perm data) := by
  have content := inOrder.content_look b p
  rw [read] at content
  obtain ⟨e, he, hd⟩ := Option.bind_eq_some_iff.1 content.symm
  cases e with
  | file perm data' =>
    cases hd
    exact ⟨perm, he⟩
  | directory perm => cases hd

theorem readAll_of_look {perm : UInt32} (look : s.look b p = some (.file perm data)) :
    s.readAll b p = .ok data := by
  have content := inOrder.content_look b p
  rw [look] at content
  cases hr : s.readAll b p with
  | error e =>
    rw [hr] at content
    cases content
  | ok data' =>
    rw [hr] at content
    cases content
    rfl

theorem stat_isOk : (s.stat b p).isOk = (s.look b p).isSome := by
  have kind := inOrder.kind_look b p
  cases hs : s.stat b p with
  | error e =>
    rw [hs] at kind
    cases hl : s.look b p with
    | none => rfl
    | some e' =>
      rw [hl] at kind
      cases kind
  | ok attr =>
    rw [hs] at kind
    cases hl : s.look b p with
    | none =>
      rw [hl] at kind
      cases kind
    | some e' => rfl

theorem readAll_isOk : (s.readAll b p).isOk = ((s.look b p).bind Entry.data?).isSome := by
  rw [← inOrder.content_look]
  cases s.readAll b p <;> rfl

/-- A copy starts where the composite sends the calls on to. -/
theorem copyStarts_iff (data : Bytes) (there : s.backends[b]? = some (.composite table))
    (enough : s.hopBudget source ≤ k + 1) (enough' : s.hopBudget target ≤ k + 1) :
    s.CopyStarts b table source target data ↔
      (s.volumes.tables table).IsClear source ∧ (s.volumes.tables table).IsClear target ∧
      ∃ v' attr f, CopyOpens (fileSystem s.backends k) ((s.volumes.tables table).resolve source)
        ((s.volumes.tables table).resolve target) s.volumes v' attr data f := by
  constructor
  · intro h
    obtain ⟨attr, stat, opened⟩ := h.opened
    -- Only files can be read, so the move is not refused as one of a directory.
    have kind : attr.isDir = false := by
      obtain ⟨perm, look⟩ := look_of_readAll inOrder h.read
      have kind := inOrder.kind_look b source
      rw [look, stat] at kind
      rw [FileAttr.isDir, show attr.kind = .file from Option.some.inj kind]
      rfl
    cases ho : (s.openFile b target .replacing attr.perm).1 with
    | error e =>
      rw [ho] at opened
      cases opened
    | ok f =>
      refine ⟨h.clear, h.clear', (s.openFile b target .replacing attr.perm).2.volumes, attr, f, ?_⟩
      refine ⟨(inOrder.isReadOnly k _).trans h.here,
        (inOrder.isReadOnly k _).trans h.there, ?_, kind, ?_, ?_⟩
      · rw [stat_child inOrder there enough, stat]
      · rw [readAll_child inOrder there enough, h.read]
      · rw [openFile_child inOrder there enough', ho]
  · rintro ⟨clear, clear', v', attr, f, opens⟩
    refine ⟨clear, clear', (inOrder.isReadOnly k _).symm.trans opens.here,
      (inOrder.isReadOnly k _).symm.trans opens.there, ?_, attr, ?_, ?_⟩
    · rw [← readAll_child inOrder there enough, opens.read]
    · rw [← stat_child inOrder there enough, opens.stat]
    · have opened := opens.opened
      rw [openFile_child inOrder there enough'] at opened
      rw [congrArg Prod.fst opened]
      rfl

end

/-! ## A move that fails -/

section

variable {s : System} {b : BackendId} {p q : Path} {v' : Volumes} {w : Volume → Space}

/-- A path reads as before if its place looks as before. -/
theorem readsAs_of_becomes (inOrder : s.InOrder) (becomes : s.volumes.Becomes s.backends v' w)
    (same : ∀ pl, s.locate b p = some pl → w pl.volume pl.path = s.volumes.at pl) :
    s.ReadsAs ⟨s.backends, v'⟩ b p := by
  have inOrder' : System.InOrder ⟨s.backends, v'⟩ := ⟨becomes.inOrder, inOrder.within⟩
  refine inOrder.readsAs inOrder' ?_
  rw [look, look, locate_congr becomes.tables]
  cases h : s.locate b p with
  | none => rfl
  | some pl =>
    show s.volumes.at pl = v'.space pl.volume pl.path
    rw [becomes.space, same pl h]

/-- What stands at a path afterwards. -/
theorem look_of_becomes (becomes : s.volumes.Becomes s.backends v' w) {pl : Place}
    (h : s.locate b p = some pl) : System.look ⟨s.backends, v'⟩ b p = w pl.volume pl.path := by
  rw [look, locate_congr becomes.tables, h, Option.bind_some]
  show v'.space pl.volume pl.path = _
  rw [becomes.space]

theorem ReadsAs.isSome_look {s' : System} (h : s.ReadsAs s' b p) (inOrder : s.InOrder)
    (inOrder' : s'.InOrder) : (s.look b p).isSome = (s'.look b p).isSome := by
  have kind := h.kind
  rw [inOrder.kind_look, inOrder'.kind_look] at kind
  have := congrArg Option.isSome kind
  rwa [Option.isSome_map, Option.isSome_map] at this

end

section

variable {s : System} {b : BackendId} {table : Nat} {p : Path} {k : Nat} (inOrder : s.InOrder)
variable (there : s.backends[b]? = some (.composite table)) (enough : s.hopBudget p ≤ k + 1)
include inOrder there enough

/-- A path at which an inquiry succeeds leads somewhere. -/
theorem locate_of_stat {attr : FileAttr}
    (h : (fileSystem s.backends k ((s.volumes.tables table).resolve p).backend).stat s.volumes
      ((s.volumes.tables table).resolve p).relative = .ok attr) : ∃ pl, s.locate b p = some pl := by
  have child := locate_child there enough
  cases hp : s.locate b p with
  | some pl => exact ⟨pl, rfl⟩
  | none =>
    rw [hp] at child
    rw [stat_lost inOrder.plain child] at h
    cases h

/-- A path at which a file is opened leads somewhere. -/
theorem locate_of_openFile {flags : OpenFlags} {mode : UInt32} {f : OpenFile} {v' : Volumes}
    (h : ((fileSystem s.backends k ((s.volumes.tables table).resolve p).backend).openFile
      ((s.volumes.tables table).resolve p).relative flags mode).runOn s.volumes = (.ok f, v')) :
    ∃ pl, s.locate b p = some pl := by
  have child := locate_child there enough
  cases hp : s.locate b p with
  | some pl => exact ⟨pl, rfl⟩
  | none =>
    rw [hp] at child
    rw [openFile_lost inOrder.plain child] at h
    cases h

end

section

variable {s : System} {b : BackendId} {table : Nat} {source target : Path} {data : Bytes}
variable (starts : s.CopyStarts b table source target data)
include starts

theorem CopyStarts.content_unique {data' : Bytes}
    (starts' : s.CopyStarts b table source target data') :
    data = data' :=
  Except.ok.inj (starts.read.symm.trans starts'.read)

theorem CopyStarts.lost_iff : s.CopyLost b table source target ↔ data.length ≤ maxFileLength ∧
    (∃ pl, s.locate b source = some pl ∧ pl.readOnly = true) ∧
    (s.readAll b target).isOk = true := by
  constructor
  · rintro ⟨data', starts', how⟩
    cases starts.content_unique starts'
    exact how
  · exact fun how => ⟨data, starts, how⟩

theorem CopyStarts.stranded_iff : s.CopyStranded b table source target ↔
    maxFileLength < data.length ∧ (s.stat b target).isOk = false := by
  constructor
  · rintro ⟨data', starts', how⟩
    cases starts.content_unique starts'
    exact how
  · exact fun how => ⟨data, starts, how⟩

end

/-- What a failed rename leaves: all looks as before, and the rename was in neither of the two
cases. Or it was in one of them, and the place of the target has an entry where there was none, or
none where there was one. -/
def Leaves (s : System) (b : BackendId) (table : Nat) (source target : Path)
    (v' : Volumes) : Prop :=
  (s.volumes.Becomes s.backends v' s.volumes.space ∧
    ¬(s.CopyLost b table source target ∨ s.CopyStranded b table source target)) ∨
  ∃ pl entry, s.locate b target = some pl ∧
    s.volumes.Becomes s.backends v' (setEntry s.volumes.space pl entry) ∧
    (s.volumes.at pl).isSome ≠ entry.isSome ∧
    (s.CopyLost b table source target ∨ s.CopyStranded b table source target)

/-- What is left where the copy was open already. -/
theorem CopyStarts.leaves {s : System} (inOrder : s.InOrder) {b : BackendId} {table k : Nat}
    {source target : Path} {data : Bytes} (begun : s.CopyStarts b table source target data)
    {route route' : Route} {v' v'' : Volumes} {attr : FileAttr} {f : OpenFile} {pl pl' : Place}
    (opens : CopyOpens (fileSystem s.backends k) route route' s.volumes v' attr data f)
    (hs : s.locate b source = some pl) (ht : s.locate b target = some pl')
    (hs' : MountSpace.locate s.backends s.volumes.tables k route.backend route.relative = some pl)
    (ht' :
      MountSpace.locate s.backends s.volumes.tables k route'.backend route'.relative = some pl')
    {e : FsError} (failed : (f.refill (fileSystem s.backends k) data >>= fun _ =>
      removeSource (fileSystem s.backends k) route route').runOn v' = (.error e, v'')) :
    s.Leaves b table source target v'' := by
  -- No directory stands at the target, so that what is there can be read.
  have nodir := (opens.target_opened inOrder.volumes ht').2.1
  have stands : (s.stat b target).isOk = (s.volumes.at pl').isSome := by
    rw [stat_isOk inOrder, look_located ht]
  have reads : (s.readAll b target).isOk = (s.volumes.at pl').isSome := by
    rw [readAll_isOk inOrder, look_located ht]
    cases found : s.volumes.at pl' with
    | none => rfl
    | some entry =>
      cases entry with
      | directory perm => exact absurd found (nodir perm)
      | file perm data' => rfl
  rw [Leaves, begun.lost_iff, begun.stranded_iff]
  obtain ⟨v₁, ⟨large, ⟨e', end'⟩, becomes⟩ | ⟨small, closed, ⟨e', end'⟩, becomes⟩ |
      ⟨-, -, end', -⟩⟩ :=
    opens.becomes inOrder.volumes hs' ht'
  · cases end'.symm.trans failed
    rw [stands]
    by_cases free : s.volumes.at pl' = none
    · rw [if_pos free] at becomes
      refine .inr ⟨pl', _, ht, becomes, ?_, .inr ⟨large, ?_⟩⟩
      · rw [free]
        exact Bool.false_ne_true
      · rw [free]
        rfl
    · rw [if_neg free] at becomes
      refine .inl ⟨becomes, ?_⟩
      rintro (⟨small, -⟩ | ⟨-, absent⟩)
      · exact absurd large (Nat.not_lt.2 small)
      · exact free (Option.not_isSome_iff_eq_none.1 (Bool.eq_false_iff.1 absent))
  · cases end'.symm.trans failed
    rw [reads]
    by_cases free : s.volumes.at pl' = none
    · rw [setEntry_eq free] at becomes
      refine .inl ⟨becomes, ?_⟩
      rw [free]
      rintro (⟨-, -, present⟩ | ⟨large, -⟩)
      · cases present
      · exact absurd large (Nat.not_lt.2 small)
    · have taken := Option.isSome_iff_ne_none.2 free
      refine .inr ⟨pl', none, ht, becomes, ?_, .inl ⟨small, ⟨pl, hs, closed⟩, taken⟩⟩
      rw [taken]
      exact Bool.false_ne_true.symm
  · cases end'.symm.trans failed

/-- What a rename between two backends leaves if it fails. -/
theorem rename_across_leaves {s : System} (inOrder : s.InOrder) {b : BackendId} {table : Nat}
    (there : s.backends[b]? = some (.composite table)) {source target : Path}
    (across : ((s.volumes.tables table).resolve source).backend ≠
      ((s.volumes.tables table).resolve target).backend)
    {e : FsError} (failed : (s.rename b source target).1 = .error e) :
    ∃ v', (s.rename b source target).2 = ⟨s.backends, v'⟩ ∧ s.Leaves b table source target v' := by
  obtain ⟨k, enough, enough', eq⟩ := rename_eq there source target
  have starts := fun data => copyStarts_iff inOrder data there enough enough'
  rw [eq, run] at failed ⊢
  refine ⟨_, rfl, ?_⟩
  -- Neither case is given where the rename does not come to a copy.
  have idle : (¬∃ data, s.CopyStarts b table source target data) →
      ¬(s.CopyLost b table source target ∨ s.CopyStranded b table source target) := by
    rintro none' (⟨data, begun, -⟩ | ⟨data, begun, -⟩) <;> exact none' ⟨data, begun⟩
  have refl : s.volumes.Becomes s.backends s.volumes s.volumes.space := ⟨rfl, inOrder.volumes, rfl⟩
  rcases Composite.runOn_rename (fileSystem s.backends k) (s.volumes.tables table) source target
    s.volumes with ⟨busy, e', hr⟩ | ⟨clear, clear', hr⟩
  · rw [hr]
    refine .inl ⟨refl, idle ?_⟩
    rintro ⟨data, begun⟩
    exact busy ⟨begun.clear, begun.clear'⟩
  rw [if_neg across] at hr
  rcases runOn_renameAcross (fileSystem s.backends k) ((s.volumes.tables table).resolve source)
    ((s.volumes.tables table).resolve target) s.volumes with
    ⟨v', attr, data, f, opens, go⟩ | ⟨e', v', stop, none', unchanged⟩
  · rw [hr, go] at failed ⊢
    obtain ⟨pl, hs⟩ := locate_of_stat inOrder there enough opens.stat
    obtain ⟨pl', ht⟩ := locate_of_openFile inOrder there enough' opens.opened
    exact ((starts data).2 ⟨clear, clear', v', attr, f, opens⟩).leaves inOrder opens hs ht
      ((locate_child there enough).trans hs) ((locate_child there enough').trans ht)
      (Prod.ext failed rfl)
  · rw [hr, stop]
    refine .inl ⟨?_, idle ?_⟩
    · rcases unchanged with rfl | ⟨mode, refused⟩
      · exact refl
      · exact becomes_of_openFile_error inOrder.volumes inOrder.plain refused
    · rintro ⟨data, begun⟩
      obtain ⟨-, -, v', attr, f, opens⟩ := (starts data).1 begun
      exact none' ⟨v', attr, data, f, opens⟩

/-- **Failed moves**: a rename between two backends of a composite that fails leaves every path
as it was, except in two cases. Where the source leads to a read-only backend behind one that
does not say so, a file at the target is lost. Where the content is larger than a file can be, an
empty file is left where there was none. Even then nothing changes at a path that leads to
another place than the target. -/
theorem rename_across_without_trace {s : System} (reachable : s.Reachable) {b : BackendId}
    {table : Nat} (there : s.backends[b]? = some (.composite table)) {source target : Path}
    (across : ((s.volumes.tables table).resolve source).backend ≠
      ((s.volumes.tables table).resolve target).backend)
    {e : FsError} (failed : (s.rename b source target).1 = .error e) :
    ((∀ p, s.ReadsAs (s.rename b source target).2 b p) ↔
      ¬(s.CopyLost b table source target ∨ s.CopyStranded b table source target)) ∧
    ∀ p, ¬s.SamePlace b p target → s.ReadsAs (s.rename b source target).2 b p := by
  have inOrder := reachable.inOrder
  obtain ⟨v', eq, ⟨becomes, neither⟩ | ⟨pl, entry, ht, becomes, differs, either⟩⟩ :=
    rename_across_leaves inOrder there across failed
  · rw [eq]
    have same : ∀ p, s.ReadsAs ⟨s.backends, v'⟩ b p := fun p =>
      readsAs_of_becomes inOrder becomes fun _ _ => rfl
    exact ⟨⟨fun _ => neither, fun _ => same⟩, fun p _ => same p⟩
  · rw [eq]
    have inOrder' : System.InOrder ⟨s.backends, v'⟩ := ⟨becomes.inOrder, inOrder.within⟩
    refine ⟨⟨fun same => ?_, fun neither => absurd either neither⟩, fun p apart => ?_⟩
    · -- An entry has come or gone at the target, which a caller can tell.
      have there' := (same target).isSome_look inOrder inOrder'
      rw [look_located ht, look_of_becomes becomes ht, setEntry_same ⟨rfl, rfl⟩] at there'
      exact absurd there' differs
    · exact readsAs_of_becomes inOrder becomes fun pl' hp =>
        setEntry_other fun same => apart ⟨pl', pl, hp, ht, same⟩

/-- A system over a store that holds a file. A composite has nothing but a read-only backend over
the store, and is mounted at `/n` in another one that holds a file `/g`. -/
def covered (s : System) : System :=
  let s := (s.writeAll 1 (.ofText "/f") [115, 114, 99]).2
  let s := ((s.addReopened 1 true).2.addComposite 2).addComposite 0
  let s := (s.mount 4 (.ofText "/n") 3).2
  (s.writeAll 4 (.ofText "/g") [111, 108, 100]).2

theorem covered_reached {s : System}
    (made : (empty .counting).addMemory.addKeyValue (.ofRecords ∅) false = .ok s) :
    s.covered.Reached [.memory 0, .keyValue 1 false, .keyValue 1 true, .composite 3,
      .composite 4] := by
  have stored :=
    ((Reached.empty .counting).addMemory.addKeyValue rfl made).writeAll 1 (.ofText "/f")
    [115, 114, 99]
  have reopened := stored.addReopened (b := 1) rfl true
  have inner := reopened.addComposite (show 2 < _ by decide)
  have outer := inner.addComposite (show 0 < _ by decide)
  have mounted := outer.mount (b := 4) rfl (show 3 < _ by decide) (.ofText "/n")
  exact mounted.writeAll 4 (.ofText "/g") [111, 108, 100]

/-- A rename from the store to the file `/g` fails, and the file is gone. -/
theorem covered_rename :
    ∀ s ∈ ((empty .counting).addMemory.addKeyValue (.ofRecords ∅) false).toOption,
      ((s.covered.volumes.tables 3 = .new 2 ∧ (s.covered.volumes.tables 4).root = 0 ∧
          (s.covered.volumes.tables 4).mounts.toList = [(.ofText "/n", 3)]) ∧
        ((s.covered.volumes.tables 4).resolve (.ofText "/n/f")).backend = 3 ∧
        ((s.covered.volumes.tables 4).resolve (.ofText "/g")).backend = 0 ∧
        s.covered.readAll 4 (.ofText "/g") = .ok [111, 108, 100]) ∧
      (s.covered.rename 4 (.ofText "/n/f") (.ofText "/g")).1 = .error .readOnly ∧
      (s.covered.rename 4 (.ofText "/n/f") (.ofText "/g")).2.readAll 4 (.ofText "/g") =
        .error (.notFound "/g") := by
  decide +kernel

/-- The store can be made. -/
theorem exists_covered : ∃ s, (empty .counting).addMemory.addKeyValue (.ofRecords ∅) false = .ok s ∧
    s ∈ ((empty .counting).addMemory.addKeyValue (.ofRecords ∅) false).toOption := by
  obtain ⟨t, F, made, -⟩ | ⟨e, -, refused⟩ :=
    (empty .counting).addMemory.addKeyValue_cases (.ofRecords ∅) rfl false
  · exact ⟨_, made, by rw [made]; rfl⟩
  · exact absurd (fun _ => rfl) refused

/-- A file at the target is lost in a failed rename between backends without a volume in common. -/
theorem rename_across_loses_target :
    ∃ s : System, s.Reachable ∧
      s.backends = [.memory 0, .keyValue 1 false, .keyValue 1 true, .composite 3, .composite 4] ∧
      ((s.volumes.tables 3 = .new 2 ∧ (s.volumes.tables 4).root = 0 ∧
          (s.volumes.tables 4).mounts.toList = [(.ofText "/n", 3)]) ∧
        ((s.volumes.tables 4).resolve (.ofText "/n/f")).backend = 3 ∧
        ((s.volumes.tables 4).resolve (.ofText "/g")).backend = 0 ∧
        s.readAll 4 (.ofText "/g") = .ok [111, 108, 100]) ∧
      (s.rename 4 (.ofText "/n/f") (.ofText "/g")).1 = .error .readOnly ∧
      (s.rename 4 (.ofText "/n/f") (.ofText "/g")).2.readAll 4 (.ofText "/g") =
        .error (.notFound "/g") := by
  obtain ⟨s, made, mem⟩ := exists_covered
  obtain ⟨reachable, backends⟩ := covered_reached made
  exact ⟨s.covered, reachable, backends, covered_rename s mem⟩

/-- The same rename: it is in one of the two cases, and only the target has changed. -/
theorem rename_across_without_trace_covered :
    ∃ s : System, s.Reachable ∧ (s.rename 4 (.ofText "/n/f") (.ofText "/g")).1 = .error .readOnly ∧
      (s.CopyLost 4 4 (.ofText "/n/f") (.ofText "/g") ∨
        s.CopyStranded 4 4 (.ofText "/n/f") (.ofText "/g")) ∧
      ∀ p, ¬s.SamePlace 4 p (.ofText "/g") →
        s.ReadsAs (s.rename 4 (.ofText "/n/f") (.ofText "/g")).2 4 p := by
  obtain ⟨s, made, mem⟩ := exists_covered
  obtain ⟨reachable, backends⟩ := covered_reached made
  obtain ⟨⟨-, route, route', before⟩, failed, after⟩ := covered_rename s mem
  have there : s.covered.backends[4]? = some (.composite 4) := by
    rw [backends]
    rfl
  obtain ⟨traceless, elsewhere⟩ :=
    rename_across_without_trace reachable there (by rw [route, route']; decide) failed
  refine ⟨s.covered, reachable, failed, ?_, elsewhere⟩
  by_contra neither
  have content := (traceless.2 neither (.ofText "/g")).content
  rw [before, after] at content
  cases content

end System

/-! ## A rename that succeeds -/

section

variable {backends : List Backend} {v v' : Volumes} {hops : Nat} {b : BackendId} {p q : Path}
variable {pl : Place} {perm : UInt32} {data : Bytes}

/-- A file has been moved: it stands at the place of the target, unless two
different paths lead there. -/
def Moved (backends : List Backend) (v v' : Volumes) (hops : Nat) (b : BackendId) (p q : Path)
    (pl : Place) (data : Bytes) : Prop :=
  v'.tables = v.tables ∧ v'.InOrder backends ∧ ∃ ql, locate backends v.tables hops b q = some ql ∧
    (p = q ∨ ¬pl.Same ql → ∃ perm, v'.at ql = some (.file perm data)) ∧
    (p ≠ q → pl.Same ql → v'.at ql = none)

/-- The rename of a backend that keeps a tree itself moves the file. -/
theorem moved_arrived (inOrder : v.InOrder backends)
    (arr : arrived backends (pl.backend, pl.path) = some pl)
    (file : v.at pl = some (.file perm data))
    (renamed : ((pl.fileSystem backends).rename pl.path q).runOn v = (.ok (), v')) :
    Moved backends v v' hops pl.backend pl.path q pl data := by
  have settles := (pl.serves arr).change v (.rename pl.path q) (pl.sound arr inOrder)
  change Settles _ _ _ _ (((pl.fileSystem backends).rename pl.path q).runOn v) at settles
  rw [renamed] at settles
  obtain ⟨only, -, -, space⟩ := settles
  have landed : v'.space pl.volume q = some (.file perm data) := by
    rw [space, Space.after, Space.relocate_target]
    exact file
  refine ⟨only.tables, inOrder.changesOnly only, { pl with path := q }, locate_beside arr q hops,
    fun _ => ⟨perm, landed⟩, fun ne same => ?_⟩
  exact absurd same.2 ne

/-- The rename of a composite moves the file as the backend does, or by copying it. -/
theorem moved_onward (inOrder : v.InOrder backends)
    (plain : ∀ (b : Nat) (x : Backend), backends[b]? = some x → ∃ n, x.Within n) {table : Nat}
    (hb : backends[b]? = some (.composite table))
    (hp : locate backends v.tables hops ((v.tables table).resolve p).backend
      ((v.tables table).resolve p).relative = some pl)
    (file : v.at pl = some (.file perm data))
    (within : ∀ q, ((fileSystem backends hops ((v.tables table).resolve p).backend).rename
        ((v.tables table).resolve p).relative q).runOn v = (.ok (), v') →
      Moved backends v v' hops ((v.tables table).resolve p).backend
        ((v.tables table).resolve p).relative q pl data)
    (renamed : (Composite.rename (fileSystem backends hops) (v.tables table) p q).runOn v =
      (.ok (), v')) :
    Moved backends v v' (hops + 1) b p q pl data := by
  have onward : locate backends v.tables (hops + 1) b q = locate backends v.tables hops
      ((v.tables table).resolve q).backend ((v.tables table).resolve q).relative := by
    rw [locate, hb]
  rcases Composite.runOn_rename (fileSystem backends hops) (v.tables table) p q v with
    ⟨-, e, hr⟩ | ⟨-, -, hr⟩
  · cases hr.symm.trans renamed
  rw [hr] at renamed
  by_cases one : ((v.tables table).resolve p).backend = ((v.tables table).resolve q).backend
  · rw [if_pos one] at renamed
    obtain ⟨tables, inOrder', ql, hq, kept, lost⟩ := within _ renamed
    -- Within one backend two paths are one just if what is left of them is: a
    -- backend is mounted once.
    have same : p = q ↔
        ((v.tables table).resolve p).relative = ((v.tables table).resolve q).relative :=
      ⟨fun e => by rw [e], (inOrder.valid b table hb).resolve_injective one⟩
    refine ⟨tables, inOrder', ql, onward.trans (one ▸ hq), fun h => kept (h.imp_left same.1),
      fun ne => ?_⟩
    exact lost fun e => ne (same.2 e)
  · rw [if_neg one] at renamed
    have ne : p ≠ q := fun e => one (by rw [e])
    rcases runOn_renameAcross (fileSystem backends hops) ((v.tables table).resolve p)
      ((v.tables table).resolve q) v with ⟨v₁, attr, data', f, opens, go⟩ | ⟨e, v₁, stop, -⟩
    case inr => cases stop.symm.trans renamed
    rw [go] at renamed
    cases hq : locate backends v.tables hops ((v.tables table).resolve q).backend
        ((v.tables table).resolve q).relative with
    | none => cases (openFile_lost plain hq _ _).symm.trans opens.opened
    | some ql =>
      obtain ⟨perm', found⟩ := opens.source_file inOrder hp
      cases found.symm.trans file
      obtain ⟨v'', ⟨-, ⟨e, end'⟩, -⟩ | ⟨-, -, ⟨e, end'⟩, -⟩ | ⟨-, -, end', becomes⟩⟩ :=
        opens.becomes inOrder hp hq
      · cases end'.symm.trans renamed
      · cases end'.symm.trans renamed
      · cases end'.symm.trans renamed
        refine ⟨becomes.tables, becomes.inOrder, ql, onward.trans hq,
          fun h => ⟨f.attr.perm &&& permMask, ?_⟩, fun _ same => ?_⟩
        · -- The source is removed last, so the copy stays unless both are one place.
          have apart : ¬ql.Same pl := fun same => h.elim ne fun no => no ⟨same.1.symm, same.2.symm⟩
          rw [Volumes.at, becomes.space, setEntry_other apart, setEntry_same ⟨rfl, rfl⟩]
        · rw [Volumes.at, becomes.space, setEntry_same ⟨same.1.symm, same.2.symm⟩]

/-- A rename that succeeds has moved the file, however many composites it went through. -/
theorem moved_of_rename (inOrder : v.InOrder backends)
    (plain : ∀ (b : Nat) (x : Backend), backends[b]? = some x → ∃ n, x.Within n)
    (hp : locate backends v.tables hops b p = some pl) (file : v.at pl = some (.file perm data))
    (renamed : ((fileSystem backends hops b).rename p q).runOn v = (.ok (), v')) :
    Moved backends v v' hops b p q pl data := by
  have arr := locate_arrived hp
  refine locate_induction (motive := fun hops b p => ∀ q,
    ((fileSystem backends hops b).rename p q).runOn v = (.ok (), v') →
      Moved backends v v' hops b p q pl data) ?_ ?_ hp q renamed
  · intro hops same q renamed
    rw [same] at renamed
    exact moved_arrived inOrder arr file renamed
  · intro hops b p table hb hp within q renamed
    rw [fileSystem_composite hb] at renamed
    exact moved_onward inOrder plain hb hp file within renamed

end

namespace System

/-- **Successful renames**: after a rename of a file that succeeds the target has the content of the
source, except where two different paths lead to one place. There the file is gone. -/
theorem rename_keeps_file {s : System} (reachable : s.Reachable) {b : BackendId}
    {source target : Path} {data : Bytes} (read : s.readAll b source = .ok data)
    (renamed : (s.rename b source target).1 = .ok ()) :
    (s.rename b source target).2.readAll b target = .ok data ↔
      ¬(source ≠ target ∧ s.SamePlace b source target) := by
  have inOrder := reachable.inOrder
  obtain ⟨perm, look⟩ := look_of_readAll inOrder read
  obtain ⟨pl, hs, file⟩ := Option.bind_eq_some_iff.1 look
  rw [rename, run, fileSystems] at renamed ⊢
  generalize hr :
    ((fileSystem s.backends (s.hopBudget (source ++ target)) b).rename source target).runOn
    s.volumes = r at renamed ⊢
  obtain ⟨o, v'⟩ := r
  cases renamed
  -- The bound of the rename is enough to find the source.
  have longer : s.hopBudget source ≤ s.hopBudget (source ++ target) := by
    refine Nat.mul_le_mul_left _ (Nat.succ_le_succ ?_)
    rw [Path.segments_append, List.length_append]
    exact Nat.le_add_right ..
  obtain ⟨tables, inOrder', ql, hq, kept, lost⟩ :=
    moved_of_rename inOrder.volumes inOrder.plain (locate_mono hs longer) file hr
  have ht := locate_of hq
  have inOrder' : System.InOrder ⟨s.backends, v'⟩ := ⟨inOrder', inOrder.within⟩
  have look' : System.look ⟨s.backends, v'⟩ b target = v'.at ql := by
    rw [System.look, locate_congr tables, ht, Option.bind_some]
  constructor
  · rintro read' ⟨ne, pl', ql', hs', ht', same⟩
    cases hs.symm.trans hs'
    cases ht.symm.trans ht'
    obtain ⟨perm', found⟩ := look_of_readAll inOrder' read'
    cases (look'.symm.trans found).symm.trans (lost ne same)
  · intro no
    have apart : source = target ∨ ¬pl.Same ql := by
      by_cases e : source = target
      · exact .inl e
      · exact .inr fun same => no ⟨e, pl, ql, hs, ht, same⟩
    obtain ⟨perm', found⟩ := kept apart
    exact readAll_of_look inOrder' (look'.trans found)

/-- A composite that mounts one tree twice, at `/a` and at `/b`. The tree holds a file. -/
def mountedTwice : System :=
  let s := ((empty .counting).addMemory.addMemory.addSharing 1).addComposite 0
  let s := (s.mount 3 (.ofText "/a") 1).2
  let s := (s.mount 3 (.ofText "/b") 2).2
  (s.writeAll 3 (.ofText "/a/f") [120]).2

theorem mountedTwice_reached :
    mountedTwice.Reached [.memory 0, .memory 1, .memory 1, .composite 3] := by
  have shared := (Reached.empty .counting).addMemory.addMemory.addSharing (show 1 < _ by decide)
  have made := shared.addComposite (show 0 < _ by decide)
  have mounted := made.mount (b := 3) rfl (show 1 < _ by decide) (.ofText "/a")
  have twice := mounted.mount (b := 3) rfl (show 2 < _ by decide) (.ofText "/b")
  exact twice.writeAll 3 (.ofText "/a/f") [120]

/-- A rename from one mount of the tree to the other succeeds, and the file is gone. -/
theorem rename_loses_file :
    mountedTwice.Reachable ∧ mountedTwice.readAll 3 (.ofText "/a/f") = .ok [120] ∧
      (mountedTwice.rename 3 (.ofText "/a/f") (.ofText "/b/f")).1 = .ok () ∧
      (mountedTwice.rename 3 (.ofText "/a/f") (.ofText "/b/f")).2.readAll 3 (.ofText "/b/f") =
        .error (.notFound "/f") :=
  ⟨mountedTwice_reached.reachable, by decide +kernel⟩

/-- A rename from the tree to the other one keeps the file. -/
theorem rename_keeps_file_elsewhere :
    (mountedTwice.rename 3 (.ofText "/a/f") (.ofText "/g")).2.readAll 3 (.ofText "/g") =
    .ok [120] := by
  have places : mountedTwice.locate 3 (.ofText "/a/f") = some ⟨1, .tree 1, false, .ofText "/f"⟩ ∧
      mountedTwice.locate 3 (.ofText "/g") = some ⟨0, .tree 0, false, .ofText "/g"⟩ := by
    decide +kernel
  refine (rename_keeps_file mountedTwice_reached.reachable (by decide +kernel)
    (by decide +kernel)).2 ?_
  rintro ⟨-, pl, pl', h, h', same, -⟩
  cases places.1.symm.trans h
  cases places.2.symm.trans h'
  cases same

end System

end MountSpace
