import MountSpace.Proofs.Directories
import MountSpace.Proofs.FileCalls
import MountSpace.Proofs.FileMoves

/-!
# What a mount does to the backends

Before anything is mounted, the directories above the mount point are made where they are missing,
one after the other, each in the backend that the table sends it to. That is all that happens to any
backend, whether the mount succeeds or not.

- `FileAttr.lasting`, `Lasts`: what is told of a path, apart from the times and the size of a
  directory. Making a directory keeps it everywhere (`mkdir_lasts`).
- `Volumes.Gains`: directories have been made at some places where there was
  nothing, and nothing else.
- `Composite.ensureDirectory_cases`: what making sure of one directory comes to.
- `Composite.ensureDirectory_gains`, `Composite.ensureAll_gains`: what one
  directory adds, and any number.
- `Composite.mount_gains`: what comes of a mount, volume by volume.
- `System.Gains`, `System.MissingAbove`: the same, as a caller sees it in a backend.
- `System.mount_effect`: what a mount that succeeds leads to, and what a mount
  leaves in every backend.
-/

namespace MountSpace

/-! ## What is told of a path -/

/-- Attributes without the times and the size of a directory, which change as
entries come and go. -/
def FileAttr.lasting (a : FileAttr) : FileAttr :=
  match a.kind with
  | .file => a
  | .directory => { a with size := 0, atime := .epoch, mtime := .epoch, ctime := .epoch }

/-- What was told of a path before is told still, as far as it lasts. -/
def Lasts (told told' : Except FsError FileAttr) : Prop :=
  ∀ a, told = .ok a → ∃ a', told' = .ok a' ∧ a'.lasting = a.lasting

theorem Lasts.refl (told : Except FsError FileAttr) : Lasts told told :=
  fun a found => ⟨a, found, rfl⟩

theorem Lasts.trans {told told' told'' : Except FsError FileAttr} (h : Lasts told told')
    (h' : Lasts told' told'') : Lasts told told'' := by
  intro a found
  obtain ⟨a', found', same⟩ := h a found
  obtain ⟨a'', found'', same'⟩ := h' a' found'
  exact ⟨a'', found'', same'.trans same⟩

/-- What lasts of a directory that is kept in records are its permission bits and its numbers. -/
theorem Inode.lasting_toAttr {i : Inode} (directory : i.kind = .directory) : i.toAttr.lasting =
    ⟨0, .directory, i.perm, .epoch, .epoch, .epoch, 2, i.dev, i.ino⟩ := by
  have tag : FileKind.ofMode i.mode.toUInt32 = .directory := directory
  rw [FileAttr.lasting, kind_toAttr, directory, toAttr, FileAttr.ofMode, tag]
  simp only [FileAttr.directory, FileAttr.created, perm_idem, perm]

/-- A directory with another listing is told as before, apart from its times and its size. -/
theorem Slot.Relists.lasting {x d : Slot} {l l' : Listing} (h : x.Relists d l') (fits : x.Fits)
    (hl : x.body = .directory l) : d.inode.toAttr.lasting = x.inode.toAttr.lasting := by
  have here : x.inode.kind = .directory := by rw [fits.kind, hl]; rfl
  have there : d.inode.kind = .directory := by rw [h.fits.kind, h.body]; rfl
  rw [Inode.lasting_toAttr here, Inode.lasting_toAttr there, h.perm, h.numbers.1, h.numbers.2]

/-- What slots that have grown tell is what they told, as far as it lasts. -/
theorem RecordTree.lasts_of_grows {s s' : RecordStore} {F F' : Slots} (h : s.Represents F)
    (h' : s'.Represents F') (grows : F.Grows F') (q : Path) : Lasts (stat s q) (stat s' q) := by
  intro a found
  have told := stat_toOption h q
  rw [found] at told
  obtain ⟨x, hx, rfl⟩ := Option.map_eq_some_iff.1 told.symm
  obtain ⟨x', hx', same⟩ := grows q x hx
  have told' := stat_toOption h' q
  rw [hx'] at told'
  refine ⟨x'.inode.toAttr, ?_, ?_⟩
  · cases answer : stat s' q with
    | error e =>
      rw [answer] at told'
      cases told'
    | ok a =>
      rw [answer] at told'
      cases told'
      rfl
  · obtain rfl | ⟨l, l', hl, relists⟩ := same
    · rfl
    · exact relists.lasting (h.coherent.fits q x hx) hl

/-- A tree tells of its nodes just what it told before a directory was made. -/
theorem MemoryTree.stat_kept {t t' : MemoryTree} {p q : Path} {mode : UInt32} {now : Instant}
    {a : FileAttr} (made : t.mkdir p mode now = .ok t') (found : t.stat q = .ok a) :
    t'.stat q = .ok a := by
  rw [mkdir] at made
  cases hp : t.get? p with
  | some n =>
    rw [hp] at made
    cases made
  | none =>
    rw [hp] at made
    cases hd : t.checkDirectory p.parent with
    | error e =>
      rw [hd] at made
      cases made
    | ok _ =>
      rw [hd] at made
      cases made
      have ne : q ≠ p := by
        rintro rfl
        rw [stat, node, hp] at found
        cases found
      rw [stat, node] at found ⊢
      rwa [get?_put, if_neg ne]

/-- What a volume tells of a path. -/
def Volumes.attr (v : Volumes) : Volume → Path → Except FsError FileAttr
  | .tree i, q => (v.trees i).stat q
  | .store j, q => RecordTree.stat (v.stores j) q

section

variable {backends : List Backend} {v v' v'' : Volumes} {pl : Place}

theorem Place.stat_eq (arr : arrived backends (pl.backend, pl.path) = some pl) (q : Path) :
    (pl.fileSystem backends).stat v q = v.attr pl.volume q := by
  rcases arrived_cases arr with ⟨i, hb, e⟩ | ⟨j, readOnly, hb, e⟩
  · rw [Place.fileSystem, fileSystem_memory hb, e]
    rfl
  · rw [Place.fileSystem, fileSystem_keyValue hb, e]
    rfl

/-- What is missing in a directory is reported to be just that. -/
theorem Place.stat_notFound (arr : arrived backends (pl.backend, pl.path) = some pl)
    (inOrder : v.InOrder backends) (absent : v.space pl.volume pl.path = none)
    (parent : (v.space pl.volume).IsDirectory pl.path.parent) :
    ∃ e, (pl.fileSystem backends).stat v pl.path = .error e ∧ e.isNotFound = true := by
  have sound := pl.sound arr inOrder
  rw [pl.stat_eq arr]
  generalize pl.volume = vol at absent parent sound ⊢
  cases vol with
  | tree i =>
    have nothing : (v.trees i).get? pl.path = none := MemoryTree.space_eq_none_iff.1 absent
    rw [Volumes.attr, MemoryTree.stat, MemoryTree.node, nothing]
    exact ⟨_, rfl, rfl⟩
  | store j =>
    obtain ⟨F, h⟩ := sound
    rw [Volumes.space, h.space_eq] at absent parent
    obtain ⟨e, he, notFound⟩ :=
      RecordStore.lookup_none h.coherent h.rooted h.holds (Slots.space_eq_none_iff.1 absent)
    rw [Volumes.attr, RecordTree.stat, he]
    exact ⟨e, rfl, notFound (Slots.isDirectory_iff.1 parent)⟩

/-- Making a directory keeps what every volume tells, as far as it lasts, also if it fails. -/
theorem mkdir_lasts (arr : arrived backends (pl.backend, pl.path) = some pl)
    (inOrder : v.InOrder backends) (mode : UInt32) (vol : Volume) (q : Path) : Lasts (v.attr vol q)
      ((((pl.fileSystem backends).mkdir pl.path mode).runOn v).2.attr vol q) := by
  have only : v.ChangesOnly (((pl.fileSystem backends).mkdir pl.path mode).runOn v).2 pl.volume :=
    (pl.serves arr).changesOnly_change (pl.sound arr inOrder) (.mkdir pl.path mode)
  by_cases other : vol = pl.volume
  case neg =>
    cases vol with
    | tree i =>
      rw [Volumes.attr, Volumes.attr, only.trees i other]
      exact .refl _
    | store j =>
      rw [Volumes.attr, Volumes.attr, only.stores j other]
      exact .refl _
  subst other
  have sound := pl.sound arr inOrder
  rcases arrived_cases arr with ⟨i, hb, e⟩ | ⟨j, readOnly, hb, e⟩
  · rw [Place.fileSystem, fileSystem_memory hb, e]
    show Lasts ((v.trees i).stat q)
      (((Volumes.changeTree i (·.mkdir pl.path mode v.ambient.now)).runOn
      v.ticked).2.attr (.tree i) q)
    rw [Volumes.runOn_changeTree]
    cases made : (v.ticked.trees i).mkdir pl.path mode v.ambient.now with
    | error e => exact .refl _
    | ok t =>
      intro a found
      refine ⟨a, ?_, rfl⟩
      show (setAt v.trees i t i).stat q = .ok a
      rw [setAt_self]
      exact MemoryTree.stat_kept made found
  · obtain ⟨F, h⟩ : v.SoundAt (.store j) := by rwa [e] at sound
    rw [Place.fileSystem, fileSystem_keyValue hb, e]
    show Lasts (RecordTree.stat (v.stores j) q)
      ((((FileSystem.keyValue pl.backend j readOnly).change
      (.mkdir pl.path mode)).runOn v).2.attr (.store j) q)
    rw [keyValue_change]
    cases readOnly with
    | true => exact .refl _
    | false =>
      obtain ⟨F', h', grows⟩ := RecordTree.mkdir_grows (t := v.transaction j) h pl.path mode
      rw [if_neg Bool.false_ne_true, Volumes.runOn_withStore, Volumes.attr,
        Volumes.stores_committed]
      exact RecordTree.lasts_of_grows h h' grows q

/-! ## Directories that are made -/

/-- Directories have been made at some places where there was nothing. Everything else looks as
before, and what is told of it is what was told, as far as it lasts. -/
structure Volumes.Gains (backends : List Backend) (v v' : Volumes)
    (gained : Volume → Path → Prop) : Prop where
  tables : v'.tables = v.tables
  inOrder : v'.InOrder backends
  made : ∀ vol q, gained vol q →
    v.space vol q = none ∧ v'.space vol q = some (.directory Composite.ancestorPerm)
  same : ∀ vol q, ¬gained vol q → v'.space vol q = v.space vol q
  lasts : ∀ vol q, Lasts (v.attr vol q) (v'.attr vol q)

namespace Volumes.Gains

variable {gained gained' : Volume → Path → Prop}

theorem refl (inOrder : v.InOrder backends) : v.Gains backends v fun _ _ => False where
  tables := rfl
  inOrder := inOrder
  made := fun _ _ no => no.elim
  same := fun _ _ _ => rfl
  lasts := fun _ _ => .refl _

theorem congr (h : v.Gains backends v' gained) (iff : ∀ vol q, gained vol q ↔ gained' vol q) :
    v.Gains backends v' gained' := by
  rwa [show gained = gained' from funext fun vol => funext fun q => propext (iff vol q)] at h

theorem trans (h : v.Gains backends v' gained) (h' : v'.Gains backends v'' gained') :
    v.Gains backends v'' fun vol q => gained vol q ∨ gained' vol q where
  tables := h'.tables.trans h.tables
  inOrder := h'.inOrder
  made := by
    rintro vol q (first | second)
    · obtain ⟨absent, made⟩ := h.made vol q first
      refine ⟨absent, (h'.same vol q fun second => ?_).trans made⟩
      exact Option.some_ne_none _ (made.symm.trans (h'.made vol q second).1)
    · obtain ⟨absent, made⟩ := h'.made vol q second
      refine ⟨(h.same vol q fun first => ?_).symm.trans absent, made⟩
      exact Option.some_ne_none _ ((h.made vol q first).2.symm.trans absent)
  same := fun vol q neither =>
    (h'.same vol q fun second => neither (.inr second)).trans
      (h.same vol q fun first => neither (.inl first))
  lasts := fun vol q => (h.lasts vol q).trans (h'.lasts vol q)

/-- What stood somewhere stands there still. -/
theorem kept (h : v.Gains backends v' gained) {vol : Volume} {q : Path} {e : Entry}
    (found : v.space vol q = some e) : v'.space vol q = some e := by
  rw [h.same vol q fun new => Option.some_ne_none e (found.symm.trans (h.made vol q new).1), found]

theorem isDirectory (h : v.Gains backends v' gained) {vol : Volume} {q : Path} :
    (v.space vol).IsDirectory q → (v'.space vol).IsDirectory q
  | ⟨perm, found⟩ => ⟨perm, h.kept found⟩

end Volumes.Gains

/-- A table sends a path to a path in a volume. -/
def MountTable.LeadsTo (t : MountTable) (backends : List Backend) (a : Path) (vol : Volume)
    (q : Path) : Prop :=
  backends[(t.resolve a).backend]?.bind Backend.volume? = some vol ∧ (t.resolve a).relative = q

/-- There is nothing at a place that a table sends one of some paths to. -/
def Volumes.Missing (v : Volumes) (backends : List Backend) (t : MountTable) (l : List Path)
    (vol : Volume) (q : Path) : Prop :=
  v.space vol q = none ∧ ∃ a ∈ l, t.LeadsTo backends a vol q

end

/-- A directory is made where there was nothing, or nothing is made. -/
theorem Place.mkdir_gains {backends : List Backend} {v : Volumes} {pl : Place}
    (arr : arrived backends (pl.backend, pl.path) = some pl) (inOrder : v.InOrder backends)
    (absent : v.space pl.volume pl.path = none) : ∃ v',
    (((pl.fileSystem backends).mkdir pl.path Composite.ancestorPerm).runOn v = (.ok (), v') ∧
      v.Gains backends v' fun vol q => vol = pl.volume ∧ q = pl.path) ∨
    ∃ e, ((pl.fileSystem backends).mkdir pl.path Composite.ancestorPerm).runOn v = (.error e, v') ∧
      v.Gains backends v' fun _ _ => False := by
  have settles : Settles pl.volume pl.readOnly (.mkdir pl.path Composite.ancestorPerm) v
      (((pl.fileSystem backends).mkdir pl.path Composite.ancestorPerm).runOn v) :=
    (pl.serves arr).change v (.mkdir pl.path Composite.ancestorPerm) (pl.sound arr inOrder)
  have lasts := mkdir_lasts arr inOrder Composite.ancestorPerm
  generalize ((pl.fileSystem backends).mkdir pl.path Composite.ancestorPerm).runOn v =
    r at settles lasts ⊢
  obtain ⟨e | _, v'⟩ := r
  · obtain ⟨changes, same, -⟩ := settles
    refine ⟨v', .inr ⟨e, rfl, changes.tables, inOrder.changesOnly changes, fun _ _ no => no.elim,
      fun vol q _ => ?_, lasts⟩⟩
    by_cases other : vol = pl.volume
    · rw [other, same]
    · rw [changes.space_other other]
  · obtain ⟨changes, -, -, after⟩ := settles
    refine ⟨v', .inl ⟨rfl, changes.tables, inOrder.changesOnly changes, ?_,
      fun vol q elsewhere => ?_, lasts⟩⟩
    · rintro vol q ⟨rfl, rfl⟩
      rw [after]
      exact ⟨absent, Space.put_self _ _⟩
    · by_cases other : vol = pl.volume
      · rw [other, after]
        exact Space.put_other _ fun here => elsewhere ⟨other, here⟩
      · rw [changes.space_other other]

namespace Composite

variable {backends : List Backend} {t : MountTable} {v : Volumes}

/-- What making sure of a directory comes to: a mount point is left alone, and so is a directory,
and what is not found is made. -/
theorem runOn_ensureDirectory (child : BackendId → FileSystem) (t : MountTable) (v : Volumes)
    (a : Path) : (ensureDirectory child t a).runOn v =
      if t.isMountPoint a then (.ok (), v)
      else match (child (t.resolve a).backend).stat v (t.resolve a).relative with
        | .ok attr => if attr.isDir then (.ok (), v) else (.error (.notADirectory a.toText), v)
        | .error e =>
          if e.isNotFound then
            ((child (t.resolve a).backend).mkdir (t.resolve a).relative ancestorPerm).runOn v
          else (.error e, v) := by
  rw [ensureDirectory]
  cases t.isMountPoint a with
  | true => rfl
  | false =>
    simp only [Bool.false_eq_true, if_false]
    rw [Action.runOn_get_bind]
    cases (child (t.resolve a).backend).stat v (t.resolve a).relative with
    | ok attr =>
      dsimp only
      cases attr.isDir <;> rfl
    | error e =>
      dsimp only
      cases e.isNotFound <;> rfl

/-- After one directory has been made sure of, those that are missing of some more are
missing of them all. -/
theorem missing_cons {v' : Volumes} {a : Path} {l : List Path}
    (first : v.Gains backends v' (v.Missing backends t [a])) (vol : Volume) (q : Path) :
    v.Missing backends t [a] vol q ∨ v'.Missing backends t l vol q ↔
    v.Missing backends t (a :: l) vol q := by
  constructor
  · rintro (⟨absent, a', mem, leads⟩ | ⟨absent, a', mem, leads⟩)
    · cases List.mem_singleton.1 mem
      exact ⟨absent, a, List.mem_cons_self, leads⟩
    · refine ⟨?_, a', List.mem_cons_of_mem a mem, leads⟩
      cases found : v.space vol q with
      | none => rfl
      | some e => cases absent.symm.trans (first.kept found)
  · rintro ⟨absent, a', mem, leads⟩
    by_cases here : t.LeadsTo backends a vol q
    · exact .inl ⟨absent, a, List.mem_singleton_self a, here⟩
    · have later : a' ∈ l := (List.mem_cons.1 mem).resolve_left fun e => here (e ▸ leads)
      refine .inr
        ⟨(first.same vol q fun ⟨_, b, hb, leads'⟩ => here ?_).trans absent, a', later, leads⟩
      rwa [← List.mem_singleton.1 hb]

variable (inOrder : v.InOrder backends)
include inOrder

/-- What making sure of a directory comes to where a path leads to a place in a volume: there is
nothing to do, or a directory is made where there is nothing, or something is in the way. -/
theorem ensureDirectory_cases {pl : Place} (arr : arrived backends (pl.backend, pl.path) = some pl)
    {a : Path} (backend : (t.resolve a).backend = pl.backend)
    (relative : (t.resolve a).relative = pl.path) (hops : Nat) :
    (v.space pl.volume).IsDirectory pl.path ∧
        (ensureDirectory (fileSystem backends hops) t a).runOn v = (.ok (), v) ∨
      (t.isMountPoint a = false ∧ v.space pl.volume pl.path = none ∧
        (ensureDirectory (fileSystem backends hops) t a).runOn v =
          ((pl.fileSystem backends).mkdir pl.path ancestorPerm).runOn v) ∨
      ∃ e, (ensureDirectory (fileSystem backends hops) t a).runOn v = (.error e, v) ∧
        ¬(v.space pl.volume).IsDirectory pl.path ∧
        ((v.space pl.volume).IsDirectory pl.path.parent → v.space pl.volume pl.path ≠ none) := by
  have sound := pl.sound arr inOrder
  rw [runOn_ensureDirectory, backend, relative, show fileSystem backends hops pl.backend =
      pl.fileSystem backends from fileSystem_arrived arr hops]
  by_cases mounted : t.isMountPoint a = true
  · rw [if_pos mounted]
    refine .inl ⟨?_, rfl⟩
    rw [← relative, MountTable.relative_of_isMountPoint mounted]
    exact sound.tree.root
  rw [if_neg mounted]
  have stats := (pl.serves arr).stat v pl.path sound
  cases answer : (pl.fileSystem backends).stat v pl.path with
  | ok attr =>
    rw [answer] at stats
    obtain ⟨e, found, shows⟩ := stats
    dsimp only
    have told : attr.isDir = true ↔ e.kind = .directory := by
      rw [FileAttr.isDir, shows.kind]
      exact beq_iff_eq
    by_cases directory : attr.isDir = true
    · rw [if_pos directory]
      exact .inl ⟨Space.isDirectory_of_kind found (told.1 directory), rfl⟩
    · rw [if_neg directory]
      refine .inr (.inr ⟨_, rfl, ?_, fun _ absent =>
        Option.some_ne_none e (found.symm.trans absent)⟩)
      rintro ⟨perm, here⟩
      cases found.symm.trans here
      exact directory (told.2 rfl)
  | error e =>
    rw [answer] at stats
    have absent : v.space pl.volume pl.path = none := stats
    dsimp only
    by_cases notFound : e.isNotFound = true
    · rw [if_pos notFound]
      exact .inr (.inl ⟨Bool.eq_false_iff.2 mounted, absent, rfl⟩)
    · rw [if_neg notFound]
      refine .inr (.inr ⟨e, rfl, fun directory => directory.ne_none absent, fun parent => ?_⟩)
      obtain ⟨e', told, reason⟩ := pl.stat_notFound arr inOrder absent parent
      cases answer.symm.trans told
      exact absurd reason notFound

variable (plain : ∀ d, t.Names d → ∃ vol, backends[d]?.bind Backend.volume? = some vol)
include plain

/-- A directory is made sure of: it is made if it is missing, or what is in its way
makes the call fail. -/
theorem ensureDirectory_gains (hops : Nat) (a : Path) : ∃ v',
    ((ensureDirectory (fileSystem backends hops) t a).runOn v = (.ok (), v') ∧
      v.Gains backends v' (v.Missing backends t [a]) ∧
      ∀ vol q, t.LeadsTo backends a vol q → (v'.space vol).IsDirectory q) ∨
    ∃ e, (ensureDirectory (fileSystem backends hops) t a).runOn v = (.error e, v') ∧
      v.Gains backends v' fun _ _ => False := by
  obtain ⟨vol, hv⟩ := plain _ (t.names_resolve a)
  let s : System := ⟨backends, v⟩
  let pl : Place := ⟨(t.resolve a).backend, vol, s.isReadOnly (t.resolve a).backend,
    (t.resolve a).relative⟩
  have arr : arrived backends (pl.backend, pl.path) = some pl := s.arrived_of_volume? hv _
  have leads_iff : ∀ u q, t.LeadsTo backends a u q ↔ u = pl.volume ∧ q = pl.path := by
    refine fun u q => ⟨?_, ?_⟩
    · rintro ⟨hu, rfl⟩
      exact ⟨Option.some.inj (hu.symm.trans hv), rfl⟩
    · rintro ⟨rfl, rfl⟩
      exact ⟨hv, rfl⟩
  have missing_iff : ∀ u q, v.Missing backends t [a] u q ↔
      v.space u q = none ∧ u = pl.volume ∧ q = pl.path := by
    simp only [Volumes.Missing, List.mem_singleton, exists_eq_left, leads_iff, implies_true]
  obtain ⟨directory, hr⟩ | ⟨-, absent, hr⟩ | ⟨e, hr, -⟩ :=
    ensureDirectory_cases inOrder arr rfl rfl hops
  · refine ⟨v, .inl ⟨hr, (Volumes.Gains.refl inOrder).congr fun u q => ⟨False.elim, ?_⟩,
      fun u q leads => ?_⟩⟩
    · rw [missing_iff]
      rintro ⟨absent, rfl, rfl⟩
      exact directory.ne_none absent
    · obtain ⟨rfl, rfl⟩ := (leads_iff u q).1 leads
      exact directory
  · rw [hr]
    obtain ⟨v', ⟨hr, made⟩ | failed⟩ := pl.mkdir_gains arr inOrder absent
    · refine ⟨v', .inl ⟨hr, made.congr fun u q => ?_, fun u q leads => ?_⟩⟩
      · rw [missing_iff]
        refine ⟨?_, And.right⟩
        rintro ⟨rfl, rfl⟩
        exact ⟨absent, rfl, rfl⟩
      · exact ⟨_, (made.made u q ((leads_iff u q).1 leads)).2⟩
    · exact ⟨v', .inr failed⟩
  · exact ⟨v, .inr ⟨e, hr, .refl inOrder⟩⟩

/-- Any number of directories are made sure of, one after the other. If one of them cannot be, those
before it may have been made. -/
theorem ensureAll_gains (hops : Nat) (l : List Path) : ∃ v',
    ((l.forM (ensureDirectory (fileSystem backends hops) t)).runOn v = (.ok (), v') ∧
      v.Gains backends v' (v.Missing backends t l) ∧
      ∀ a ∈ l, ∀ vol q, t.LeadsTo backends a vol q → (v'.space vol).IsDirectory q) ∨
    ∃ e gained, (l.forM (ensureDirectory (fileSystem backends hops) t)).runOn v = (.error e, v') ∧
      v.Gains backends v' gained ∧ ∀ vol q, gained vol q → v.Missing backends t l vol q := by
  induction l generalizing v with
  | nil =>
    refine ⟨v, .inl ⟨rfl, (Volumes.Gains.refl inOrder).congr fun vol q => ⟨False.elim, ?_⟩, ?_⟩⟩
    · rintro ⟨-, a, mem, -⟩
      cases mem
    · intro a mem
      cases mem
  | cons a l ih =>
    show ∃ v', ((ensureDirectory (fileSystem backends hops) t a >>= fun _ =>
      l.forM (ensureDirectory (fileSystem backends hops) t)).runOn v = (.ok (), v') ∧ _) ∨
      ∃ e gained, (ensureDirectory (fileSystem backends hops) t a >>= fun _ =>
        l.forM (ensureDirectory (fileSystem backends hops) t)).runOn v = (.error e, v') ∧ _
    obtain ⟨v₁, ⟨hr, first, directory⟩ | ⟨e, hr, first⟩⟩ :=
      ensureDirectory_gains inOrder plain hops a
    case inr =>
      rw [Action.runOn_bind_error hr]
      exact ⟨v₁, .inr ⟨e, _, rfl, first, fun _ _ no => no.elim⟩⟩
    rw [Action.runOn_bind_ok hr]
    obtain ⟨v', ⟨hr', rest, directories⟩ | ⟨e, gained, hr', rest, missing⟩⟩ := ih first.inOrder
    · refine ⟨v', .inl ⟨hr', (first.trans rest).congr (missing_cons first),
        fun a' mem vol q leads => ?_⟩⟩
      rcases List.mem_cons.1 mem with rfl | later
      · exact rest.isDirectory (directory vol q leads)
      · exact directories a' later vol q leads
    · refine ⟨v', .inr ⟨e, _, hr', first.trans rest, fun vol q new =>
        (missing_cons first vol q).1 ?_⟩⟩
      exact new.imp_right (missing vol q)

/-- What comes of a mount: directories are made above the mount point where they are missing, and
then the table has one mount more; or some of these directories are made and the table stays. -/
theorem mount_gains {table : Nat} (valid : (v.tables table).Valid) (same : v.tables table = t)
    (hops : Nat) (p : Path) (c : BackendId) : ∃ v',
    ((mount (fileSystem backends hops) table p c).runOn v = (.ok (),
        { v' with tables := setAt v'.tables table { t with mounts := t.mounts.insert p c } }) ∧
      MountTable.Valid { t with mounts := t.mounts.insert p c } ∧
      v.Gains backends v' (v.Missing backends t p.strictAncestors) ∧
      ∀ a ∈ p.strictAncestors, ∀ vol q, t.LeadsTo backends a vol q → (v'.space vol).IsDirectory q) ∨
    ∃ e gained, (mount (fileSystem backends hops) table p c).runOn v = (.error e, v') ∧
      v.Gains backends v' gained ∧
      ∀ vol q, gained vol q → v.Missing backends t p.strictAncestors vol q := by
  subst same
  rw [mount, Action.runOn_get_bind, Action.runOn_ofExcept_bind]
  generalize hn : (fileSystem backends hops c).name = name
  cases available : (v.tables table).checkAvailable p c name with
  | error e => exact ⟨v, .inr ⟨e, _, rfl, .refl inOrder, fun _ _ no => no.elim⟩⟩
  | ok _ =>
    have inserted : (v.tables table).insert p c name =
        .ok { v.tables table with mounts := (v.tables table).mounts.insert p c } := by
      rw [MountTable.insert, available]
      rfl
    dsimp only
    rw [ensureAncestors, Action.runOn_bind]
    obtain ⟨v', ⟨hr, gains, directories⟩ | ⟨e, gained, hr, gains, missing⟩⟩ :=
      ensureAll_gains inOrder plain hops p.strictAncestors
    · rw [hr]
      dsimp only
      rw [Action.runOn_ofExcept_bind, inserted]
      exact ⟨v', .inl ⟨rfl, valid.insert inserted, gains, directories⟩⟩
    · rw [hr]
      exact ⟨v', .inr ⟨e, gained, rfl, gains, missing⟩⟩

end Composite

/-! ## What a caller sees in a backend -/

namespace System

variable {s s' : System} {b d : BackendId} {table : Nat} {p q : Path} {vol : Volume}

/-- A backend has gained directories at some paths where there was nothing, and nothing else. What
was there is told as before, apart from the times and the size of a directory, and every file has
the content it had. -/
structure Gains (s s' : System) (d : BackendId) (gained : Path → Prop) : Prop where
  made : ∀ q, gained q → (s.stat d q).isOk = false ∧ ∃ attr, s'.stat d q = .ok attr ∧
    attr.isDir = true ∧ attr.perm &&& permMask = Composite.ancestorPerm
  absent : ∀ q, ¬gained q → (s.stat d q).isOk = false → (s'.stat d q).isOk = false
  lasts : ∀ q, Lasts (s.stat d q) (s'.stat d q)
  content : ∀ q, (s'.readAll d q).toOption = (s.readAll d q).toOption

/-- A directory is missing above a path: there is nothing where the table sends a path that lies
strictly above it, in a backend or in another one that keeps the same. -/
def MissingAbove (s : System) (table : Nat) (p : Path) (d : BackendId) (q : Path) : Prop :=
  (s.stat d q).isOk = false ∧ ∃ a : Path, a.isPrefixOf p = true ∧ a ≠ p ∧
    s.volume? ((s.volumes.tables table).resolve a).backend = s.volume? d ∧
    ((s.volumes.tables table).resolve a).relative = q

theorem IsPlain.volume? (plain : s.IsPlain d) : ∃ vol, s.volume? d = some vol := by
  rw [System.volume?]
  obtain ⟨tree, there⟩ | ⟨store, readOnly, there⟩ := plain
  · rw [there]
    exact ⟨_, rfl⟩
  · rw [there]
    exact ⟨_, rfl⟩

theorem stat_volume (kept : s.volume? d = some vol) (q : Path) :
    s.stat d q = s.volumes.attr vol q := by
  let pl : Place := ⟨d, vol, s.isReadOnly d, q⟩
  have arr : MountSpace.arrived s.backends (pl.backend, pl.path) = some pl :=
    arrived_of_volume? kept q
  rw [show vol = pl.volume from rfl, ← pl.stat_eq arr q, ← fileSystem_arrived arr (s.hopBudget q)]
  rfl

/-- Nothing is found where nothing stands. -/
theorem stat_isOk_volume (inOrder : s.InOrder) (kept : s.volume? d = some vol) (q : Path) :
    (s.stat d q).isOk = false ↔ s.volumes.space vol q = none := by
  rw [stat_isOk inOrder, look_volume kept]
  cases s.volumes.space vol q <;> simp

/-- The root of what a backend keeps is a directory. -/
theorem root_isDirectory (inOrder : s.InOrder) (kept : s.volume? d = some vol) :
    (s.volumes.space vol).IsDirectory .root := by
  let pl : Place := ⟨d, vol, s.isReadOnly d, .root⟩
  have arr : MountSpace.arrived s.backends (pl.backend, pl.path) = some pl :=
    arrived_of_volume? kept .root
  exact (pl.sound arr inOrder.volumes).tree.root

/-- What a volume has gained is what a backend over it has gained. -/
theorem gains_of_volumes (inOrder : s.InOrder) (inOrder' : s'.InOrder)
    (backends : s'.backends = s.backends) {gained : Volume → Path → Prop} {v : Volumes}
    (gains : s.volumes.Gains s.backends v gained) (space : s'.volumes.space = v.space)
    (attr : s'.volumes.attr = v.attr) (kept : s.volume? d = some vol) :
    s.Gains s' d (gained vol) := by
  have kept' : s'.volume? d = some vol := (volume?_congr backends d).trans kept
  refine ⟨fun q new => ?_, fun q old => ?_, fun q => ?_, fun q => ?_⟩
  · obtain ⟨absent, made⟩ := gains.made vol q new
    rw [← space] at made
    refine ⟨(stat_isOk_volume inOrder kept q).2 absent, ?_⟩
    have stats := inOrder'.stats_look d q
    cases found : s'.stat d q with
    | error e =>
      rw [found] at stats
      cases (show s'.look d q = none from stats).symm.trans ((look_volume kept' q).trans made)
    | ok a =>
      rw [found] at stats
      obtain ⟨e, stands, shows⟩ := stats
      cases stands.symm.trans ((look_volume kept' q).trans made)
      exact ⟨a, rfl, beq_iff_eq.2 shows.kind, shows.perm⟩
  · rw [stat_isOk_volume inOrder kept, stat_isOk_volume inOrder' kept', space, gains.same vol q old]
    exact id
  · rw [stat_volume kept, stat_volume kept', attr]
    exact gains.lasts vol q
  · rw [inOrder.content_look, inOrder'.content_look, look_volume kept, look_volume kept', space]
    by_cases new : gained vol q
    · rw [(gains.made vol q new).1, (gains.made vol q new).2]
      rfl
    · rw [gains.same vol q new]

/-- What is missing above a path in a volume is what a caller misses there. The
root is never missing. -/
theorem missing_iff (inOrder : s.InOrder) (kept : s.volume? d = some vol) :
    s.volumes.Missing s.backends
    (s.volumes.tables table) p.strictAncestors vol q ↔ s.MissingAbove table p d q := by
  rw [Volumes.Missing, MissingAbove, stat_isOk_volume inOrder kept, kept]
  refine and_congr_right fun absent => exists_congr fun a => ?_
  rw [Path.mem_strictAncestors, MountTable.LeadsTo]
  constructor
  · rintro ⟨⟨above, ne, -⟩, leads⟩
    exact ⟨above, ne, leads⟩
  · rintro ⟨above, ne, leads, relative⟩
    refine ⟨⟨above, ne, ?_⟩, leads, relative⟩
    rintro rfl
    obtain ⟨m, e⟩ := (s.volumes.tables table).relative_suffix .root
    rw [← relative, (Path.append_eq_root.1 e.symm).2] at absent
    exact (root_isDirectory inOrder kept).ne_none absent

/-- Where the table of a composite sends a path to a directory, an inquiry finds one and
the path is listed. -/
theorem seen_directory (inOrder : s.InOrder) (there : s.backends[b]? = some (.composite table))
    (kept : s.volume? ((s.volumes.tables table).resolve p).backend = some vol)
    (directory : (s.volumes.space vol).IsDirectory ((s.volumes.tables table).resolve p).relative) :
    (∃ attr, s.stat b p = .ok attr ∧ attr.isDir = true) ∧
      ∀ name, (s.volumes.tables table).isMountPoint (p.child name) = true →
        ∃ entries, s.readdir b p = .ok entries ∧
        ∀ kind, ⟨name.text, kind⟩ ∈ entries ↔ kind = .directory := by
  refine ⟨(stat_isDir_iff inOrder).2 (look_routed there kept ▸ directory), fun name mounted => ?_⟩
  obtain ⟨k, -, asked⟩ := fileSystems_composite there p
  let r := (s.volumes.tables table).resolve p
  let pl : Place := ⟨r.backend, vol, s.isReadOnly r.backend, r.relative⟩
  have arr : MountSpace.arrived s.backends (pl.backend, pl.path) = some pl :=
    arrived_of_volume? kept r.relative
  have native := (pl.serves arr).readdir s.volumes pl.path (pl.sound arr inOrder.volumes)
  have listing := enumerates_arrived inOrder.volumes arr
  cases answer : (pl.fileSystem s.backends).readdir s.volumes pl.path with
  | error e =>
    rw [answer] at native
    exact absurd directory native
  | ok entries =>
    rw [answer] at listing
    have child : (fileSystem s.backends k r.backend).readdir s.volumes r.relative = .ok entries :=
      (congrArg (fun fs => fs.readdir s.volumes r.relative) (fileSystem_arrived arr k)).trans answer
    rw [readdir, asked]
    show ∃ entries, Composite.readdir _ (s.volumes.tables table) s.volumes p = .ok entries ∧ _
    rw [Composite.readdir, child]
    refine ⟨_, rfl, fun kind => ?_⟩
    rw [Composite.mem_mergeListing listing.1, if_pos (Composite.mem_mountNames.2 mounted)]

/-- Where a path above a new mount leads is not affected by the mount. -/
theorem resolve_above_mount (t : MountTable) {a : Path} (c : BackendId)
    (above : a.isPrefixOf p = true) (ne : a ≠ p) :
    MountTable.resolve { t with mounts := t.mounts.insert p c } a = t.resolve a :=
  MountTable.resolve_congr rfl fun m higher => by
    rw [SortedMap.get?_insert, if_neg]
    rintro rfl
    exact ne (Path.isPrefixOf_antisymm above higher)

/-- A table gets a mount, and leads as before above it, always to a directory. Then everything above
the mount point is reported as a directory, and lists what is mounted inside it. -/
theorem seen_above_mount (inOrder : s.InOrder) (there : s.backends[b]? = some (.composite table))
    (plain : ∀ a, ∃ vol, s.volume? ((s.volumes.tables table).resolve a).backend = some vol)
    {t' : MountTable} (valid : t'.Valid) (routed : ∀ a : Path, a.isPrefixOf p = true → a ≠ p →
      t'.resolve a = (s.volumes.tables table).resolve a)
    (directories : ∀ a ∈ p.strictAncestors,
      ∀ vol q, (s.volumes.tables table).LeadsTo s.backends a vol q →
      (s.volumes.space vol).IsDirectory q) (a : Path) (above : a.isPrefixOf p = true) (ne : a ≠ p) :
    let s' : System := ⟨s.backends, { s.volumes with tables := setAt s.volumes.tables table t' }⟩
    (∃ attr, s'.stat b a = .ok attr ∧ attr.isDir = true) ∧
      ∀ name, t'.isMountPoint (a.child name) = true →
        ∃ entries, s'.readdir b a = .ok entries ∧
        ∀ kind, ⟨name.text, kind⟩ ∈ entries ↔ kind = .directory := by
  intro s'
  have inOrder' : s'.InOrder := ⟨inOrder.volumes.withTable table valid, inOrder.within⟩
  have replaced : s'.volumes.tables table = t' := setAt_self ..
  have space : s'.volumes.space = s.volumes.space := s.volumes.space_withTables _
  obtain ⟨vol, kept⟩ := plain a
  have directory :
      (s.volumes.space vol).IsDirectory ((s.volumes.tables table).resolve a).relative := by
    by_cases root : a = .root
    · obtain ⟨m, e⟩ := (s.volumes.tables table).relative_suffix a
      rw [root] at e
      rw [root, (Path.append_eq_root.1 e.symm).2]
      exact root_isDirectory inOrder (root ▸ kept)
    · exact directories a (Path.mem_strictAncestors.2 ⟨above, ne, root⟩) vol _ ⟨kept, rfl⟩
  rw [← routed a above ne, ← replaced] at kept directory
  rw [← space] at directory
  rw [← replaced]
  exact seen_directory inOrder' there kept directory

/-- **What a mount does**: in a composite over backends that keep a tree each, whatever is mounted
and wherever, no backend changes otherwise than by gaining directories that are missing above the
mount point, each in the backend that the table sends it to. If the mount succeeds, all of them have
been made; the path leads to the root of what is mounted, everything above it is reported as a
directory, and the directory above it lists it as one. If it fails, every table is as before, and
with it where every path leads. -/
theorem mount_effect (reachable : s.Reachable) (there : s.backends[b]? = some (.composite table))
    (plain : ∀ d, (s.volumes.tables table).Names d → s.IsPlain d) (p : Path) (c : BackendId) :
    (∀ d, s.IsPlain d → ∃ gained : Path → Prop, s.Gains (s.mount table p c).2 d gained ∧
      (∀ q, gained q → s.MissingAbove table p d q) ∧
      ((s.mount table p c).1 = .ok () → ∀ q, s.MissingAbove table p d q → gained q)) ∧
    ((s.mount table p c).1 = .ok () →
      (s.mount table p c).2.volumes.tables =
      setAt s.volumes.tables table { s.volumes.tables table with
        mounts := (s.volumes.tables table).mounts.insert p c } ∧
      ((s.mount table p c).2.volumes.tables table).resolve p = ⟨c, .root, p⟩ ∧
      (∀ a : Path, a.isPrefixOf p = true → a ≠ p →
        ∃ attr, (s.mount table p c).2.stat b a = .ok attr ∧ attr.isDir = true) ∧
      ∀ q name, p = q.child name → ∃ entries, (s.mount table p c).2.readdir b q = .ok entries ∧
        ∀ kind, ⟨name.text, kind⟩ ∈ entries ↔ kind = .directory) ∧
    ((s.mount table p c).1.isOk = false →
      (s.mount table p c).2.volumes.tables = s.volumes.tables) := by
  have inOrder := reachable.inOrder
  have volumes : ∀ d, (s.volumes.tables table).Names d →
      ∃ vol, s.backends[d]?.bind Backend.volume? = some vol :=
    fun d named => (plain d named).volume?
  have valid := inOrder.volumes.valid b table there
  rw [mount, run, fileSystems]
  obtain ⟨v, ⟨hr, valid', gains, directories⟩ | ⟨e, gained, hr, gains, missing⟩⟩ :=
    Composite.mount_gains inOrder.volumes volumes valid rfl (s.hopBudget p) p c
  · rw [hr]
    generalize ht : ({ s.volumes.tables table with
      mounts := (s.volumes.tables table).mounts.insert p c } : MountTable) = t' at valid' ⊢
    let s' : System := ⟨s.backends, { v with tables := setAt v.tables table t' }⟩
    have inOrder' : s'.InOrder := ⟨gains.inOrder.withTable table valid', inOrder.within⟩
    have inserted : s'.volumes.tables table = t' := setAt_self ..
    have space : s'.volumes.space = v.space := v.space_withTables _
    have attr : s'.volumes.attr = v.attr := by
      funext vol
      cases vol <;> rfl
    have seen := seen_above_mount (s := ⟨s.backends, v⟩) (p := p)
      ⟨gains.inOrder, inOrder.within⟩ there
      (fun a => volumes _ (gains.tables ▸ (v.tables table).names_resolve a)) valid'
      (fun a above ne => by
        rw [← ht, ← gains.tables]
        exact resolve_above_mount _ c above ne)
      (gains.tables ▸ directories)
    refine ⟨fun d hd => ?_, fun _ => ⟨?_, ?_, fun a above ne => (seen a above ne).1, ?_⟩,
      fun failed => ?_⟩
    · obtain ⟨vol, kept⟩ := hd.volume?
      exact ⟨_, gains_of_volumes inOrder inOrder' rfl gains space attr kept,
        fun q => (missing_iff inOrder kept).1, fun _ q => (missing_iff inOrder kept).2⟩
    · rw [← gains.tables]
    · show (s'.volumes.tables table).resolve p = _
      rw [inserted, ← ht]
      exact MountTable.resolve_mount (by rw [SortedMap.get?_insert, if_pos rfl])
    · rintro q name rfl
      refine (seen q (Path.isPrefixOf_child.2 (.inr (Path.isPrefixOf_self q)))
        (Path.child_ne_self q name).symm).2 name ?_
      rw [← ht]
      exact SortedMap.contains_iff.2 ⟨c, by rw [SortedMap.get?_insert, if_pos rfl]⟩
    · cases failed
  · rw [hr]
    have inOrder' : System.InOrder ⟨s.backends, v⟩ := ⟨gains.inOrder, inOrder.within⟩
    refine ⟨fun d hd => ?_, fun mounted => ?_, fun _ => gains.tables⟩
    · obtain ⟨vol, kept⟩ := hd.volume?
      refine ⟨_, gains_of_volumes inOrder inOrder' rfl gains rfl rfl kept,
        fun q new => (missing_iff inOrder kept).1 (missing vol q new), fun mounted => ?_⟩
      cases mounted
    · cases mounted

/-- A composite over a tree with another tree mounted at `/m`, and a third tree. -/
def crossed : System :=
  (((empty .counting).addMemory.addMemory.addMemory.addComposite 0).mount 3 (.ofText "/m") 1).2

theorem crossed_reached : crossed.Reached [.memory 0, .memory 1, .memory 2, .composite 3] := by
  have made :=
    (Reached.empty .counting).addMemory.addMemory.addMemory.addComposite (show 0 < _ by decide)
  exact made.mount (b := 3) rfl (by decide) (.ofText "/m")

/-- To mount the third tree at `/m/x/y` makes a directory in the second one and none in the
first. -/
theorem mount_effect_crossed : ∃ attr attr' entries,
    (crossed.mount 3 (.ofText "/m/x/y") 2).2.stat 1 (.ofText "/x") = .ok attr ∧ attr.isDir = true ∧
      ((crossed.mount 3 (.ofText "/m/x/y") 2).2.stat 0 (.ofText "/m/x")).isOk = false ∧
      (crossed.mount 3 (.ofText "/m/x/y") 2).2.stat 3 (.ofText "/m/x") = .ok attr' ∧
      attr'.isDir = true ∧
      (crossed.mount 3 (.ofText "/m/x/y") 2).2.readdir 3 (.ofText "/m/x") = .ok entries ∧
      ⟨"y", .directory⟩ ∈ entries := by
  have tables : (let t := crossed.volumes.tables 3; t.root :: t.mounts.values) = [0, 1] := by
    decide +kernel
  have first : crossed.IsPlain 0 := .inl ⟨0, crossed_reached.at' rfl⟩
  have second : crossed.IsPlain 1 := .inl ⟨1, crossed_reached.at' rfl⟩
  have plain : ∀ d, (crossed.volumes.tables 3).Names d → crossed.IsPlain d := fun d named => by
    rw [MountTable.names_iff, tables, List.mem_cons, List.mem_singleton] at named
    rcases named with rfl | rfl
    · exact first
    · exact second
  have mounted : (crossed.mount 3 (.ofText "/m/x/y") 2).1 = .ok () := by decide +kernel
  obtain ⟨effect, leads, -⟩ :=
    mount_effect crossed_reached.reachable (crossed_reached.at' (b := 3) rfl) plain
    (.ofText "/m/x/y") 2
  obtain ⟨-, -, above, listed⟩ := leads mounted
  obtain ⟨attr', told', directory'⟩ := above (.ofText "/m/x") (by decide) (by decide)
  obtain ⟨entries, read, mem⟩ :=
    listed (.ofText "/m/x") ⟨"y", by decide, by decide, by decide⟩ (by decide)
  obtain ⟨gained, gains, -, all⟩ := effect 1 second
  obtain ⟨gained₀, gains₀, only₀, -⟩ := effect 0 first
  have missing : crossed.MissingAbove 3 (.ofText "/m/x/y") 1 (.ofText "/x") :=
    ⟨by decide +kernel, .ofText "/m/x", by decide, by decide, by decide +kernel, by decide +kernel⟩
  obtain ⟨-, attr, told, directory, -⟩ := gains.made _ (all mounted _ missing)
  have absent : (crossed.stat 0 (.ofText "/m/x")).isOk = false := by decide +kernel
  have outside : ¬gained₀ (.ofText "/m/x") := fun new => by
    obtain ⟨-, a, above, ne, kept, relative⟩ := only₀ _ new
    have higher : a ∈ [.root, .ofText "/m", .ofText "/m/x"] := by
      by_cases root : a = .root
      · exact root ▸ List.mem_cons_self
      · exact List.mem_cons_of_mem _ (Path.mem_strictAncestors.2 ⟨above, ne, root⟩)
    simp only [List.mem_cons, List.not_mem_nil, or_false] at higher
    rcases higher with rfl | rfl | rfl
    · exact absurd relative (by decide +kernel)
    · exact absurd kept (by decide +kernel)
    · exact absurd kept (by decide +kernel)
  exact ⟨attr, attr', entries, told, directory, gains₀.absent _ outside absent, told', directory',
    read, (mem _).2 rfl⟩

end System

end MountSpace
