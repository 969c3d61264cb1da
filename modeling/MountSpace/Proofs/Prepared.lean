import MountSpace.Proofs.Draws
import MountSpace.Proofs.MountEffect

/-!
# Mounts over backends that hold only directories

Backends that nothing was stored in yet hold nothing but directories, and those that refuse
changes hold nothing but their root. A mount over such backends succeeds just if its place is free
and no directory is wanted in a backend that refuses changes. It leaves the backends as they have
to be for the next mount.

- `Volumes.Bare`, `Volumes.Prepared`: what the backends hold. `Volumes.Readies`: they still do,
  and no directory is gone.
- `MountTable.Admits`: no directory has to be made where changes are refused.
- `Composite.ensureDirectory_prepared`, `Composite.ensureAncestors_prepared`,
  `Composite.mount_prepared`: one directory above a mount point, all of them, and the mount.
-/

namespace MountSpace

/-! ## Volumes that hold nothing but directories -/

/-- The number of a volume, which is that of the backend it was made for. -/
def Volume.number : Volume → Nat
  | .tree i => i
  | .store j => j

namespace Volumes

variable {v v' : Volumes} {vol u : Volume} {n : Nat} {readOnly : Bool}

/-- Ids stay new to a volume that does not change while others are drawn. -/
theorem FreshAt.later (fresh : v.FreshAt n u)
    (stores : ∀ j, u = .store j → v'.stores j = v.stores j) (ids : v'.ambient.ids = v.ambient.ids)
    (draws : v.ambient.draws ≤ v'.ambient.draws) :
    v'.FreshAt n u := by
  cases u with
  | tree i => trivial
  | store j =>
    have same := stores j rfl
    refine ⟨fun m => ?_, fun m k hm lt bounded => ?_, fun m hm bounded => ?_⟩
    · show (v'.stores j).refuses m = false
      rw [same]
      exact fresh.accepts m
    · show v'.ambient.ids m ≠ v'.ambient.ids k
      rw [ids]
      exact fresh.distinct m k (Nat.le_trans draws hm) lt bounded
    · show (v'.stores j).get? (v'.ambient.ids m).toText = none
      rw [ids, same]
      exact fresh.unused m (Nat.le_trans draws hm) bounded

/-- A volume holds nothing but directories, and only its root if it refuses changes. The ids up to a
draw are new to it. -/
structure Bare (v : Volumes) (n : Nat) (vol : Volume) (readOnly : Bool) : Prop where
  directories : ∀ q, v.space vol q ≠ none → (v.space vol).IsDirectory q
  untouched : readOnly = true → ∀ q, q ≠ .root → v.space vol q = none
  fresh : v.FreshAt n vol

/-- A volume that does not change stays bare while ids are drawn. -/
theorem Bare.later (bare : v.Bare n u readOnly) (space : v'.space u = v.space u)
    (stores : ∀ j, u = .store j → v'.stores j = v.stores j) (ids : v'.ambient.ids = v.ambient.ids)
    (draws : v.ambient.draws ≤ v'.ambient.draws) : v'.Bare n u readOnly := by
  refine ⟨?_, ?_, bare.fresh.later stores ids draws⟩
  · rw [space]
    exact bare.directories
  · rw [space]
    exact bare.untouched

theorem Bare.changesOnly_other (bare : v.Bare n u readOnly) (only : v.ChangesOnly v' vol)
    (ne : u ≠ vol) : v'.Bare n u readOnly :=
  bare.later (only.space_other ne) (fun j e => only.stores j fun e' => ne (e.trans e'))
    only.ids only.draws

/-- Some backends keep trees of their own, all of them bare, and the ids up to a
draw are different. -/
structure Prepared (v : Volumes) (backends : List Backend) (among : BackendId → Prop)
    (n : Nat) : Prop where
  inOrder : v.InOrder backends
  apart : v.ambient.DrawsApart n
  kept : ∀ d, among d → ∃ x vol, backends[d]? = some x ∧ x.volume? = some vol ∧ vol.number = d ∧
    v.Bare n vol x.readOnly

/-- What has been prepared is so still, and nothing that was a directory has changed. -/
structure Readies (v v' : Volumes) (backends : List Backend) (among : BackendId → Prop)
    (n k : Nat) : Prop where
  prepared : v'.Prepared backends among n
  tables : v'.tables = v.tables
  draws : v'.ambient.draws ≤ v.ambient.draws + k
  kept : ∀ vol q, (v.space vol).IsDirectory q → (v'.space vol).IsDirectory q

/-- A table sends a path to a directory. -/
def Reaches (v : Volumes) (backends : List Backend) (t : MountTable) (a : Path) : Prop :=
  ∀ vol q, t.LeadsTo backends a vol q → (v.space vol).IsDirectory q

variable {v'' : Volumes} {backends : List Backend} {among : BackendId → Prop} {t : MountTable}
  {k k' : Nat} {a : Path}

theorem Readies.refl (prepared : v.Prepared backends among n) : v.Readies v backends among n k :=
  ⟨prepared, rfl, Nat.le_add_right _ _, fun _ _ h => h⟩

theorem Readies.trans (h : v.Readies v' backends among n k)
    (h' : v'.Readies v'' backends among n k') : v.Readies v'' backends among n (k + k') where
  prepared := h'.prepared
  tables := h'.tables.trans h.tables
  draws := by
    have first := h.draws
    have second := h'.draws
    omega
  kept := fun vol q directory => h'.kept vol q (h.kept vol q directory)

theorem Readies.reaches (h : v.Readies v' backends among n k) (reaches : v.Reaches backends t a) :
    v'.Reaches backends t a := fun vol q leads => h.kept vol q (reaches vol q leads)

/-- Where a table sends a path that belongs to a prepared backend. -/
theorem Prepared.place (prepared : v.Prepared backends among n) (named : ∀ d, t.Names d → among d)
    (a : Path) : ∃ pl : Place, arrived backends (pl.backend, pl.path) = some pl ∧
    (t.resolve a).backend = pl.backend ∧
      (t.resolve a).relative = pl.path ∧ pl.volume.number = pl.backend ∧
      v.Bare n pl.volume pl.readOnly ∧
      pl.readOnly = (backends[pl.backend]?).any Backend.readOnly ∧
      ∀ vol q, t.LeadsTo backends a vol q ↔ vol = pl.volume ∧ q = pl.path := by
  obtain ⟨x, vol, hx, hvol, number, bare⟩ := prepared.kept _ (named _ (t.names_resolve a))
  let s : System := ⟨backends, v⟩
  have hv : s.volume? (t.resolve a).backend = some vol := by
    rw [System.volume?, hx]
    exact hvol
  have sealed : s.isReadOnly (t.resolve a).backend = x.readOnly := by
    rw [System.isReadOnly, hx]
    rfl
  refine ⟨⟨(t.resolve a).backend, vol, s.isReadOnly (t.resolve a).backend, (t.resolve a).relative⟩,
    s.arrived_of_volume? hv _, rfl, rfl, number, sealed ▸ bare, rfl, fun u q => ⟨?_, ?_⟩⟩
  · rintro ⟨hu, rfl⟩
    exact ⟨Option.some.inj (hu.symm.trans hv), rfl⟩
  · rintro ⟨rfl, rfl⟩
    exact ⟨hv, rfl⟩

/-- The root leads to a root, which is a directory. -/
theorem Prepared.reaches_root (prepared : v.Prepared backends among n)
    (named : ∀ d, t.Names d → among d) : v.Reaches backends t .root := by
  obtain ⟨pl, arr, -, relative, -, -, -, leads⟩ := prepared.place named .root
  intro vol q h
  obtain ⟨rfl, rfl⟩ := (leads vol q).1 h
  obtain ⟨m, e⟩ := t.relative_suffix .root
  rw [← relative, (Path.append_eq_root.1 e.symm).2]
  exact (pl.sound arr prepared.inOrder).tree.root

/-- A change of one prepared backend leaves all of them prepared if it leaves that one bare. -/
theorem Prepared.changesOnly {pl : Place} (prepared : v.Prepared backends among n)
    (number : pl.volume.number = pl.backend)
    (sealed : pl.readOnly = (backends[pl.backend]?).any Backend.readOnly)
    (only : v.ChangesOnly v' pl.volume) (bare : v'.Bare n pl.volume pl.readOnly) :
    v'.Prepared backends among n where
  inOrder := prepared.inOrder.changesOnly only
  apart := fun m k hm lt bounded => by
    rw [only.ids]
    exact prepared.apart m k (Nat.le_trans only.draws hm) lt bounded
  kept := fun d hd => by
    obtain ⟨x, vol, hx, hvol, number', bare'⟩ := prepared.kept d hd
    refine ⟨x, vol, hx, hvol, number', ?_⟩
    by_cases e : vol = pl.volume
    · have same : d = pl.backend := number'.symm.trans ((congrArg Volume.number e).trans number)
      rw [← same, hx] at sealed
      rw [e, show x.readOnly = pl.readOnly from sealed.symm]
      exact bare
    · exact bare'.changesOnly_other only e

theorem Prepared.fewer {among' : BackendId → Prop} (prepared : v.Prepared backends among n)
    (also' : ∀ d, among' d → among d) : v.Prepared backends among' n :=
  ⟨prepared.inOrder, prepared.apart, fun d hd => prepared.kept d (also' d hd)⟩

/-- Nothing that a backend keeps depends on a mount table. -/
theorem Prepared.withTable (prepared : v.Prepared backends among n) (table : Nat)
    (valid : t.Valid) : Prepared { v with tables := setAt v.tables table t } backends among n := by
  refine ⟨prepared.inOrder.withTable table valid, prepared.apart, fun d hd => ?_⟩
  obtain ⟨x, vol, hx, hvol, number, bare⟩ := prepared.kept d hd
  exact ⟨x, vol, hx, hvol, number,
    bare.later (congrFun (v.space_withTables _) vol) (fun _ _ => rfl) rfl (Nat.le_refl _)⟩

end Volumes

/-! ## One directory -/

/-- Making a directory draws no more ids than an entry may take. -/
theorem Place.mkdir_draws {backends : List Backend} {pl : Place}
    (arr : arrived backends (pl.backend, pl.path) = some pl) (v : Volumes) (mode : UInt32) :
    (((pl.fileSystem backends).mkdir pl.path mode).runOn v).2.ambient.draws ≤
      v.ambient.draws + RecordTree.entryDraws := by
  rcases arrived_cases arr with ⟨i, hb, -⟩ | ⟨j, readOnly, hb, -⟩
  · rw [Place.fileSystem, fileSystem_memory hb]
    show ((Volumes.changeTree i (·.mkdir pl.path mode v.ambient.now)).runOn
      v.ticked).2.ambient.draws ≤ _
    rw [Volumes.runOn_changeTree]
    cases (v.ticked.trees i).mkdir pl.path mode v.ambient.now <;> exact Nat.le_add_right _ _
  · rw [Place.fileSystem, fileSystem_keyValue hb]
    show ((((FileSystem.keyValue pl.backend j readOnly).change (.mkdir pl.path mode)).runOn
      v).2.ambient.draws ≤ _)
    rw [keyValue_change]
    cases readOnly with
    | true => exact Nat.le_add_right _ _
    | false => exact RecordTree.drawsAtMost_mkdir pl.path mode (v.transaction j)

/-- In a bare volume, a directory that is missing inside another one is made just if
changes are not refused. -/
theorem Place.mkdir_bare {backends : List Backend} {pl : Place} {v : Volumes} {n : Nat}
    (arr : arrived backends (pl.backend, pl.path) = some pl) (inOrder : v.InOrder backends)
    (bare : v.Bare n pl.volume pl.readOnly) (absent : v.space pl.volume pl.path = none)
    (parent : (v.space pl.volume).IsDirectory pl.path.parent)
    (enough : v.ambient.draws + RecordTree.entryDraws ≤ n) : ∃ v',
    (pl.readOnly = false ∧
      ((pl.fileSystem backends).mkdir pl.path Composite.ancestorPerm).runOn v = (.ok (), v') ∧
      v.ChangesOnly v' pl.volume ∧ v'.Bare n pl.volume pl.readOnly ∧
      v'.ambient.draws ≤ v.ambient.draws + RecordTree.entryDraws ∧
      v'.space pl.volume = (v.space pl.volume).put pl.path (.directory Composite.ancestorPerm)) ∨
    pl.readOnly = true ∧
      ∃ e, ((pl.fileSystem backends).mkdir pl.path Composite.ancestorPerm).runOn v =
      (.error e, v') := by
  have settles : Settles pl.volume pl.readOnly (.mkdir pl.path Composite.ancestorPerm) v
      (((pl.fileSystem backends).mkdir pl.path Composite.ancestorPerm).runOn v) :=
    (pl.serves arr).change v (.mkdir pl.path Composite.ancestorPerm) (pl.sound arr inOrder)
  have drawn := pl.mkdir_draws arr v Composite.ancestorPerm
  generalize ((pl.fileSystem backends).mkdir pl.path Composite.ancestorPerm).runOn v =
    r at settles drawn ⊢
  obtain ⟨e | _, v'⟩ := r
  · obtain ⟨only, -, refused⟩ := settles
    refine ⟨v', .inr ⟨?_, e, rfl⟩⟩
    refine Bool.eq_true_of_not_eq_false fun open' => ?_
    have fresh : v.FreshAt v'.ambient.draws pl.volume := by
      have all := bare.fresh
      generalize pl.volume = vol at all
      cases vol with
      | tree i => trivial
      | store j => exact Transaction.Fresh.mono all (Nat.le_trans drawn enough)
    exact refused open' (.inl fresh) ⟨absent, parent⟩
  · obtain ⟨only, open', -, after⟩ := settles
    refine ⟨v', .inl ⟨open', rfl, only, ⟨fun q there => ?_, fun sealed => ?_,
      only.fresh n bare.fresh⟩, drawn, after⟩⟩
    · rw [after] at there ⊢
      by_cases e : q = pl.path
      · rw [e]
        exact ⟨_, Space.put_self _ _⟩
      · rw [Space.after, Space.put_other _ e] at there
        obtain ⟨perm, found⟩ := bare.directories q there
        exact ⟨perm, (Space.put_other _ e).trans found⟩
    · cases open'.symm.trans sealed

/-- A path is a mount point, or belongs to a backend that does not refuse changes. -/
def MountTable.Admits (t : MountTable) (backends : List Backend) (a : Path) : Prop :=
  t.isMountPoint a = true ∨ (backends[(t.resolve a).backend]?).any Backend.readOnly = false

namespace Composite

variable {backends : List Backend} {among : BackendId → Prop} {t : MountTable}
  {v : Volumes} {n : Nat}
variable (prepared : v.Prepared backends among n) (named : ∀ d, t.Names d → among d)
include prepared named

/-- Making sure of a directory inside one that is there succeeds just if the table admits it. -/
theorem ensureDirectory_prepared {a : Path} (nonroot : a ≠ .root)
    (parent : v.Reaches backends t a.parent) (enough : v.ambient.draws + RecordTree.entryDraws ≤ n)
    (hops : Nat) : ∃ v',
    (t.Admits backends a ∧ (ensureDirectory (fileSystem backends hops) t a).runOn v = (.ok (), v') ∧
      v.Readies v' backends among n RecordTree.entryDraws ∧ v'.Reaches backends t a) ∨
    ¬t.Admits backends a ∧
      ∃ e, (ensureDirectory (fileSystem backends hops) t a).runOn v = (.error e, v') := by
  obtain ⟨pl, arr, backend, relative, number, bare, sealed, leads⟩ := prepared.place named a
  have admits : t.Admits backends a ↔ t.isMountPoint a = true ∨ pl.readOnly = false := by
    rw [MountTable.Admits, backend, sealed]
  have above : t.isMountPoint a = false → (v.space pl.volume).IsDirectory pl.path.parent := by
    intro free
    obtain ⟨sameBackend, sameParent⟩ := MountTable.resolve_parent free
    refine parent pl.volume _ ⟨?_, sameParent.trans (congrArg Path.parent relative)⟩
    rw [sameBackend]
    exact ((leads _ _).2 ⟨rfl, rfl⟩).1
  obtain ⟨directory, hr⟩ | ⟨free, absent, hr⟩ | ⟨e, -, notDirectory, taken⟩ :=
    ensureDirectory_cases prepared.inOrder arr backend relative hops
  · refine ⟨v, .inl ⟨admits.2 ?_, hr, .refl prepared, fun vol q h => ?_⟩⟩
    · -- A backend that refuses changes has no directory but its root, and that is a mount point.
      cases sealed' : pl.readOnly with
      | false => exact .inr rfl
      | true =>
        refine .inl (MountTable.isMountPoint_of_relative nonroot ?_)
        refine Classical.byContradiction fun inside =>
          directory.ne_none (bare.untouched sealed' _ ?_)
        rwa [← relative]
    · obtain ⟨rfl, rfl⟩ := (leads vol q).1 h
      exact directory
  · rw [hr]
    obtain ⟨v', ⟨open', made, only, bare', drawn, after⟩ | ⟨sealed', e, failed⟩⟩ :=
      pl.mkdir_bare arr prepared.inOrder bare absent (above free) enough
    · have kept : ∀ vol q, (v.space vol).IsDirectory q → (v'.space vol).IsDirectory q := by
        intro vol q directory
        by_cases e : vol = pl.volume
        · subst e
          obtain ⟨perm, found⟩ := directory
          have ne : q ≠ pl.path := fun e => Option.some_ne_none _ (found.symm.trans (e ▸ absent))
          exact ⟨perm, by rw [after, Space.put_other _ ne, found]⟩
        · rwa [only.space_other e]
      refine ⟨v', .inl ⟨admits.2 (.inr open'), made,
        ⟨prepared.changesOnly number sealed only bare', only.tables, drawn, kept⟩,
        fun vol q h => ?_⟩⟩
      obtain ⟨rfl, rfl⟩ := (leads vol q).1 h
      exact ⟨_, by rw [after, Space.put_self]⟩
    · refine ⟨v', .inr ⟨fun h => ?_, e, failed⟩⟩
      rcases admits.1 h with mounted | open'
      · cases free.symm.trans mounted
      · cases open'.symm.trans sealed'
  · -- There is nothing but directories, so nothing can be in the way.
    have free : t.isMountPoint a = false := by
      refine Bool.eq_false_iff.2 fun mounted => notDirectory ?_
      rw [← relative, MountTable.relative_of_isMountPoint mounted]
      exact (pl.sound arr prepared.inOrder).tree.root
    exact absurd (bare.directories _ (taken (above free))) notDirectory

/-- Making sure of all directories above a path, the shallowest first, succeeds just if the
table admits them all. -/
theorem ensureAncestors_prepared (hops : Nat) : ∀ {p : Path},
    v.ambient.draws + RecordTree.entryDraws * p.strictAncestors.length ≤ n → ∃ v',
      ((∀ a ∈ p.strictAncestors, t.Admits backends a) ∧
        (ensureAncestors (fileSystem backends hops) t p).runOn v = (.ok (), v') ∧
        v.Readies v' backends among n (RecordTree.entryDraws * p.strictAncestors.length) ∧
        ∀ a : Path, a.isPrefixOf p = true → a ≠ p → v'.Reaches backends t a) ∨
      ¬(∀ a ∈ p.strictAncestors, t.Admits backends a) ∧
        ∃ e, (ensureAncestors (fileSystem backends hops) t p).runOn v = (.error e, v') := by
  intro p
  rw [ensureAncestors]
  induction p using Path.childInduction with
  | atRoot =>
    intro _
    refine ⟨v, .inl ⟨fun a mem => (by cases mem), rfl, .refl prepared, fun a above ne => ?_⟩⟩
    exact absurd (Path.isPrefixOf_antisymm above (Path.root_isPrefixOf a)) ne
  | atChild q name ih =>
    intro enough
    have above_child : ∀ a : Path, a.isPrefixOf (q.child name) = true → a ≠ q.child name →
        a = q ∨ a.isPrefixOf q = true ∧ a ≠ q := by
      intro a above ne
      have higher := (Path.isPrefixOf_child.1 above).resolve_left ne
      exact (em (a = q)).imp id fun ne' => ⟨higher, ne'⟩
    rw [Path.strictAncestors_child] at enough ⊢
    by_cases root : q = .root
    · rw [if_pos root] at enough ⊢
      refine ⟨v, .inl ⟨fun a mem => (by cases mem), rfl, .refl prepared, fun a above ne => ?_⟩⟩
      rcases above_child a above ne with rfl | ⟨higher, ne'⟩
      · rw [root]
        exact prepared.reaches_root named
      · rw [root] at higher ne'
        exact absurd (Path.isPrefixOf_antisymm higher (Path.root_isPrefixOf a)) ne'
    rw [if_neg root] at enough ⊢
    rw [List.length_append, List.length_singleton, Nat.mul_add, Nat.mul_one] at enough ⊢
    rw [Action.forM_concat]
    obtain ⟨v₁, ⟨admitted, hr, ready, reaches⟩ | ⟨not, e, hr⟩⟩ := ih (by omega)
    case inr =>
      rw [Action.runOn_bind_error hr]
      exact ⟨v₁, .inr ⟨fun all => not fun a mem => all a (List.mem_append_left _ mem), e, rfl⟩⟩
    rw [Action.runOn_bind_ok hr]
    have parent : v₁.Reaches backends t q.parent := by
      obtain ⟨r, s, rfl⟩ := (Path.root_or_child q).resolve_left root
      rw [Path.parent_child]
      exact reaches r (Path.isPrefixOf_child.2 (.inr (Path.isPrefixOf_self r)))
        (Path.child_ne_self r s).symm
    have drawn := ready.draws
    obtain ⟨v', ⟨admits, hr', ready', here⟩ | ⟨not, e, hr'⟩⟩ :=
      ensureDirectory_prepared ready.prepared named root parent (by omega) hops
    · refine ⟨v', .inl ⟨fun a mem => ?_, hr', ready.trans ready', fun a above ne => ?_⟩⟩
      · rcases List.mem_append.1 mem with before | last
        · exact admitted a before
        · exact List.mem_singleton.1 last ▸ admits
      · rcases above_child a above ne with rfl | ⟨higher, ne'⟩
        · exact here
        · exact ready'.reaches (reaches a higher ne')
    · exact ⟨v',
        .inr ⟨fun all => not (all q (List.mem_append_right _ (List.mem_singleton_self q))), e, hr'⟩⟩

/-- A new backend can be mounted just if its place is free and the table admits all
directories above it. -/
theorem mount_prepared {table : Nat} (same : v.tables table = t) {c : BackendId} (new : ¬t.Names c)
    {p : Path} (enough : v.ambient.draws + RecordTree.entryDraws * p.strictAncestors.length ≤ n)
    (hops : Nat) : ∃ v',
    ((t.isMountPoint p = false ∧ ∀ a ∈ p.strictAncestors, t.Admits backends a) ∧
      (mount (fileSystem backends hops) table p c).runOn v = (.ok (),
        { v' with tables := setAt v'.tables table { t with mounts := t.mounts.insert p c } }) ∧
      MountTable.insert t p c (fileSystem backends hops c).name =
      .ok { t with mounts := t.mounts.insert p c } ∧
      v.Readies v' backends among n (RecordTree.entryDraws * p.strictAncestors.length)) ∨
    ¬(t.isMountPoint p = false ∧ ∀ a ∈ p.strictAncestors, t.Admits backends a) ∧
      ∃ e, (mount (fileSystem backends hops) table p c).runOn v = (.error e, v') := by
  subst same
  rw [mount, Action.runOn_get_bind, Action.runOn_ofExcept_bind]
  generalize (fileSystem backends hops c).name = name
  have available := MountTable.checkAvailable_new new p name
  by_cases taken : (v.tables table).isMountPoint p = true
  · rw [if_pos taken] at available
    rw [available]
    exact ⟨v, .inr ⟨fun h => Bool.false_ne_true (h.1.symm.trans taken), _, rfl⟩⟩
  rw [if_neg taken] at available
  have free : (v.tables table).isMountPoint p = false := Bool.eq_false_iff.2 taken
  have inserted : (v.tables table).insert p c name =
      .ok { v.tables table with mounts := (v.tables table).mounts.insert p c } := by
    rw [MountTable.insert, available]
    rfl
  rw [available]
  dsimp only
  rw [Action.runOn_bind]
  obtain ⟨v', ⟨admitted, hr, ready, -⟩ | ⟨not, e, hr⟩⟩ :=
    ensureAncestors_prepared prepared named hops enough
  · rw [hr]
    dsimp only
    rw [Action.runOn_ofExcept_bind, inserted]
    exact ⟨v', .inl ⟨⟨free, admitted⟩, rfl, rfl, ready⟩⟩
  · rw [hr]
    exact ⟨v', .inr ⟨fun h => not h.2, e, rfl⟩⟩

end Composite

end MountSpace
