import MountSpace.Layout.Build
import MountSpace.Proofs.Prepared
import MountSpace.Proofs.Utf8

/-!
# Which layouts can be built

The mounts of a layout are made in its order, each in the table and the trees that those before it
have left. All of these trees hold nothing but directories, and a store that refuses changes holds
nothing but its root, so what decides about a mount are the entries before it alone.

- `Layout.Mount.Owns`, `Layout.Mount.Fits`: which of some mounts a path belongs to, and when a mount
  can be made after some others.
- `System.Adds`, `MountTable.Holds`: a new backend, and a table that has the mounts of some entries.
- `System.Laid`, `System.Laid.addMount`, `System.Laid.addMounts`: what has been built so far, one
  more mount, and any number.
- `System.addLayout_isOk_iff`: which layouts can be built, and what the mounts are then.
-/

namespace MountSpace

/-! ## Mounts among others -/

namespace Layout.Mount

/-- Where a backend is to be mounted. -/
def place (m : Mount) : Path := .ofText m.path

/-- A backend over records that refuses every change. -/
def IsSealed (m : Mount) : Prop := m.backend = .keyValue ∧ m.readOnly = true

/-- Among some mounts, this one has the longest path that another path lies at or below. -/
def Owns (o : Mount) (among : List Mount) (a : Path) : Prop :=
  o ∈ among ∧ o.place.isPrefixOf a = true ∧
    ∀ m ∈ among, m.place.isPrefixOf a = true → m.place.isPrefixOf o.place = true

/-- After some mounts, a path is the path of one of them or belongs to none that refuses changes. -/
def Admits (before : List Mount) (a : Path) : Prop :=
  (∃ m ∈ before, m.place = a) ∨ ∀ o : Mount, o.Owns before a → ¬o.IsSealed

/-- A mount can be made after some others. -/
structure Fits (m : Mount) (before : List Mount) : Prop where
  allowed : ¬(m.backend = .memory ∧ m.readOnly = true)
  free : ∀ o ∈ before, o.place ≠ m.place
  above : ∀ a ∈ m.place.strictAncestors, Admits before a

/-- When each of some mounts fits after those before it: no tree in memory is to refuse changes, all
places are different, and the paths above them are admitted. -/
theorem fits_iff {ms : List Mount} : (∀ before m after, ms = before ++ m :: after → m.Fits before) ↔
    (∀ m ∈ ms, ¬(m.backend = .memory ∧ m.readOnly = true)) ∧
    ms.Pairwise (fun m m' => m.place ≠ m'.place) ∧
      ∀ before m after, ms = before ++ m :: after → ∀ a : Path,
        a.isPrefixOf m.place = true → a ≠ m.place → a ≠ .root → (∀ o ∈ before, o.place ≠ a) →
        ∀ o : Mount, o.Owns before a → ¬o.IsSealed := by
  constructor
  · intro all
    refine ⟨fun m mem => ?_, ?_, fun before m after e a above ne nonroot apart => ?_⟩
    · obtain ⟨before, after, e⟩ := List.append_of_mem mem
      exact (all before m after e).allowed
    · refine List.pairwise_iff_getElem.2 fun i j hi hj lt => ?_
      have split : ms = ms.take j ++ ms[j] :: ms.drop (j + 1) := by
        rw [List.getElem_cons_drop, List.take_append_drop]
      exact (all _ _ _ split).free ms[i] (List.mem_take_iff_getElem.2 ⟨i, by omega, rfl⟩)
    · exact ((all before m after e).above a
        (Path.mem_strictAncestors.2 ⟨above, ne, nonroot⟩)).resolve_left
        fun ⟨o, mem, same⟩ => apart o mem same
  · rintro ⟨allowed, apart, above⟩ before m after rfl
    refine ⟨allowed m (List.mem_append_right _ List.mem_cons_self), fun o mem => ?_,
      fun a mem => ?_⟩
    · exact (List.pairwise_append.1 apart).2.2 o mem m List.mem_cons_self
    · obtain ⟨higher, ne, nonroot⟩ := Path.mem_strictAncestors.1 mem
      by_cases taken : ∃ o ∈ before, o.place = a
      · exact .inl taken
      · exact .inr (above before m after rfl a higher ne nonroot fun o mem same =>
          taken ⟨o, mem, same⟩)

/-- How many ids are drawn at most for a mount: for its own root, and for every
directory above it. -/
def draws (m : Mount) : Nat := RecordTree.entryDraws * (m.place.strictAncestors.length + 1)

/-- How many ids are drawn at most for some mounts. -/
def drawsAll : List Mount → Nat
  | [] => 0
  | m :: ms => m.draws + drawsAll ms

end Layout.Mount

/-- How many ids are drawn at most while a layout is built. -/
def Layout.draws (l : Layout) : Nat := RecordTree.entryDraws + Mount.drawsAll l.mounts

/-! ## New backends -/

/-- The backend of a kind that has a number. -/
def BackendKind.built (n : Nat) (readOnly : Bool) : BackendKind → Backend
  | memory => .memory n
  | keyValue => .keyValue n readOnly

namespace System

/-- A backend has been added, with a bare volume of its own. -/
structure Adds (s s' : System) (n : Nat) (x : Backend) : Prop where
  inOrder : s'.InOrder
  backends : s'.backends = s.backends ++ [x]
  trees : ∀ i, i ≠ s.next → s'.volumes.trees i = s.volumes.trees i
  stores : ∀ j, j ≠ s.next → s'.volumes.stores j = s.volumes.stores j
  tables : s'.volumes.tables = s.volumes.tables
  ids : s'.volumes.ambient.ids = s.volumes.ambient.ids
  later : s.volumes.ambient.draws ≤ s'.volumes.ambient.draws
  draws : s'.volumes.ambient.draws ≤ s.volumes.ambient.draws + RecordTree.entryDraws
  bare : ∃ vol, x.volume? = some vol ∧ vol.number = s.next ∧ s'.volumes.Bare n vol x.readOnly

variable {s s' : System} {n : Nat}

theorem addMemory_adds (inOrder : s.InOrder) : s.Adds s.addMemory n (.memory s.next) where
  inOrder := inOrder.addMemory
  backends := rfl
  trees := fun i ne => setAt_other _ _ ne
  stores := fun _ _ => rfl
  tables := rfl
  ids := rfl
  later := Nat.le_refl _
  draws := Nat.le_add_right _ _
  bare := by
    have space : s.addMemory.volumes.space (.tree s.next) =
        (MemoryTree.new s.volumes.ambient.now).space :=
      congrArg MemoryTree.space (setAt_self ..)
    refine ⟨.tree s.next, rfl, rfl, fun q there => ?_, fun sealed => (by cases sealed), trivial⟩
    rw [space] at there ⊢
    by_cases root : q = .root
    · exact ⟨_, by rw [MemoryTree.new_space, if_pos root]⟩
    · rw [MemoryTree.new_space, if_neg root] at there
      exact absurd rfl there

theorem addKeyValue_draws {store : RecordStore} {readOnly : Bool}
    (made : s.addKeyValue store readOnly = .ok s') :
    s'.volumes.ambient.draws ≤ s.volumes.ambient.draws + RecordTree.entryDraws := by
  have drawn := RecordTree.drawsAtMost_initialise ⟨store, s.volumes.ambient⟩
  rw [addKeyValue_eq] at made
  generalize RecordTree.initialise.runOn ⟨store, s.volumes.ambient⟩ = r at made drawn
  obtain ⟨e | _, t⟩ := r
  · cases made
  · cases made
    exact drawn

/-- A store that refuses nothing is always given a root. -/
theorem addKeyValue_adds (inOrder : s.InOrder) (apart : s.volumes.ambient.DrawsApart n)
    (readOnly : Bool) : ∃ s', s.addKeyValue (.ofRecords ∅) readOnly = .ok s' ∧
    s.Adds s' n (.keyValue s.next readOnly) := by
  obtain ⟨t, F, made, h, space, fresh, ids, later⟩ | ⟨e, -, refused⟩ :=
    s.addKeyValue_cases (.ofRecords ∅) rfl readOnly
  case inr => exact absurd (fun _ => rfl) refused
  let v := (s.volumes.withRecords s.next (.ofRecords ∅)).committed s.next t
  have stored : v.stores s.next = t.store := Volumes.stores_committed ..
  have looks : v.space (.store s.next) = RecordTree.initialSpace :=
    (Volumes.space_committed ..).trans (h.space_eq.trans space)
  refine ⟨_, made, inOrder.addKeyValue rfl made, rfl, fun _ _ => rfl,
    fun j ne => (setAt_other _ _ ne).trans (setAt_other _ _ ne), rfl, ids, later,
    addKeyValue_draws made,
    .store s.next, rfl, rfl, fun q there => ?_, fun _ q inside => ?_, ?_⟩
  · change v.space (.store s.next) q ≠ none at there
    show (v.space (.store s.next)).IsDirectory q
    rw [looks, RecordTree.initialSpace] at there
    rw [looks]
    split at there
    next root => exact ⟨_, if_pos root⟩
    next => exact absurd rfl there
  · show v.space (.store s.next) q = none
    rw [looks]
    exact if_neg inside
  · show Transaction.Fresh ⟨v.stores s.next, t.ambient⟩ n
    rw [stored]
    exact fresh n ⟨fun _ => rfl, apart, fun _ _ _ => rfl⟩

/-- A backend of a kind can be added unless it is a tree that refuses changes. -/
theorem addKind_cases (inOrder : s.InOrder) (apart : s.volumes.ambient.DrawsApart n) (path : String)
    (readOnly : Bool) (kind : BackendKind) :
    (¬(kind = .memory ∧ readOnly = true) ∧
      ∃ s', s.addKind path readOnly kind = .ok s' ∧ s.Adds s' n (kind.built s.next readOnly)) ∨
    (kind = .memory ∧ readOnly = true) ∧ ∃ e, s.addKind path readOnly kind = .error e := by
  cases kind with
  | memory =>
    cases readOnly with
    | true => exact .inr ⟨⟨rfl, rfl⟩, _, rfl⟩
    | false => exact .inl ⟨fun no => (by cases no.2), _, rfl, addMemory_adds inOrder⟩
  | keyValue =>
    obtain ⟨s', made, adds⟩ := addKeyValue_adds inOrder apart readOnly
    refine .inl ⟨fun no => (by cases no.1), s', ?_, adds⟩
    rw [addKind, made]

/-- What was prepared is so with the new backend. -/
theorem Adds.prepared {x : Backend} {among : BackendId → Prop} (adds : s.Adds s' n x)
    (prepared : s.volumes.Prepared s.backends among n) :
    s'.volumes.Prepared s'.backends (fun d => among d ∨ d = s.next) n where
  inOrder := adds.inOrder.volumes
  apart := fun m k hm lt bounded => by
    rw [adds.ids]
    exact prepared.apart m k (Nat.le_trans adds.later hm) lt bounded
  kept := by
    rintro d (old | rfl)
    · obtain ⟨y, vol, hy, hvol, number, bare⟩ := prepared.kept d old
      have lt : d < s.next := (List.getElem?_eq_some_iff.1 hy).1
      have ne : vol.number ≠ s.next := number ▸ Nat.ne_of_lt lt
      refine ⟨y, vol, ?_, hvol, number, bare.later ?_ (fun j e => ?_) adds.ids adds.later⟩
      · rw [adds.backends, List.getElem?_append_left lt, hy]
      · cases vol with
        | tree i => exact congrArg MemoryTree.space (adds.trees i ne)
        | store j => exact congrArg RecordStore.space (adds.stores j ne)
      · subst e
        exact adds.stores j ne
    · obtain ⟨vol, hvol, number, bare⟩ := adds.bare
      refine ⟨x, vol, ?_, hvol, number, bare⟩
      rw [adds.backends, next, List.getElem?_concat_length]

end System

/-! ## A table and the entries it was built from -/

/-- A table has the mounts of some entries of a layout, each over a backend of the kind that
the entry asks for. -/
structure MountTable.Holds (t : MountTable) (backends : List Backend)
    (ms : List Layout.Mount) : Prop where
  root : ∃ kind : BackendKind, backends[t.root]? = some (kind.built t.root false)
  mounted : ∀ m ∈ ms,
    ∃ c, t.mounts.get? m.place = some c ∧ backends[c]? = some (m.backend.built c m.readOnly)
  only : ∀ p c, t.mounts.get? p = some c → ∃ m ∈ ms, m.place = p

namespace MountTable.Holds

variable {t : MountTable} {backends : List Backend} {ms : List Layout.Mount} {p a : Path}
variable (holds : t.Holds backends ms)
include holds

theorem append (x : Backend) : t.Holds (backends ++ [x]) ms := by
  have old : ∀ {c : Nat} {y}, backends[c]? = some y →
      (backends ++ [x])[c]? = some y := fun {c y} hc => by
    rw [List.getElem?_append_left (List.getElem?_eq_some_iff.1 hc).1, hc]
  refine ⟨?_, fun m mem => ?_, holds.only⟩
  · obtain ⟨kind, hk⟩ := holds.root
    exact ⟨kind, old hk⟩
  · obtain ⟨c, hc, there⟩ := holds.mounted m mem
    exact ⟨c, hc, old there⟩

theorem isMountPoint_iff : t.isMountPoint p = true ↔ ∃ m ∈ ms, m.place = p := by
  rw [isMountPoint, SortedMap.contains_iff]
  constructor
  · rintro ⟨c, hc⟩
    exact holds.only p c hc
  · rintro ⟨m, mem, rfl⟩
    obtain ⟨c, hc, -⟩ := holds.mounted m mem
    exact ⟨c, hc⟩

/-- The backend of an entry refuses changes just if it is a store that is to. -/
theorem sealed_iff {m : Layout.Mount} (mem : m ∈ ms) {c : BackendId}
    (hc : t.mounts.get? m.place = some c) :
    (backends[c]?).any Backend.readOnly = true ↔ m.IsSealed := by
  obtain ⟨c', hc', there⟩ := holds.mounted m mem
  cases hc.symm.trans hc'
  rw [there, Layout.Mount.IsSealed]
  cases m.backend with
  | memory => exact ⟨fun no => (by cases no), fun no => (by cases no.1)⟩
  | keyValue => exact ⟨fun sealed => ⟨rfl, sealed⟩, fun h => h.2⟩

/-- What the table admits is what the entries admit. -/
theorem admits_iff : t.Admits backends a ↔ Layout.Mount.Admits ms a := by
  rw [MountTable.Admits, Layout.Mount.Admits, holds.isMountPoint_iff]
  refine or_congr_right ?_
  rcases t.resolve_cases a with ⟨p, c, k, mounted, rfl, leads, longest⟩ | ⟨leads, free⟩
  · rw [leads]
    obtain ⟨o, mem, rfl⟩ := holds.only p c mounted
    have owns : o.Owns ms (o.place ++ k) := by
      refine ⟨mem, Path.isPrefixOf_append _ _, fun m hm above => ?_⟩
      exact Path.isPrefixOf_of_length_le above (Path.isPrefixOf_append _ _)
        (longest _ (holds.isMountPoint_iff.2 ⟨m, hm, rfl⟩) above)
    have sealed := holds.sealed_iff mem mounted
    constructor
    · rintro open' o' ⟨mem', above', longest'⟩ sealed'
      -- Two entries that own a path have one place, and with it one backend.
      have same : o'.place = o.place := Path.isPrefixOf_antisymm (owns.2.2 o' mem' above')
        (longest' o mem owns.2.1)
      have refuses := (holds.sealed_iff mem' (same ▸ mounted)).2 sealed'
      cases open'.symm.trans refuses
    · exact fun none' => Bool.eq_false_iff.2 fun refuses => none' o owns (sealed.1 refuses)
  · rw [leads]
    obtain ⟨kind, hk⟩ := holds.root
    constructor
    · rintro - o ⟨mem, above, -⟩
      exact absurd above (free _ (holds.isMountPoint_iff.2 ⟨o, mem, rfl⟩))
    · intro _
      rw [hk]
      cases kind <;> rfl

/-- An entry that may be built fits if its place is free and the table admits
everything above it. -/
theorem fits_iff {m : Layout.Mount}
    (allowed : ¬(m.backend = .memory ∧ m.readOnly = true)) : m.Fits ms ↔
    t.isMountPoint m.place = false ∧ ∀ a ∈ m.place.strictAncestors, t.Admits backends a := by
  have free_iff : t.isMountPoint m.place = false ↔ ∀ o ∈ ms, o.place ≠ m.place := by
    rw [Bool.eq_false_iff, Ne, holds.isMountPoint_iff]
    exact ⟨fun none' o mem e => none' ⟨o, mem, e⟩, fun free ⟨o, mem, e⟩ => free o mem e⟩
  refine ⟨fun h => ⟨free_iff.2 h.free, fun a mem => holds.admits_iff.2 (h.above a mem)⟩,
    fun h => ?_⟩
  exact ⟨allowed, free_iff.1 h.1, fun a mem => holds.admits_iff.1 (h.2 a mem)⟩

/-- One more entry is mounted where there is none. -/
theorem insert {m : Layout.Mount} {c : BackendId} (free : t.isMountPoint m.place = false)
    (there : backends[c]? = some (m.backend.built c m.readOnly)) :
    MountTable.Holds { t with mounts := t.mounts.insert m.place c } backends (ms ++ [m]) where
  root := holds.root
  mounted := by
    intro o mem
    rcases List.mem_append.1 mem with old | last
    · obtain ⟨d, hd, there'⟩ := holds.mounted o old
      refine ⟨d, ?_, there'⟩
      rw [SortedMap.get?_insert, if_neg, hd]
      intro e
      exact Bool.eq_false_iff.1 free (holds.isMountPoint_iff.2 ⟨o, old, e⟩)
    · cases List.mem_singleton.1 last
      exact ⟨c, by rw [SortedMap.get?_insert, if_pos rfl], there⟩
  only := by
    intro p d hd
    rw [SortedMap.get?_insert] at hd
    split at hd
    next e => exact ⟨m, List.mem_append_right _ (List.mem_singleton_self m), e.symm⟩
    next =>
      obtain ⟨o, mem, e⟩ := holds.only p d hd
      exact ⟨o, List.mem_append_left _ mem, e⟩

end MountTable.Holds

/-! ## One mount after the other -/

namespace System

/-- A composite has been built so far that holds the mounts of some entries. -/
structure Laid (s : System) (composite : BackendId) (n : Nat) (ms : List Layout.Mount) : Prop where
  inOrder : s.InOrder
  there : s.backends[composite]? = some (.composite composite)
  prepared : s.volumes.Prepared s.backends (s.volumes.tables composite).Names n
  holds : (s.volumes.tables composite).Holds s.backends ms

variable {s s' : System} {n : Nat} {composite : BackendId} {ms : List Layout.Mount}

/-- An entry is mounted once its backend has been added. -/
theorem addMount_mounted {m : Layout.Mount} {s₁ : System}
    (added : s.addKind m.path m.readOnly m.backend = .ok s₁)
    (mounted : s₁.mount composite m.place s.next = (.ok (), s')) :
    s.addMount composite m = .ok s' := by
  rw [addMount, added, Except.ok_bind]
  rw [show s₁.mount composite (.ofText m.path) s.next = _ from mounted]
  rfl

theorem addMount_failed {m : Layout.Mount} {s₁ : System} {e : FsError}
    (added : s.addKind m.path m.readOnly m.backend = .ok s₁)
    (failed : s₁.mount composite m.place s.next = (.error e, s')) :
    s.addMount composite m = .error (.mount m.path e) := by
  rw [addMount, added, Except.ok_bind]
  rw [show s₁.mount composite (.ofText m.path) s.next = _ from failed]
  rfl

/-- The next entry is mounted just if it fits after the ones before it. -/
theorem Laid.addMount (laid : s.Laid composite n ms) (m : Layout.Mount)
    (enough : s.volumes.ambient.draws + m.draws ≤ n) :
    (m.Fits ms ∧ ∃ s', s.addMount composite m = .ok s' ∧ s'.Laid composite n (ms ++ [m]) ∧
      s'.volumes.ambient.draws ≤ s.volumes.ambient.draws + m.draws) ∨
    ¬m.Fits ms ∧ ∃ e, s.addMount composite m = .error e := by
  obtain ⟨allowed, s₁, hs, adds⟩ | ⟨refused, e, he⟩ :=
    addKind_cases laid.inOrder laid.prepared.apart m.path m.readOnly m.backend
  case inr =>
    refine .inr ⟨fun fits => fits.allowed refused, e, ?_⟩
    rw [System.addMount, he]
    rfl
  have same : s₁.volumes.tables composite = s.volumes.tables composite := congrFun adds.tables _
  have prepared := adds.prepared laid.prepared
  have holds : (s.volumes.tables composite).Holds s₁.backends ms :=
    adds.backends ▸ laid.holds.append _
  have new : ¬(s.volumes.tables composite).Names s.next := fun named => by
    obtain ⟨x, vol, hx, -⟩ := laid.prepared.kept _ named
    exact Nat.lt_irrefl _ (List.getElem?_eq_some_iff.1 hx).1
  have drawn := adds.draws
  rw [Layout.Mount.draws, Nat.mul_add, Nat.mul_one] at enough ⊢
  rw [holds.fits_iff allowed]
  obtain ⟨v', ⟨fits, hr, inserted, ready⟩ | ⟨not, e, hr⟩⟩ := Composite.mount_prepared prepared
    (fun d named => .inl named) same new (p := m.place) (by omega) (s₁.hopBudget m.place)
  · generalize ht : ({ s.volumes.tables composite with
      mounts := (s.volumes.tables composite).mounts.insert m.place s.next } : MountTable) =
      t' at hr inserted
    have mounted : s₁.mount composite m.place s.next =
        (.ok (), ⟨s₁.backends, { v' with tables := setAt v'.tables composite t' }⟩) := by
      rw [System.mount, System.run, fileSystems, hr]
    have valid := (laid.inOrder.volumes.valid composite composite laid.there).insert inserted
    have table : setAt v'.tables composite t' composite = t' := setAt_self ..
    have prepared' := ready.prepared.withTable composite valid
    refine .inl ⟨fits, _, addMount_mounted hs mounted, ⟨⟨prepared'.inOrder, adds.inOrder.within⟩,
      ?_, ?_, ?_⟩, ?_⟩
    · show s₁.backends[composite]? = _
      rw [adds.backends, List.getElem?_append_left (List.getElem?_eq_some_iff.1 laid.there).1,
        laid.there]
    · refine prepared'.fewer fun d named => ?_
      change (setAt v'.tables composite t' composite).Names d at named
      rw [table] at named
      exact MountTable.names_insert inserted named
    · show (setAt v'.tables composite t' composite).Holds s₁.backends (ms ++ [m])
      rw [table, ← ht]
      refine holds.insert fits.1 ?_
      rw [adds.backends, next, List.getElem?_concat_length]
    · show v'.ambient.draws ≤ _
      have more := ready.draws
      omega
  · have failed : s₁.mount composite m.place s.next = (.error e, ⟨s₁.backends, v'⟩) := by
      rw [System.mount, System.run, fileSystems, hr]
    exact .inr ⟨not, _, addMount_failed hs failed⟩

/-- Entries can be mounted one after the other just if each one fits after those before it. -/
theorem Laid.addMounts (laid : s.Laid composite n ms) {rest : List Layout.Mount}
    (enough : s.volumes.ambient.draws + Layout.Mount.drawsAll rest ≤ n) :
    ((∀ before m after, rest = before ++ m :: after → m.Fits (ms ++ before)) ∧
      ∃ s', rest.foldlM (System.addMount composite) s = .ok s' ∧ s'.Laid composite n (ms ++ rest)) ∨
    ¬(∀ before m after, rest = before ++ m :: after → m.Fits (ms ++ before)) ∧
      ∃ e, rest.foldlM (System.addMount composite) s = .error e := by
  induction rest generalizing s ms with
  | nil =>
    refine .inl ⟨fun before m after e => ?_, s, rfl, ?_⟩
    · cases before <;> cases e
    · rwa [List.append_nil]
  | cons m rest ih =>
    rw [Layout.Mount.drawsAll] at enough
    obtain ⟨fits, s₁, hs, laid₁, drawn⟩ | ⟨not, e, he⟩ := laid.addMount m (by omega)
    case inr =>
      rw [List.foldlM_cons, he]
      refine .inr ⟨fun all => not ?_, e, rfl⟩
      have first := all [] m rest rfl
      rwa [List.append_nil] at first
    rw [List.foldlM_cons, hs]
    obtain ⟨all, s', hs', laid'⟩ | ⟨not, e, he⟩ := ih laid₁ (by omega)
    · rw [List.append_assoc] at laid'
      refine .inl ⟨fun before o after e => ?_, s', hs', laid'⟩
      rcases List.cons_eq_append_iff.1 e with ⟨rfl, e'⟩ | ⟨before', rfl, e'⟩
      · cases e'
        rwa [List.append_nil]
      · have later := all before' o after e'
        rwa [List.append_assoc] at later
    · refine .inr ⟨fun all => not fun before o after e' => ?_, e, he⟩
      rw [List.append_assoc]
      exact all (m :: before) o after (congrArg (m :: ·) e')

/-- A new composite over a new backend has no mounts yet. -/
theorem Adds.addComposite {kind : BackendKind} (adds : s.Adds s' n (kind.built s.next false))
    (inOrder : s.InOrder) (apart : s.volumes.ambient.DrawsApart n) :
    (s'.addComposite s.next).Laid s'.next n [] := by
  have inOrder' := adds.inOrder.addComposite s.next
  have nothing : s.volumes.Prepared s.backends (fun _ => False) n :=
    ⟨inOrder.volumes, apart, fun _ no => no.elim⟩
  have prepared := adds.prepared nothing
  have table : (s'.addComposite s.next).volumes.tables s'.next = .new s.next := setAt_self ..
  have old : ∀ {c : Nat} {y}, s'.backends[c]? = some y →
      (s'.addComposite s.next).backends[c]? = some y :=
    fun {c y} hc => (List.getElem?_append_left (List.getElem?_eq_some_iff.1 hc).1).trans hc
  have there : s'.backends[s.next]? = some (kind.built s.next false) := by
    rw [adds.backends, next, List.getElem?_concat_length]
  refine ⟨inOrder', List.getElem?_concat_length, ?_, ?_⟩
  · rw [table]
    refine ⟨inOrder'.volumes, prepared.apart, fun d named => ?_⟩
    have root : d = s.next := by
      obtain root | ⟨m, ⟨⟩⟩ := named
      exact root
    obtain ⟨x, vol, hx, hvol, number, bare⟩ :=
      (prepared.withTable s'.next (.new s.next)).kept d (.inr root)
    exact ⟨x, vol, old hx, hvol, number, bare⟩
  · rw [table]
    exact ⟨⟨kind, old there⟩, fun m mem => (by cases mem), fun p c hp => (by cases hp)⟩

/-- A layout can be built just if each of its entries fits after those before it. -/
theorem addLayout_cases (inOrder : s.InOrder) (l : Layout)
    (apart : s.volumes.ambient.DrawsApart (s.volumes.ambient.draws + l.draws)) :
    ((∀ before m after, l.mounts = before ++ m :: after → m.Fits before) ∧
      ∃ s' b, s.addLayout l = .ok (s', b) ∧
      s'.Laid b (s.volumes.ambient.draws + l.draws) l.mounts) ∨
    ¬(∀ before m after, l.mounts = before ++ m :: after → m.Fits before) ∧
    ∃ e, s.addLayout l = .error e := by
  obtain ⟨-, s₁, hs, adds⟩ | ⟨refused, -⟩ := addKind_cases inOrder apart "/" false l.root
  case inr => cases refused.2
  have drawn := adds.draws
  have enough : s₁.volumes.ambient.draws + Layout.Mount.drawsAll l.mounts ≤
      s.volumes.ambient.draws + l.draws := by
    rw [Layout.draws]
    omega
  rw [addLayout, hs, Except.ok_bind]
  obtain ⟨all, s', hs', laid⟩ | ⟨not, e, he⟩ := (adds.addComposite inOrder apart).addMounts enough
  · refine .inl ⟨all, s', s₁.next, ?_, laid⟩
    dsimp only
    rw [hs']
    rfl
  · refine .inr ⟨not, e, ?_⟩
    dsimp only
    rw [he]
    rfl

/-- What has been built lists the entries, in the byte order of their paths. -/
theorem Laid.list (laid : s.Laid composite n ms)
    (allowed : ∀ m ∈ ms, ¬(m.backend = .memory ∧ m.readOnly = true)) (hops : Nat)
    (info : MountInfo) :
    info ∈ (s.volumes.tables composite).list (fileSystem s.backends hops) ↔
      ∃ m ∈ ms, info = ⟨m.place, m.backend.name, m.readOnly⟩ := by
  -- What a mount is listed as is what its entry asks for.
  have listed : ∀ m ∈ ms, ∀ c, (s.volumes.tables composite).mounts.get? m.place = some c →
      (fileSystem s.backends hops c).name = m.backend.name ∧
        (fileSystem s.backends hops c).readOnly = m.readOnly := by
    intro m mem c hc
    obtain ⟨c', hc', there⟩ := laid.holds.mounted m mem
    cases hc.symm.trans hc'
    have may := allowed m mem
    revert there may
    cases m.backend with
    | memory =>
      intro there may
      rw [fileSystem_memory there]
      exact ⟨rfl, (Bool.eq_false_iff.2 fun sealed => may ⟨rfl, sealed⟩).symm⟩
    | keyValue =>
      intro there _
      rw [fileSystem_keyValue there]
      exact ⟨rfl, rfl⟩
  rw [MountTable.list, List.mem_map]
  constructor
  · rintro ⟨⟨p, c⟩, mem, rfl⟩
    have hc := SortedMap.get?_eq_some_iff.2 mem
    obtain ⟨m, mem', rfl⟩ := laid.holds.only p c hc
    obtain ⟨name, sealed⟩ := listed m mem' c hc
    exact ⟨m, mem', by rw [name, sealed]⟩
  · rintro ⟨m, mem, rfl⟩
    obtain ⟨c, hc, -⟩ := laid.holds.mounted m mem
    obtain ⟨name, sealed⟩ := listed m mem c hc
    exact ⟨(m.place, c), SortedMap.get?_eq_some_iff.1 hc, by rw [name, sealed]⟩

/-- **Which layouts can be built**: a layout can be built just if it asks for no tree in memory that
refuses changes, no two entries have the same path, and every path strictly above an entry, other
than the root and the paths of entries before it, belongs to none of the entries before it that
refuses changes. The composite then has just the mounts of the entries, in the byte order of their
paths. No id may be drawn twice on the way. -/
theorem addLayout_isOk_iff (reachable : s.Reachable) (l : Layout)
    (apart : s.volumes.ambient.DrawsApart (s.volumes.ambient.draws + l.draws)) :
    ((s.addLayout l).isOk = true ↔
      (∀ m ∈ l.mounts, ¬(m.backend = .memory ∧ m.readOnly = true)) ∧
      l.mounts.Pairwise (fun m m' => m.place ≠ m'.place) ∧
      ∀ before m after, l.mounts = before ++ m :: after → ∀ a : Path,
        a.isPrefixOf m.place = true → a ≠ m.place → a ≠ .root → (∀ o ∈ before, o.place ≠ a) →
        ∀ o : Layout.Mount, o.Owns before a → ¬o.IsSealed) ∧
    ∀ s' b, s.addLayout l = .ok (s', b) → s'.backends[b]? = some (.composite b) ∧
      ∀ hops, let infos := (s'.volumes.tables b).list (fileSystem s'.backends hops)
        infos.Pairwise (fun i j => Utf8.encode i.path.spelling < Utf8.encode j.path.spelling) ∧
        ∀ info, info ∈ infos ↔ ∃ m ∈ l.mounts, info = ⟨m.place, m.backend.name, m.readOnly⟩ := by
  rw [← Layout.Mount.fits_iff]
  obtain ⟨fits, s₁, composite, built, laid⟩ | ⟨not, e, failed⟩ :=
    addLayout_cases reachable.inOrder l apart
  · rw [built]
    refine ⟨⟨fun _ => fits, fun _ => rfl⟩, fun s' b same => ?_⟩
    cases same
    refine ⟨laid.there, fun hops => ⟨?_, laid.list (Layout.Mount.fits_iff.1 fits).1 hops⟩⟩
    exact List.pairwise_map.2 ((s₁.volumes.tables composite).mounts.ascending.imp fun lt =>
      Utf8.encode_lt_iff.2 lt)
  · rw [failed]
    exact ⟨⟨fun no => (by cases no), fun fits => absurd fits not⟩, fun s' b no => (by cases no)⟩

/-- A store that refuses changes, mounted at `/r`, and a tree one step or two steps below it. -/
def overSealed (below : String) : Layout :=
  ⟨.memory, [⟨"/r/", .keyValue, true⟩, ⟨below, .memory, false⟩]⟩

/-- A directory would be needed inside the store for the one, and none for the other. -/
theorem addLayout_isOk_iff_overSealed :
    (∃ s b, (empty .counting).addLayout (overSealed "//r/x") = .ok (s, b) ∧ ∀ info,
      info ∈ (s.volumes.tables b).list (s.fileSystems .root) ↔
        info = ⟨.ofText "/r", "key-value", true⟩ ∨ info = ⟨.ofText "/r/x", "memory", false⟩) ∧
    ((empty .counting).addLayout (overSealed "/r/x/y")).isOk = false := by
  have isOk : ((empty .counting).addLayout (overSealed "//r/x")).isOk = true := by decide +kernel
  have apart : ∀ below, (overSealed below).draws ≤ 100 →
      Ambient.counting.DrawsApart (0 + (overSealed below).draws) :=
    fun below le => Ambient.counting_drawsApart (by omega)
  obtain ⟨-, lists⟩ := addLayout_isOk_iff (.empty .counting) (overSealed "//r/x")
    (apart _ (by decide +kernel))
  obtain ⟨needs, -⟩ := addLayout_isOk_iff (.empty .counting) (overSealed "/r/x/y")
    (apart _ (by decide +kernel))
  refine ⟨?_, Bool.eq_false_iff.2 fun built => ?_⟩
  · cases built : (empty .counting).addLayout (overSealed "//r/x") with
    | error e =>
      rw [built] at isOk
      cases isOk
    | ok r =>
      obtain ⟨s, b⟩ := r
      refine ⟨s, b, rfl, fun info => ?_⟩
      rw [fileSystems, ((lists s b built).2 _).2 info]
      simp only [overSealed, List.mem_cons, List.not_mem_nil, or_false, exists_eq_or_imp,
        exists_eq_left]
      rfl
  · obtain ⟨-, -, above⟩ := needs.1 built
    exact above [⟨"/r/", .keyValue, true⟩] ⟨"/r/x/y", .memory, false⟩ [] rfl (.ofText "/r/x")
      (by decide) (by decide)
      (by decide) (by decide) ⟨"/r/", .keyValue, true⟩ ⟨by decide, by decide, by decide⟩ ⟨rfl, rfl⟩

end System

end MountSpace
