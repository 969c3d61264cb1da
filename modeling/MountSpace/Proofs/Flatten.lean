import MountSpace.Proofs.Passage

/-!
# Composites mounted in composites

A composite that is mounted in another one sends calls on a second time, under a path that has been
cut twice, and steps in at its own mount points. One table does the same: it mounts what the inner
table has as its implicit root where the inner composite was, and every inner mount below that.

- `MountTable.Nests`: one table is mounted alone in another.
- `MountTable.flatten`: the one table for both; `Nests.get?_below`,
  `get?_flatten_outside`: what it mounts.
- `Nests.resolve_below`, `resolve_outside`: where it leads, and the same for the mounts inside
  and beneath a directory.
- `FileSystem.composite_flatten`: inquiries, reading and opening give the same
  and do the same on both.
- `System.nested_eq_flattened`: so it is for two composites of one system,
  whatever their tables name.
-/

namespace MountSpace

namespace MountTable

/-- A table that belongs to a backend is mounted in another one, with nothing else beneath its mount
point and nothing mounted over its own root. -/
structure Nests (outer : MountTable) (m : Path) (c : BackendId) (inner : MountTable) : Prop where
  mounted : outer.mounts.get? m = some c
  alone : outer.hasMountBeneath m = false
  uncovered : inner.isMountPoint .root = false

/-- The table with the implicit root of another one mounted at a path and its mounts below that. -/
def flatten (outer : MountTable) (m : Path) (inner : MountTable) : MountTable where
  root := outer.root
  mounts :=
    (inner.mounts.toList.map fun e => (m ++ e.1, e.2)).foldl (fun mounts e => mounts.insert e.1 e.2)
    (outer.mounts.insert m inner.root)

variable {outer inner : MountTable} {m p q k : Path} {b c : BackendId}

/-! ## What is mounted -/

theorem get?_flatten : (outer.flatten m inner).mounts.get? p = some b ↔
    (∃ k, p = m ++ k ∧ inner.mounts.get? k = some b) ∨
      (∀ k, p = m ++ k → inner.mounts.get? k = none) ∧
        (if p = m then some inner.root else outer.mounts.get? p) = some b := by
  have distinct : ((inner.mounts.toList.map fun e => (m ++ e.1, e.2)).map (·.1)).Nodup := by
    rw [List.map_map]
    refine List.nodup_iff_pairwise_ne.2
      (List.pairwise_map.2 (inner.mounts.ascending.imp fun {a b} lt e => ?_))
    have e : m ++ a.1 = m ++ b.1 := e
    exact KeyOrder.irrefl _ (Path.append_cancel.1 e ▸ lt)
  have moved : ∀ b, (p, b) ∈ (inner.mounts.toList.map fun e => (m ++ e.1, e.2)) ↔
      ∃ k, p = m ++ k ∧ inner.mounts.get? k = some b := by
    intro b
    rw [List.mem_map]
    constructor
    · rintro ⟨⟨k, d⟩, mem, e⟩
      cases e
      exact ⟨k, rfl, SortedMap.get?_eq_some_iff.2 mem⟩
    · rintro ⟨k, rfl, found⟩
      exact ⟨(k, b), SortedMap.get?_eq_some_iff.1 found, rfl⟩
  have unmoved : p ∉ (inner.mounts.toList.map fun e => (m ++ e.1, e.2)).map (·.1) ↔
      ∀ k, p = m ++ k → inner.mounts.get? k = none := by
    rw [List.mem_map]
    constructor
    · intro none' k e
      refine Option.eq_none_iff_forall_ne_some.2 fun d found => none' ⟨(p, d), ?_, rfl⟩
      exact (moved d).2 ⟨k, e, found⟩
    · rintro none' ⟨⟨q, d⟩, mem, rfl⟩
      obtain ⟨k, e, found⟩ := (moved d).1 mem
      exact nomatch found.symm.trans (none' k e)
  rw [flatten, SortedMap.get?_foldl_insert _ _ distinct, moved, unmoved, SortedMap.get?_insert]

/-- Away from the mount point nothing has changed. -/
theorem get?_flatten_outside (outside : ¬m.isPrefixOf p = true) :
    (outer.flatten m inner).mounts.get? p = outer.mounts.get? p := by
  apply Option.ext
  intro b
  have apart : ∀ k, p ≠ m ++ k := fun k e => outside (e ▸ Path.isPrefixOf_append m k)
  have ne : p ≠ m := fun e => outside (e ▸ Path.isPrefixOf_self _)
  rw [get?_flatten, if_neg ne]
  constructor
  · rintro (⟨k, e, -⟩ | ⟨-, found⟩)
    · exact absurd e (apart k)
    · exact found
  · exact fun found => .inr ⟨fun k e => absurd e (apart k), found⟩

namespace Nests

variable (nests : outer.Nests m c inner)
include nests

/-- In the outer table the mount point is the only mount at or below it. -/
theorem isMountPoint_outer (k : Path) : outer.isMountPoint (m ++ k) = decide (k = .root) := by
  by_cases hk : k = .root
  · rw [hk, Path.append_root, decide_eq_true rfl]
    exact SortedMap.contains_iff.2 ⟨c, nests.mounted⟩
  · rw [decide_eq_false hk]
    refine Bool.eq_false_iff.2 fun mounted => ?_
    refine Bool.eq_false_iff.1 nests.alone (hasMountBeneath_iff.2 ⟨m ++ k, mounted, ?_, ?_⟩)
    · exact fun e => hk (Path.append_eq_left.1 e)
    · exact Path.isPrefixOf_append m k

/-- At the mount point is the inner implicit root, and below it are the inner mounts. -/
theorem get?_below (k : Path) : (outer.flatten m inner).mounts.get? (m ++ k) =
    if k = .root then some inner.root else inner.mounts.get? k := by
  apply Option.ext
  intro b
  have inside : (∃ l, m ++ k = m ++ l ∧ inner.mounts.get? l = some b) ↔
      inner.mounts.get? k = some b :=
    ⟨fun ⟨l, e, found⟩ => Path.append_cancel.1 e ▸ found, fun found => ⟨k, rfl, found⟩⟩
  have free : (∀ l, m ++ k = m ++ l → inner.mounts.get? l = none) ↔ inner.mounts.get? k = none :=
    ⟨fun h => h k rfl, fun h l e => Path.append_cancel.1 e ▸ h⟩
  rw [get?_flatten, inside, free]
  by_cases hk : k = .root
  · have none' : inner.mounts.get? k = none := hk ▸ SortedMap.contains_eq_false.1 nests.uncovered
    rw [if_pos (Path.append_eq_left.2 hk), if_pos hk, none']
    simp
  · have none' : outer.mounts.get? (m ++ k) = none :=
      SortedMap.contains_eq_false.1 ((nests.isMountPoint_outer k).trans (decide_eq_false hk))
    rw [if_neg fun e => hk (Path.append_eq_left.1 e), if_neg hk, none']
    simp

theorem isMountPoint_below (k : Path) : (outer.flatten m inner).isMountPoint (m ++ k) =
    (decide (k = .root) || inner.isMountPoint k) := by
  rw [isMountPoint, SortedMap.contains, nests.get?_below]
  by_cases hk : k = .root
  · simp [hk]
  · simp [hk, isMountPoint, SortedMap.contains]

/-! ## Where paths lead -/

/-- In the outer table everything at and below the mount point is the inner composite's. -/
theorem resolve_outer (k : Path) : outer.resolve (m ++ k) = ⟨c, k, m⟩ := by
  refine resolve_mounted nests.mounted fun q mounted above => ?_
  rcases Path.above_append above with higher | ⟨l, rfl, -⟩
  · exact Path.length_le_of_isPrefixOf higher
  · rw [nests.isMountPoint_outer, decide_eq_true_eq] at mounted
    rw [mounted, Path.append_root]

/-- At and below the mount point the one table leads where the inner table does. -/
theorem resolve_below (k : Path) : (outer.flatten m inner).resolve (m ++ k) =
    ⟨(inner.resolve k).backend, (inner.resolve k).relative, m ++ (inner.resolve k).mountPath⟩ := by
  have nonroot : ∀ {n : Path}, inner.isMountPoint n = true → n ≠ .root := fun mounted e =>
    Bool.eq_false_iff.1 nests.uncovered (e ▸ mounted)
  rcases inner.resolve_cases k with ⟨n, b, l, mounted, rfl, leads, longest⟩ | ⟨leads, free⟩
  · rw [leads, ← Path.append_assoc]
    have here : (outer.flatten m inner).mounts.get? (m ++ n) = some b := by
      rw [nests.get?_below, if_neg (nonroot (SortedMap.contains_iff.2 ⟨b, mounted⟩)), mounted]
    refine resolve_mounted here fun q mounted above => ?_
    rw [Path.append_assoc] at above
    rw [Path.segments_append, List.length_append]
    rcases Path.above_append above with higher | ⟨r, rfl, within⟩
    · exact Nat.le_add_right_of_le (Path.length_le_of_isPrefixOf higher)
    · rw [nests.isMountPoint_below, Bool.or_eq_true, decide_eq_true_eq] at mounted
      rw [Path.segments_append, List.length_append]
      refine Nat.add_le_add_left ?_ _
      rcases mounted with rfl | mounted
      · exact Nat.zero_le _
      · exact longest r mounted within
  · rw [leads, Path.append_root]
    have here : (outer.flatten m inner).mounts.get? m = some inner.root := by
      simpa using nests.get?_below .root
    refine resolve_mounted here fun q mounted above => ?_
    rcases Path.above_append above with higher | ⟨r, rfl, within⟩
    · exact Path.length_le_of_isPrefixOf higher
    · rw [nests.isMountPoint_below, Bool.or_eq_true, decide_eq_true_eq] at mounted
      rcases mounted with rfl | mounted
      · rw [Path.append_root]
      · exact absurd within (free r mounted)

/-! ## Mounts inside and beneath a directory -/

theorem childMounts_below (k : Path) :
    (outer.flatten m inner).childMounts (m ++ k) = inner.childMounts k :=
  childMounts_congr fun s => by
    rw [← Path.append_child, nests.isMountPoint_below, decide_eq_false (Path.child_ne_root k s),
      Bool.false_or]

theorem childMounts_outer (k : Path) : outer.childMounts (m ++ k) = [] := by
  refine List.eq_nil_iff_forall_not_mem.2 fun s mem => ?_
  rw [mem_childMounts, ← Path.append_child, nests.isMountPoint_outer, decide_eq_true_eq] at mem
  exact Path.child_ne_root k s mem

theorem hasMountBeneath_below (k : Path) :
    (outer.flatten m inner).hasMountBeneath (m ++ k) = inner.hasMountBeneath k := by
  rw [Bool.eq_iff_iff, hasMountBeneath_iff, hasMountBeneath_iff]
  constructor
  · rintro ⟨n, mounted, ne, below⟩
    obtain ⟨l, rfl⟩ := Path.isPrefixOf_iff.1 below
    rw [Path.append_assoc] at mounted ne
    rw [nests.isMountPoint_below, Bool.or_eq_true, decide_eq_true_eq,
      Path.append_eq_root] at mounted
    refine ⟨k ++ l, mounted.resolve_left fun root => ne ?_, fun e => ne (congrArg (m ++ ·) e),
      Path.isPrefixOf_append k l⟩
    rw [root.1, root.2, Path.append_root]
  · rintro ⟨n, mounted, ne, below⟩
    obtain ⟨l, rfl⟩ := Path.isPrefixOf_iff.1 below
    refine ⟨m ++ (k ++ l), ?_, fun e => ne (Path.append_cancel.1 e), ?_⟩
    · rw [nests.isMountPoint_below, mounted, Bool.or_true]
    · rw [← Path.append_assoc]
      exact Path.isPrefixOf_append ..

theorem hasMountBeneath_outer (k : Path) : outer.hasMountBeneath (m ++ k) = false := by
  refine Bool.eq_false_iff.2 fun beneath => ?_
  obtain ⟨n, mounted, ne, below⟩ := hasMountBeneath_iff.1 beneath
  obtain ⟨l, rfl⟩ := Path.isPrefixOf_iff.1 below
  rw [Path.append_assoc, nests.isMountPoint_outer, decide_eq_true_eq,
    Path.append_eq_root] at mounted
  rw [mounted.1, mounted.2, Path.append_root, Path.append_root] at ne
  exact ne rfl

end Nests

section Outside

variable (outside : ¬m.isPrefixOf p = true)
include outside

theorem resolve_outside : (outer.flatten m inner).resolve p = outer.resolve p :=
  resolve_congr rfl fun _ above =>
    get?_flatten_outside fun below => outside (Path.isPrefixOf_trans below above)

theorem isMountPoint_outside : (outer.flatten m inner).isMountPoint p = outer.isMountPoint p :=
  congrArg Option.isSome (get?_flatten_outside outside)

/-- Outside, a directory has a mount inside at the one path where the composite was, if at all. -/
theorem childMounts_outside (nests : outer.Nests m c inner) :
    (outer.flatten m inner).childMounts p = outer.childMounts p := by
  refine childMounts_congr fun s => ?_
  by_cases below : m.isPrefixOf (p.child s) = true
  · have here : p.child s = m ++ .root := by
      rw [Path.append_root]
      exact ((Path.isPrefixOf_child.1 below).resolve_right outside).symm
    rw [here, nests.isMountPoint_below, nests.isMountPoint_outer, decide_eq_true rfl, Bool.true_or]
  · exact isMountPoint_outside below

theorem hasMountBeneath_outside (nests : outer.Nests m c inner) :
    (outer.flatten m inner).hasMountBeneath p = outer.hasMountBeneath p := by
  rw [Bool.eq_iff_iff, hasMountBeneath_iff, hasMountBeneath_iff]
  constructor
  · rintro ⟨n, mounted, ne, below⟩
    by_cases inside : m.isPrefixOf n = true
    · -- What is mounted below the mount point lies below a directory just if the mount point does.
      refine ⟨m, SortedMap.contains_iff.2 ⟨c, nests.mounted⟩,
        fun e => outside (e ▸ Path.isPrefixOf_self _), ?_⟩
      exact (Path.isPrefixOf_total below inside).resolve_right outside
    · exact ⟨n, isMountPoint_outside inside ▸ mounted, ne, below⟩
  · rintro ⟨n, mounted, ne, below⟩
    refine ⟨n, ?_, ne, below⟩
    by_cases inside : m.isPrefixOf n = true
    · obtain ⟨k, rfl⟩ := Path.isPrefixOf_iff.1 inside
      rw [nests.isMountPoint_outer] at mounted
      rw [nests.isMountPoint_below, mounted, Bool.true_or]
    · rwa [isMountPoint_outside inside]

/-- Outside, no path leads to the inner composite. -/
theorem Valid.resolve_outside_ne (valid : outer.Valid) (nests : outer.Nests m c inner) :
    (outer.resolve p).backend ≠ c := by
  rintro leads
  obtain ⟨n, b, k, mounted, rfl, here, -⟩ | ⟨here, -⟩ := outer.resolve_cases p
  · rw [here] at leads
    cases leads
    exact outside (valid.once _ _ _ nests.mounted mounted ▸ Path.isPrefixOf_append _ k)
  · rw [here] at leads
    cases leads
    exact outside (valid.root _ nests.mounted ▸ Path.root_isPrefixOf p)

end Outside

end MountTable

/-! ## What calls give -/

namespace Composite

open MountTable

variable {outer inner : MountTable} {m q : Path} {c : BackendId} {innerTable : Nat} {v : Volumes}
variable {child child' flat : BackendId → FileSystem}

section Below

variable (nests : outer.Nests m c (v.tables innerTable))
  (within : child c = .composite innerTable child')
variable (inside : ∀ b, (v.tables innerTable).Names b → flat b = child' b) (k : Path)
include nests within inside

/-- The inner composite does not answer for its root itself, as nothing is mounted there;
the outer one does. -/
theorem stat_below : stat child outer v (m ++ k) =
    stat flat (outer.flatten m (v.tables innerTable)) v (m ++ k) := by
  have uncovered := nests.uncovered
  rw [stat, stat, nests.resolve_outer, nests.resolve_below, nests.isMountPoint_outer,
    nests.isMountPoint_below]
  dsimp only
  rw [within, inside _ (names_resolve _ k)]
  rw [show (FileSystem.composite innerTable child').stat v k = stat child' (v.tables innerTable) v k
    from rfl, stat]
  cases (child' ((v.tables innerTable).resolve k).backend).stat v
      ((v.tables innerTable).resolve k).relative with
  | ok attr => rfl
  | error e =>
    by_cases hk : k = .root
    · subst hk
      simp [uncovered]
    · simp only [hk, decide_false, Bool.false_and, Bool.false_or, Bool.false_eq_true, if_false]
      by_cases shown : ((v.tables innerTable).isMountPoint k && e.isNotFound) = true
      · rw [if_pos shown]
      · rw [if_neg shown]

/-- The outer composite adds nothing to the listings of the inner one. -/
theorem readdir_below : readdir child outer v (m ++ k) =
    readdir flat (outer.flatten m (v.tables innerTable)) v (m ++ k) := by
  rw [readdir, readdir, nests.resolve_outer, nests.resolve_below, nests.childMounts_outer,
    nests.childMounts_below, nests.hasMountBeneath_outer, nests.hasMountBeneath_below]
  dsimp only
  rw [within, inside _ (names_resolve _ k)]
  rw [show (FileSystem.composite innerTable child').readdir v k =
    readdir child' (v.tables innerTable) v k from rfl, readdir]
  cases (child' ((v.tables innerTable).resolve k).backend).readdir v
      ((v.tables innerTable).resolve k).relative with
  | ok entries => rfl
  | error e =>
    simp only [Bool.and_false, Bool.false_eq_true, if_false]
    by_cases listed : (e.isNotFound && (v.tables innerTable).hasMountBeneath k) = true
    · rw [if_pos listed]
      rfl
    · rw [if_neg listed]

end Below

section Outside

variable (valid : outer.Valid) (nests : outer.Nests m c inner) (outside : ¬m.isPrefixOf q = true)
variable (same : ∀ b, outer.Names b → b ≠ c → flat b = child b)
include valid nests outside same

/-- The backend that owns a path outside is the same. -/
theorem owner_outside : flat ((outer.flatten m inner).resolve q).backend =
    child (outer.resolve q).backend := by
  rw [resolve_outside outside]
  exact same _ (names_resolve _ q) (valid.resolve_outside_ne outside nests)

theorem stat_outside : stat child outer v q = stat flat (outer.flatten m inner) v q := by
  rw [stat, stat, owner_outside valid nests outside same, resolve_outside outside,
    isMountPoint_outside outside]

theorem readdir_outside : readdir child outer v q = readdir flat (outer.flatten m inner) v q := by
  rw [readdir, readdir, owner_outside valid nests outside same, resolve_outside outside,
    childMounts_outside outside nests, hasMountBeneath_outside outside nests]

end Outside

section Flattened

variable {outer inner flat : Nat} {child'' : BackendId → FileSystem}
variable (valid : (v.tables outer).Valid) (nests : (v.tables outer).Nests m c (v.tables inner))
variable (within : child c = .composite inner child')
variable (one : v.tables flat = (v.tables outer).flatten m (v.tables inner))
variable (outside : ∀ b, (v.tables outer).Names b → b ≠ c → child'' b = child b)
variable (inside : ∀ b, (v.tables inner).Names b → child'' b = child' b) (q : Path)
include valid nests within one outside inside

theorem stat_flattened :
    (FileSystem.composite outer child).stat v q = (FileSystem.composite flat child'').stat v q := by
  show stat child (v.tables outer) v q = stat child'' (v.tables flat) v q
  rw [one]
  by_cases below : m.isPrefixOf q = true
  · obtain ⟨k, rfl⟩ := Path.isPrefixOf_iff.1 below
    exact stat_below nests within inside k
  · exact stat_outside valid nests below outside

theorem readdir_flattened :
    (FileSystem.composite outer child).readdir v q =
      (FileSystem.composite flat child'').readdir v q := by
  show readdir child (v.tables outer) v q = readdir child'' (v.tables flat) v q
  rw [one]
  by_cases below : m.isPrefixOf q = true
  · obtain ⟨k, rfl⟩ := Path.isPrefixOf_iff.1 below
    exact readdir_below nests within inside k
  · exact readdir_outside valid nests below outside

/-- A call that every composite passes on as it is comes to the same backend, at the same path. -/
theorem passed_flattened {R : Type} (call : FileSystem → Path → R)
    (passes : ∀ table child p, call (.composite table child) p =
      call (child ((v.tables table).resolve p).backend) ((v.tables table).resolve p).relative) :
    call (.composite outer child) q = call (.composite flat child'') q := by
  rw [passes, passes, one]
  by_cases below : m.isPrefixOf q = true
  · obtain ⟨k, rfl⟩ := Path.isPrefixOf_iff.1 below
    rw [nests.resolve_outer, nests.resolve_below]
    dsimp only
    rw [within, inside _ (names_resolve _ k), passes]
  · rw [owner_outside valid nests below outside, resolve_outside below]

end Flattened

end Composite

/-- **Nested composites flatten**: where a composite is mounted in another one, with nothing else
beneath its mount point, one table that has the inner implicit root mounted there and every inner
mount below it gives the same answers, and calls do the same to the backends. The backends may be
any; the two layouts need to agree on those that the tables name. -/
theorem FileSystem.composite_flatten {outer inner flat : Nat}
    {child child' child'' : BackendId → FileSystem} {v : Volumes} {m : Path} {c : BackendId}
    (valid : (v.tables outer).Valid) (nests : (v.tables outer).Nests m c (v.tables inner))
    (within : child c = .composite inner child')
    (one : v.tables flat = (v.tables outer).flatten m (v.tables inner))
    (outside : ∀ b, (v.tables outer).Names b → b ≠ c → child'' b = child b)
    (inside : ∀ b, (v.tables inner).Names b → child'' b = child' b) (q : Path) :
    let nested := FileSystem.composite outer child
    let flattened := FileSystem.composite flat child''
    nested.stat v q = flattened.stat v q ∧
    nested.readdir v q = flattened.readdir v q ∧
    nested.readAll v q = flattened.readAll v q ∧
    (∀ flags mode, (nested.openFile q flags mode).runOn v =
      (flattened.openFile q flags mode).runOn v) ∧
    ∀ data attr, (nested.sync q data attr).runOn v = (flattened.sync q data attr).runOn v := by
  intro nested flattened
  refine ⟨Composite.stat_flattened valid nests within one outside inside q,
    Composite.readdir_flattened valid nests within one outside inside q, ?_, fun flags mode => ?_,
    fun data attr => ?_⟩
  · exact Composite.passed_flattened valid nests within one outside inside q
      (fun fs p => fs.readAll v p) fun _ _ _ => rfl
  · exact Composite.passed_flattened valid nests within one outside inside q
      (fun fs p => (fs.openFile p flags mode).runOn v) fun _ _ _ => rfl
  · exact Composite.passed_flattened valid nests within one outside inside q
      (fun fs p => (fs.sync p data attr).runOn v) fun _ _ _ => rfl

namespace System

/-- A composite that has another one mounted at `/a/m`, with a tree mounted at `/b/c` in that, and a
third composite that has both trees mounted itself. -/
def twoLayouts : System :=
  let s :=
    (((empty .counting).addMemory.addMemory.addMemory.addComposite 1).addComposite 0).addComposite 0
  let s := (s.mount 3 (.ofText "/b/c") 2).2
  let s := (s.mount 4 (.ofText "/a/m") 3).2
  let s := (s.mount 5 (.ofText "/a/m") 1).2
  let s := (s.mount 5 (.ofText "/a/m/b/c") 2).2
  (s.writeAll 4 (.ofText "/a/m/b/c/f") [120]).2

theorem twoLayouts_reached : twoLayouts.Reached
    [.memory 0, .memory 1, .memory 2, .composite 3, .composite 4, .composite 5] := by
  have trees := (Reached.empty .counting).addMemory.addMemory.addMemory
  have made :=
    ((trees.addComposite (show 1 < _ by decide)).addComposite (show 0 < _ by decide)).addComposite
    (show 0 < _ by decide)
  have inner := made.mount (b := 3) rfl (show 2 < _ by decide) (.ofText "/b/c")
  have outer := inner.mount (b := 4) rfl (show 3 < _ by decide) (.ofText "/a/m")
  have flat := outer.mount (b := 5) rfl (show 1 < _ by decide) (.ofText "/a/m")
  have both := flat.mount (b := 5) rfl (show 2 < _ by decide) (.ofText "/a/m/b/c")
  exact both.writeAll 4 (.ofText "/a/m/b/c/f") [120]

/-- The three tables. -/
theorem twoLayouts_tables :
    (let t := twoLayouts.volumes.tables 3; t.root :: t.mounts.values) = [1, 2] ∧
    (twoLayouts.volumes.tables 4).mounts.get? (.ofText "/a/m") = some 3 ∧
    (twoLayouts.volumes.tables 4).hasMountBeneath (.ofText "/a/m") = false ∧
    (twoLayouts.volumes.tables 3).isMountPoint .root = false ∧
    twoLayouts.volumes.tables 5 =
      (twoLayouts.volumes.tables 4).flatten (.ofText "/a/m") (twoLayouts.volumes.tables 3) := by
  decide +kernel

/-- The file written through the nested composites can be read in the one. -/
theorem composite_flatten_twoLayouts : twoLayouts.Reachable ∧
    twoLayouts.readAll 4 (.ofText "/a/m/b/c/f") = .ok [120] ∧
    twoLayouts.readAll 5 (.ofText "/a/m/b/c/f") = .ok [120] := by
  obtain ⟨inner, mounted, alone, uncovered, one⟩ := twoLayouts_tables
  have reached := twoLayouts_reached
  have order := reached.reachable.inOrder.volumes
  have outside : ∀ b, (twoLayouts.volumes.tables 4).Names b → b ≠ 3 →
      fileSystem twoLayouts.backends 41 b = fileSystem twoLayouts.backends 41 b := fun _ _ _ => rfl
  have inside : ∀ b, (twoLayouts.volumes.tables 3).Names b →
      fileSystem twoLayouts.backends 41 b = fileSystem twoLayouts.backends 40 b := by
    intro b named
    rw [MountTable.names_iff, inner, List.mem_pair] at named
    rcases named with rfl | rfl
    all_goals
      rw [fileSystem_memory (reached.at' rfl), fileSystem_memory (reached.at' rfl)]
  have read : twoLayouts.readAll 4 (.ofText "/a/m/b/c/f") = .ok [120] := by decide +kernel
  have same := FileSystem.composite_flatten (order.valid 4 4 (reached.at' rfl))
    ⟨mounted, alone, uncovered⟩ (fileSystem_composite (reached.at' rfl) 40) one outside inside
    (.ofText "/a/m/b/c/f")
  refine ⟨reached.reachable, read, ?_⟩
  rw [← read, readAll, readAll, fileSystems,
    show twoLayouts.hopBudget (.ofText "/a/m/b/c/f") = 40 + 1 + 1 by
      rw [hopBudget, reached.backends]; rfl,
    fileSystem_composite (reached.at' (b := 4) rfl),
    fileSystem_composite (reached.at' (b := 5) rfl)]
  exact same.2.2.1.symm

/-! ## Two composites of one system -/

section

variable {s : System} {b c d : BackendId} {outer inner flat : Nat} {m q : Path}
variable (there : s.backends[b]? = some (.composite outer))
variable (within : s.backends[c]? = some (.composite inner))
variable (beside : s.backends[d]? = some (.composite flat))
include there within beside

/-- If a call comes to the same over any backends of which the inner composite is one, it does so in
a system, which has one bound for all its backends: the inner composite may be given the hop that
the call to it takes. -/
theorem InOrder.call_flattened {R : Type} {call : FileSystem → Path → R}
    {refuses : MountTable → Path → Bool} {lost : R} (inOrder : s.InOrder)
    (sends : SendsOn s.volumes call refuses lost)
    (flattens : ∀ child child' : BackendId → FileSystem, child c = .composite inner child' →
      (∀ x, x ≠ c → child' x = child x) →
      call (.composite outer child) q = call (.composite flat child') q) :
    call (s.fileSystems q b) q = call (s.fileSystems q d) q := by
  obtain ⟨n, budget, asked⟩ := s.fileSystems_composite there q
  have asked' : s.fileSystems q d = .composite flat (fileSystem s.backends n) := by
    rw [fileSystems, budget, fileSystem_composite beside]
  let child (x : BackendId) : FileSystem := fileSystem s.backends (if x = c then n + 1 else n) x
  have enough : s.backends.length *
      (((s.volumes.tables outer).resolve q).relative.segments.length + 1) ≤ n :=
    enough_onward (t := s.volumes.tables outer) rfl (Nat.le_of_eq budget)
  have more : ∀ x, n ≤ if x = c then n + 1 else n := fun x => by split <;> omega
  have given : call (.composite outer (fileSystem s.backends n)) q =
      call (.composite outer child) q :=
    sends.congr (sends.settled inOrder.plain enough (Nat.le_trans enough (more _)))
  rw [asked, asked', given]
  refine flattens child _ ?_ fun x ne => ?_
  · show fileSystem s.backends (if c = c then n + 1 else n) c = _
    rw [if_pos rfl, fileSystem_composite within]
  · show _ = fileSystem s.backends (if x = c then n + 1 else n) x
    rw [if_neg ne]

/-- Two composites of a system that have the same below them, one by another composite mounted in
it, the other by a table of its own, give the same answers, and calls leave the same system behind.
What the tables name may be composites in turn. -/
theorem nested_eq_flattened (reachable : s.Reachable)
    (nests : (s.volumes.tables outer).Nests m c (s.volumes.tables inner))
    (one : s.volumes.tables flat = (s.volumes.tables outer).flatten m (s.volumes.tables inner))
    (q : Path) :
    s.stat b q = s.stat d q ∧
    s.readdir b q = s.readdir d q ∧
    s.readAll b q = s.readAll d q ∧
    (∀ flags mode, s.openFile b q flags mode = s.openFile d q flags mode) ∧
    ∀ data attr, s.sync b q data attr = s.sync d q data attr := by
  have inOrder := reachable.inOrder
  have valid : (s.volumes.tables outer).Valid := inOrder.volumes.valid b outer there
  refine ⟨?_, ?_, ?_, fun flags mode => run_congr ?_, fun data attr => run_congr ?_⟩
  · exact inOrder.call_flattened there within beside (sendsOn_stat _) fun child child' here same =>
      Composite.stat_flattened valid nests here one (fun x _ => same x) (fun _ _ => rfl) q
  · exact inOrder.call_flattened there within beside (sendsOn_readdir _)
      fun child child' here same =>
        Composite.readdir_flattened valid nests here one (fun x _ => same x) (fun _ _ => rfl) q
  · exact inOrder.call_flattened there within beside (sendsOn_readAll _)
      fun child child' here same =>
        Composite.passed_flattened valid nests here one (fun x _ => same x) (fun _ _ => rfl) q
          (fun fs p => fs.readAll s.volumes p) fun _ _ _ => rfl
  · exact inOrder.call_flattened there within beside (sendsOn_openFile _ flags mode)
      fun child child' here same =>
        Composite.passed_flattened valid nests here one (fun x _ => same x) (fun _ _ => rfl) q
          (fun fs p => (fs.openFile p flags mode).runOn s.volumes) fun _ _ _ => rfl
  · exact inOrder.call_flattened there within beside (sendsOn_sync _ data attr)
      fun child child' here same =>
        Composite.passed_flattened valid nests here one (fun x _ => same x) (fun _ _ => rfl) q
          (fun fs p => (fs.sync p data attr).runOn s.volumes) fun _ _ _ => rfl

end

end System

end MountSpace
