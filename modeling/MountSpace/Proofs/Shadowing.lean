import MountSpace.Proofs.Protection

/-!
# What a mount hides

What stands in the enclosing backend at and below a mount point is out of reach as long as the mount
stays: every path at or below the mount point leads to what is mounted there or beneath, every other
path in the enclosing backend lies elsewhere, and the directories above the mount point cannot be
moved away. So it is still there when the mount is removed.

- `MountTable.Shadows`: a table with a mount at a path and perhaps more beneath it,
  otherwise as another table.
- `Shadows.not_below`, `Shadows.base`: where its paths lead in the enclosing backend.
- `Deed.Beneath`, `System.Shadowed.maintained`: calls, and mounting and unmounting strictly beneath
  a path, keep the mount there.
- `System.besides`, `besides_spares`, `besides_covers`: the reach of all these, which
  leaves out what is hidden.
- `carryAll_shadowed`: so the mount stays and what it hides is retained.
- `shadowed_comes_back`: nothing happens to what is hidden, and removing the mount shows it again.
- `reattached_root_is_not_hidden`: what is mounted over `/` hides nothing if it is
  the implicit root itself.
-/

namespace MountSpace

open MountSpace.Action

namespace MountTable

variable {t t' t₀ : MountTable} {p q m k : Path} {c d : BackendId} {name : String}

/-! ## Tables with a mount that hides something -/

/-- A table that is as another one, but has a backend mounted at a path, and
perhaps more beneath it. -/
structure Shadows (t₀ : MountTable) (p : Path) (c : BackendId) (t : MountTable) : Prop where
  root : t.root = t₀.root
  outside : ∀ m, ¬p.isPrefixOf m = true → t.mounts.get? m = t₀.mounts.get? m
  mounted : t.mounts.get? p = some c
  valid : t.Valid

/-- Mounting at the path. -/
theorem Shadows.start (valid : t₀.Valid) (inserted : t₀.insert p c name = .ok t) :
    t₀.Shadows p c t where
  root := by rw [insert_ok inserted]
  outside := fun m outside => by
    rw [insert_ok inserted]
    exact SortedMap.get?_insert_other _ c fun e => outside (e ▸ Path.isPrefixOf_self m)
  mounted := by
    rw [insert_ok inserted]
    exact SortedMap.get?_insert_self ..
  valid := valid.insert inserted

namespace Shadows

variable (shadows : t₀.Shadows p c t)
include shadows

/-- Mounting something else beneath the path. -/
theorem insert (below : p.isPrefixOf m = true) (ne : m ≠ p)
    (inserted : t.insert m d name = .ok t') : t₀.Shadows p c t' where
  root := by
    rw [insert_ok inserted]
    exact shadows.root
  outside := fun n outside => by
    rw [insert_ok inserted]
    have apart : n ≠ m := fun e => outside (e ▸ below)
    exact (SortedMap.get?_insert_other _ d apart).trans (shadows.outside n outside)
  mounted := by
    rw [insert_ok inserted]
    exact (SortedMap.get?_insert_other _ d ne.symm).trans shadows.mounted
  valid := shadows.valid.insert inserted

/-- Unmounting something beneath the path. -/
theorem remove (below : p.isPrefixOf m = true) (ne : m ≠ p) (removed : t.remove m = .ok (d, t')) :
    t₀.Shadows p c t' where
  root := by
    rw [remove_ok removed]
    exact shadows.root
  outside := fun n outside => by
    have apart : n ≠ m := fun e => outside (e ▸ below)
    rw [remove_ok removed, SortedMap.get?_erase, if_neg apart]
    exact shadows.outside n outside
  mounted := by
    rw [remove_ok removed, SortedMap.get?_erase, if_neg ne.symm]
    exact shadows.mounted
  valid := shadows.valid.remove removed

/-- Unmounting at the path, when nothing is mounted beneath it, gives back the table from before. -/
theorem restored (clear : t₀.IsClear p) (alone : t.hasMountBeneath p = false) :
    t.remove p = .ok (c, t₀) := by
  have back : t.mounts.erase p = t₀.mounts := by
    refine SortedMap.ext_get? fun m => ?_
    rw [SortedMap.get?_erase]
    by_cases here : m = p
    · rw [if_pos here, clear.get?_below (here ▸ Path.isPrefixOf_self p)]
    rw [if_neg here]
    by_cases below : p.isPrefixOf m = true
    · rw [clear.get?_below below]
      refine SortedMap.contains_eq_false.1 (Bool.eq_false_iff.2 fun mounted => ?_)
      exact Bool.eq_false_iff.1 alone (hasMountBeneath_iff.2 ⟨m, mounted, here, below⟩)
    · exact shadows.outside m below
  have same : ({ t with mounts := t.mounts.erase p } : MountTable) = t₀ := by
    rw [back, shadows.root]
  rw [MountTable.remove, shadows.mounted]
  exact congrArg (fun t => Except.ok (c, t)) same

variable (clear : t₀.IsClear p) (other : ¬(p = .root ∧ c = t₀.root))
include clear other

/-- No path at or below the mount leads to the backend that the path was in before. -/
theorem not_below (leads : (t.resolve q).backend = (t₀.resolve p).backend) :
    ¬p.isPrefixOf q = true := by
  intro below
  have here : t.isMountPoint p = true := SortedMap.contains_iff.2 ⟨c, shadows.mounted⟩
  rcases t.resolve_cases q with ⟨m, b, k, mounted, rfl, hq, longest⟩ | ⟨-, free⟩
  case inr => exact free p here below
  -- The mount that owns the path is the one at the path or one beneath it, so it is not an old one.
  have within : p.isPrefixOf m = true :=
    Path.isPrefixOf_of_length_le below (Path.isPrefixOf_append m k) (longest p here below)
  have host : (t₀.resolve p).backend = b := by rw [← leads, hq]
  rcases t₀.resolve_cases p with ⟨n, b', l, mounted', -, hp, -⟩ | ⟨hp, -⟩
  · have outside := clear.not_below mounted'
    rw [hp] at host
    rw [← host] at mounted
    have one : m = n :=
      shadows.valid.once m n b' mounted ((shadows.outside n outside).trans mounted')
    exact outside (one ▸ within)
  · rw [hp] at host
    rw [← host, ← shadows.root] at mounted
    obtain rfl := shadows.valid.root m mounted
    obtain rfl := Path.isPrefixOf_root.1 within
    exact other ⟨rfl, (Option.some.inj (shadows.mounted.symm.trans mounted)).trans shadows.root⟩

/-- In the backend that the path was in before, every other path lies where it lay. -/
theorem base (leads : (t.resolve q).backend = (t₀.resolve p).backend) :
    q = (t₀.resolve p).mountPath ++ (t.resolve q).relative := by
  let m := (t₀.resolve p).mountPath
  have host : t₀.resolve m = ⟨(t₀.resolve p).backend, .root, m⟩ := t₀.resolve_mountPath p
  -- The path that matched is not hidden itself, and so it still leads to the same backend.
  have outside : ¬p.isPrefixOf m = true := by
    intro below
    rcases t₀.resolve_cases p with ⟨n, b, l, mounted, -, hp, -⟩ | ⟨hp, -⟩
    · have e : m = n := congrArg Route.mountPath hp
      exact clear.not_below mounted (e ▸ below)
    · have e : m = .root := congrArg Route.mountPath hp
      obtain rfl := Path.isPrefixOf_root.1 (e ▸ below)
      exact shadows.not_below clear other leads (Path.root_isPrefixOf q)
  have same : t.resolve m = t₀.resolve m := resolve_congr shadows.root fun n above =>
    shadows.outside n fun below => outside (Path.isPrefixOf_trans below above)
  obtain ⟨n, hn⟩ := shadows.valid.resolve_eq (t₀.resolve p).backend
  have here : m = n := by
    have := hn m (by rw [same, host])
    rwa [same, host, Path.append_root] at this
  rw [← here] at hn
  exact hn q leads

end Shadows

end MountTable

/-! ## What happens while the mount is there -/

/-- If a deed mounts or unmounts, it does so strictly beneath a path. -/
def Deed.Beneath (p : Path) : Deed → Prop
  | .ask _ => True
  | .store _ _ _ => True
  | .mount n _ => p.isPrefixOf n = true ∧ n ≠ p
  | .unmount n => p.isPrefixOf n = true ∧ n ≠ p

instance (p : Path) : DecidablePred (Deed.Beneath p)
  | .ask _ => isTrue trivial
  | .store _ _ _ => isTrue trivial
  | .mount n _ => inferInstanceAs (Decidable (p.isPrefixOf n = true ∧ n ≠ p))
  | .unmount n => inferInstanceAs (Decidable (p.isPrefixOf n = true ∧ n ≠ p))

namespace System

variable {s : System} {b c host : BackendId} {table : Nat} {p hidden q : Path} {t t₀ : MountTable}
variable {among : BackendId → Prop}

/-- The backends that a table names, one that is mounted, and those that some deeds mount. -/
def Involved (t : MountTable) (c : BackendId) (deeds : List Deed) (d : BackendId) : Prop :=
  t.Names d ∨ d = c ∨ ∃ n, .mount n d ∈ deeds

/-- The mount is there, and only certain backends take part. -/
def Shadowed (t₀ : MountTable) (p : Path) (c : BackendId) (among : BackendId → Prop)
    (t : MountTable) : Prop :=
  t₀.Shadows p c t ∧ ∀ d, t.Names d → among d

/-- Mounting something puts it there. -/
theorem Shadowed.start {deeds : List Deed} {name : String} (valid : t₀.Valid)
    (inserted : t₀.insert p c name = .ok t) : Shadowed t₀ p c (Involved t₀ c deeds) t := by
  refine ⟨.start valid inserted, fun d named => ?_⟩
  rcases MountTable.names_insert inserted named with old | new
  · exact .inl old
  · exact .inr (.inl new)

/-- What happens beneath the mount keeps it there. -/
theorem Shadowed.maintained {d : Deed} (beneath : d.Beneath p)
    (takes : ∀ n e, d = .mount n e → among e) : d.Maintains (Shadowed t₀ p c among) := by
  cases d with
  | ask request => trivial
  | store p data attr => trivial
  | mount n e =>
    rintro t t' name ⟨shadows, named⟩ - inserted
    refine ⟨shadows.insert beneath.1 beneath.2 inserted, fun d hd => ?_⟩
    rcases MountTable.names_insert inserted hd with before | rfl
    · exact named d before
    · exact takes n d rfl
  | unmount n =>
    rintro t t' e ⟨shadows, named⟩ - removed
    exact ⟨shadows.remove beneath.1 beneath.2 removed, fun d hd =>
      named d (MountTable.names_remove removed hd)⟩

/-- Calls may come to some backends. In one of them they come neither to a path nor below it, and
they may not clear away what lies above the path either. -/
def besides (among : BackendId → Prop) (host : BackendId) (hidden : Path) : Reach where
  near c r := among c ∧ (c = host → ¬hidden.isPrefixOf r = true)
  clear c r := among c ∧ (c = host → ¬hidden.isPrefixOf r = true ∧ ¬r.isPrefixOf hidden = true)

/-- What is at a path of a backend and below it stands there still. -/
def Hides (s : System) (host : BackendId) (hidden : Path) (vol : Volume) (S : Space) : Prop :=
  s.volume? host = some vol → ∀ k, S (hidden ++ k) = s.volumes.space vol (hidden ++ k)

/-- What is hidden survives calls within reach. -/
theorem besides_spares (unshared : s.Unshared among) (here : among host) :
    (besides among host hidden).Spares s.backends (s.Hides host hidden) where
  leaf := by
    rintro c r (⟨mem, -⟩ | ⟨mem, -⟩)
    · exact unshared.kept c mem
    · exact unshared.kept c mem
  step := by
    intro c vol hc S S' step hides hvol k
    -- Only one backend keeps the volume, so calls that come to it come to the one
    -- that hides something.
    have same : among c → c = host := fun mem => unshared.apart c host mem here (hc.trans hvol.symm)
    refine (step.same ?_ ?_).trans (hides hvol k)
    · rintro ⟨mem, aside⟩
      exact aside (same mem) (Path.isPrefixOf_append hidden k)
    · rintro r ⟨mem, aside⟩ above
      obtain ⟨notBelow, notAbove⟩ := aside (same mem)
      rcases Path.above_append above with above | ⟨l, rfl, -⟩
      · exact notAbove above
      · exact notBelow (Path.isPrefixOf_append hidden l)

/-- A table in which the mount is there sends calls to places within reach only. -/
theorem besides_covers (clear : t₀.IsClear p) (other : ¬(p = .root ∧ c = t₀.root))
    (shadowed : Shadowed t₀ p c among t) :
    (besides among (t₀.resolve p).backend (t₀.resolve p).relative).Covers t := by
  obtain ⟨shadows, named⟩ := shadowed
  have whole : p = (t₀.resolve p).mountPath ++ (t₀.resolve p).relative :=
    t₀.mountPath_append_relative p
  have notBelow : ∀ q, (t.resolve q).backend = (t₀.resolve p).backend →
      ¬(t₀.resolve p).relative.isPrefixOf (t.resolve q).relative = true := by
    intro q leads below
    obtain ⟨k, hk⟩ := Path.isPrefixOf_iff.1 below
    refine shadows.not_below clear other leads ?_
    rw [shadows.base clear other leads, hk, ← Path.append_assoc, ← whole]
    exact Path.isPrefixOf_append p k
  refine ⟨fun q => ⟨named _ (t.names_resolve q), notBelow q⟩, fun q free =>
    ⟨named _ (t.names_resolve q), fun leads => ⟨notBelow q leads, fun above => ?_⟩⟩⟩
  -- What lies above the hidden place is the place of a path above the mount point.
  obtain ⟨k, hk⟩ := Path.isPrefixOf_iff.1 above
  refine free.not_below shadows.mounted ?_
  rw [whole, hk, ← Path.append_assoc, ← shadows.base clear other leads]
  exact Path.isPrefixOf_append q k

/-- The directories above a path are neither at it nor below it. -/
theorem besides_ancestors (valid : t₀.Valid) (named : ∀ d, t₀.Names d → among d) {a : Path}
    (mem : a ∈ p.strictAncestors) :
    (besides among (t₀.resolve p).backend (t₀.resolve p).relative).Near t₀ a := by
  obtain ⟨above, ne⟩ := Path.above_of_mem_strictAncestors mem
  obtain ⟨base, hbase⟩ := valid.resolve_eq (t₀.resolve p).backend
  refine ⟨named _ (t₀.names_resolve a), fun leads below => ne ?_⟩
  obtain ⟨k, hk⟩ := Path.isPrefixOf_iff.1 below
  refine Path.isPrefixOf_antisymm above ?_
  rw [hbase a leads, hk, ← Path.append_assoc, ← hbase p rfl]
  exact Path.isPrefixOf_append p k

section

variable (inOrder : s.InOrder) (there : s.backends[b]? = some (.composite table))
  {deeds : List Deed}
variable (mounted : (s.mount table p c).1 = .ok ())
variable (unshared : s.Unshared (Involved (s.volumes.tables table) c deeds))
include inOrder there mounted unshared

/-- Mounting makes the directories above the mount point, and changes nothing else but the table. -/
theorem mount_shadowed : ∃ v, s.mount table p c = (.ok (), ⟨s.backends, v⟩) ∧
    v.Retains s.backends table
      (Shadowed (s.volumes.tables table) p c (Involved (s.volumes.tables table) c deeds))
      (s.Hides ((s.volumes.tables table).resolve p).backend
        ((s.volumes.tables table).resolve p).relative) := by
  let t₀ := s.volumes.tables table
  have valid : t₀.Valid := inOrder.volumes.valid b table there
  have before : s.volumes.Retains s.backends table (· = t₀)
      (s.Hides (t₀.resolve p).backend (t₀.resolve p).relative) :=
    ⟨inOrder.volumes, rfl, fun _ _ _ => rfl⟩
  rcases before.mount_cases (besides_spares unshared (.inl (t₀.names_resolve p))) there
    (fun a mem => besides_ancestors valid (fun _ => .inl) mem) (s.hopBudget p) c with
    ⟨e, v, hr, -⟩ | ⟨t, name, v, inserted, hr, kept⟩
  · rw [mount, run, fileSystems, hr] at mounted
    cases mounted
  · refine ⟨v, by rw [mount, run, fileSystems, hr], kept.inOrder, ?_, kept.spaces⟩
    obtain rfl : v.tables table = t := kept.table
    exact .start valid inserted

/-- From there on the mount stays, and what it hides is out of reach. -/
theorem carryAll_shadowed (clear : (s.volumes.tables table).IsClear p)
    (other : ¬(p = .root ∧ c = (s.volumes.tables table).root))
    (beneath : ∀ d ∈ deeds, d.Beneath p) :
    (Session.carryAll b table (.fresh (s.mount table p c).2) deeds).Retains s.backends table
      (Shadowed (s.volumes.tables table) p c (Involved (s.volumes.tables table) c deeds))
      (s.Hides ((s.volumes.tables table).resolve p).backend
        ((s.volumes.tables table).resolve p).relative) := by
  obtain ⟨v, hr, kept⟩ := mount_shadowed inOrder there mounted unshared
  rw [hr]
  refine Session.Retains.carryAll
    (besides_spares unshared (.inl ((s.volumes.tables table).names_resolve p)))
    (fun _ shadowed => besides_covers clear other shadowed) there ⟨rfl, kept, fun n f held =>
      by cases held⟩ fun d mem => ?_
  exact Shadowed.maintained (beneath d mem) fun n e h => .inr (.inr ⟨n, h ▸ mem⟩)

end

/-- **What a mount hides comes back**: something is mounted where nothing is mounted at or beneath,
by a composite over backends that share no volume; then the composite is asked for anything, and
anything is mounted and unmounted strictly beneath. All the while nothing changes at the path or
below it in the enclosing backend. Once no mount is left beneath, unmounting gives back what was
mounted, and every path at or below the mount point reads as before. The one exception is the
implicit root mounted over `/`, where it already is. -/
theorem shadowed_comes_back (reachable : s.Reachable)
    (there : s.backends[b]? = some (.composite table)) (clear : (s.volumes.tables table).IsClear p)
    (other : ¬(p = .root ∧ c = (s.volumes.tables table).root))
    (mounted : (s.mount table p c).1 = .ok ()) {deeds : List Deed}
    (beneath : ∀ d ∈ deeds, d.Beneath p)
    (unshared : s.Unshared (Involved (s.volumes.tables table) c deeds)) :
    let hidden := (s.volumes.tables table).resolve p
    let s' := (Session.carryAll b table (.fresh (s.mount table p c).2) deeds).system
    (∀ k, s.SeenAs s' hidden.backend (hidden.relative ++ k)) ∧
    ((s'.volumes.tables table).hasMountBeneath p = false →
      (s'.unmount table p).1 = .ok c ∧
        ∀ q, p.isPrefixOf q = true → s.SeenAs (s'.unmount table p).2 b q) := by
  intro hidden s'
  have inOrder := reachable.inOrder
  let t₀ := s.volumes.tables table
  obtain ⟨vol, hvol⟩ := unshared.kept _ (.inl (t₀.names_resolve p))
  have retained := carryAll_shadowed inOrder there mounted unshared clear other beneath
  have same : s'.backends = s.backends := retained.same
  refine ⟨fun k => inOrder.seenAs (inOrder.of_backends same retained.volumes.inOrder) ?_,
    fun alone => ?_⟩
  · rw [look_volume hvol, look_volume ((volume?_congr same _).trans hvol)]
    exact (retained.volumes.spaces vol hvol k).symm
  -- Without mounts beneath, the table from before comes back, and with it the way
  -- to what was hidden.
  have restored : (s'.volumes.tables table).remove p = .ok (c, t₀) :=
    retained.volumes.table.1.restored clear alone
  rcases retained.volumes.unmount_cases there p with ⟨e, failed, -⟩ | ⟨c', t', v, removed, hu, kept⟩
  · cases restored.symm.trans failed
  cases restored.symm.trans removed
  let s'' : System := ⟨s'.backends, v⟩
  have after : s'.unmount table p = (.ok c, s'') := by rw [unmount, run, hu]
  have same'' : s''.backends = s.backends := same
  rw [after]
  refine ⟨rfl, fun q below => inOrder.seenAs (inOrder.of_backends same'' kept.inOrder) ?_⟩
  obtain ⟨k, rfl⟩ := Path.isPrefixOf_iff.1 below
  have table'' : s''.volumes.tables table = t₀ := kept.table
  have leads : t₀.resolve (p ++ k) = ⟨hidden.backend, hidden.relative ++ k, hidden.mountPath⟩ :=
    clear.resolve_append k
  have here : s.volume? (t₀.resolve (p ++ k)).backend = some vol := by rwa [leads]
  have here'' : s''.volume? ((s''.volumes.tables table).resolve (p ++ k)).backend = some vol := by
    rwa [table'', volume?_congr same'']
  rw [look_routed there here, look_routed (same'' ▸ there) here'', table'', leads]
  exact (kept.spaces vol hvol k).symm

/-- A composite over a tree with a file at `/a/f`, and two more trees. -/
def layered : System :=
  let s := (empty .counting).addMemory.addMemory.addMemory.addComposite 0
  ((s.mkdir 3 (.ofText "/a") 0o755).2.writeAll 3 (.ofText "/a/f") [120]).2

theorem layered_reached : layered.Reached [.memory 0, .memory 1, .memory 2, .composite 3] := by
  have made :=
    (Reached.empty .counting).addMemory.addMemory.addMemory.addComposite (show 0 < _ by decide)
  exact (made.mkdir 3 (.ofText "/a") 0o755).writeAll 3 (.ofText "/a/f") [120]

/-- A file with the hidden one's name is written, a tree is mounted beneath and taken away again,
and the directory is to be moved. -/
def meanwhile : List Deed :=
  [.ask (.writeAll (.ofText "/a/f") [1]), .mount (.ofText "/a/n/m") 2,
    .ask (.rename (.ofText "/a") (.ofText "/b")), .ask (.unlink (.ofText "/a/f")),
    .unmount (.ofText "/a/n/m")]

theorem layered_unshared : layered.Unshared (Involved (layered.volumes.tables 3) 1 meanwhile) := by
  have names : (let t := layered.volumes.tables 3; t.root :: t.mounts.values) = [0] := by
    decide +kernel
  refine .of_trees fun d hd => ?_
  rw [volume?, layered_reached.backends]
  rcases hd with named | rfl | ⟨n, mem⟩
  · rw [MountTable.names_iff, names, List.mem_singleton] at named
    rw [named]
    rfl
  · rfl
  · have : d = 2 := by
      simp only [meanwhile, List.mem_cons, List.not_mem_nil, reduceCtorEq, or_false, false_or,
        Deed.mount.injEq] at mem
      exact mem.2
    rw [this]
    rfl

/-- The file is out of sight for a while, and then it can be read again. -/
theorem shadowed_comes_back_layered :
    let s' := (Session.carryAll 3 3 (.fresh (layered.mount 3 (.ofText "/a") 1).2) meanwhile).system
    layered.Reachable ∧ layered.readAll 3 (.ofText "/a/f") = .ok [120] ∧
      (s'.readAll 3 (.ofText "/a/f")).isOk = false ∧ (s'.unmount 3 (.ofText "/a")).1 = .ok 1 ∧
      (s'.unmount 3 (.ofText "/a")).2.readAll 3 (.ofText "/a/f") = .ok [120] := by
  intro s'
  have read : layered.readAll 3 (.ofText "/a/f") = .ok [120] := by decide +kernel
  obtain ⟨mounted, hides, alone⟩ : (layered.mount 3 (.ofText "/a") 1).1 = .ok () ∧
      (s'.readAll 3 (.ofText "/a/f")).isOk = false ∧
      (s'.volumes.tables 3).hasMountBeneath (.ofText "/a") = false := by decide +kernel
  have clear : (layered.volumes.tables 3).IsClear (.ofText "/a") := by
    rw [MountTable.IsClear]
    decide +kernel
  have beneath : ∀ d ∈ meanwhile, d.Beneath (.ofText "/a") := by decide
  have notRoot : ¬(Path.ofText "/a" = .root ∧ 1 = (layered.volumes.tables 3).root) := fun h =>
    absurd h.1 (by decide)
  obtain ⟨-, restored⟩ :=
    shadowed_comes_back layered_reached.reachable (layered_reached.at' (b := 3) rfl) clear
    notRoot mounted beneath layered_unshared
  obtain ⟨given, seen⟩ := restored alone
  have content := (seen (.ofText "/a/f") (by decide)).content
  rw [read] at content
  refine ⟨layered_reached.reachable, read, hides, given, ?_⟩
  cases found : (s'.unmount 3 (.ofText "/a")).2.readAll 3 (.ofText "/a/f") with
  | error e =>
    rw [found] at content
    cases content
  | ok data =>
    rw [found] at content
    exact congrArg Except.ok (Option.some.inj content).symm

/-- What is written to the implicit root mounted over `/` is there when it has been unmounted. -/
theorem reattached_root_is_not_hidden :
    let s := (empty .counting).addMemory.addComposite 0
    let deeds := [.ask (.writeAll (.ofText "/f") [120])]
    let s' := (Session.carryAll 1 1 (.fresh (s.mount 1 .root 0).2) deeds).system
    s.Reachable ∧ s.backends = [.memory 0, .composite 1] ∧ (s.volumes.tables 1).IsClear .root ∧
      (s.mount 1 .root 0).1 = .ok () ∧ (∀ d ∈ deeds, d.Beneath .root) ∧
      s.Unshared (Involved (s.volumes.tables 1) 0 deeds) ∧
      (s'.volumes.tables 1).hasMountBeneath .root = false ∧ (s'.unmount 1 .root).1 = .ok 0 ∧
      ¬s.SeenAs (s'.unmount 1 .root).2 1 (.ofText "/f") := by
  intro s deeds s'
  have reached : s.Reached [.memory 0, .composite 1] :=
    (Reached.empty .counting).addMemory.addComposite (show 0 < _ by decide)
  have names : (let t := s.volumes.tables 1; t.root :: t.mounts.values) = [0] := by decide +kernel
  have unshared : s.Unshared (Involved (s.volumes.tables 1) 0 deeds) := by
    refine .of_trees fun d hd => ?_
    have : d = 0 := by
      rcases hd with named | rfl | ⟨n, mem⟩
      · rwa [MountTable.names_iff, names, List.mem_singleton] at named
      · rfl
      · cases List.mem_singleton.1 mem
    rw [this, volume?, reached.backends]
    rfl
  have clear : (s.volumes.tables 1).IsClear .root := by
    rw [MountTable.IsClear]
    decide +kernel
  have run : (s.mount 1 .root 0).1 = .ok () ∧ (s'.volumes.tables 1).hasMountBeneath .root = false ∧
      (s'.unmount 1 .root).1 = .ok 0 ∧ (s.readAll 1 (.ofText "/f")).toOption = none ∧
      ((s'.unmount 1 .root).2.readAll 1 (.ofText "/f")).toOption = some [120] := by decide +kernel
  obtain ⟨mounted, alone, given, before, after⟩ := run
  refine ⟨reached.reachable, reached.backends, clear, mounted,
    by decide, unshared, alone, given, fun seen => ?_⟩
  have content := seen.content
  rw [before, after] at content
  cases content

end System

end MountSpace
