import MountSpace.Proofs.Hops
import MountSpace.Proofs.Rename

/-!
# Bounds that are enough for a move

A move is sent on as long as both paths lead to one backend. Where they part, the file is copied, by
calls at one path each. With every bound that is enough for both paths a move comes to the same.

- `sentBoth`: where a composite sends a move on to. What is left of one path tells
  what is left of the other.
- `Settled`: one hop more makes no difference to the calls at a path.
- `agree_renameAcross`: then it makes none to a copy from one such path to another.
- `rename_settled`: a move comes to the same with all bounds that are enough for both paths.
-/

namespace MountSpace

open MountSpace.Action

/-! ## Two paths on one way -/

section

variable {backends : List Backend} {tables : Nat → MountTable} {b : BackendId}
  {p q : Path} {n : Nat}
variable {x y : BackendId × Path × Path}

/-- Where a composite sends a move on to. -/
def sentBoth (backends : List Backend) (tables : Nat → MountTable) (x : BackendId × Path × Path) :
    Option (BackendId × Path × Path) :=
  match backends[x.1]? with
  | some (.composite table) =>
    let r := (tables table).resolve x.2.1
    let r' := (tables table).resolve x.2.2
    if (tables table).IsClear x.2.1 ∧ (tables table).IsClear x.2.2 ∧ r.backend = r'.backend then
      some (r.backend, r.relative, r'.relative)
    else none
  | _ => none

theorem sentBoth_some (h : sentBoth backends tables x = some y) : ∃ table,
    backends[x.1]? = some (.composite table) ∧ (tables table).IsClear x.2.1 ∧
    (tables table).IsClear x.2.2 ∧
      y.1 = ((tables table).resolve x.2.1).backend ∧ y.1 = ((tables table).resolve x.2.2).backend ∧
      y.2.1 = ((tables table).resolve x.2.1).relative ∧
      y.2.2 = ((tables table).resolve x.2.2).relative := by
  rw [sentBoth] at h
  split at h
  next table hb =>
    by_cases both : (tables table).IsClear x.2.1 ∧ (tables table).IsClear x.2.2 ∧
        ((tables table).resolve x.2.1).backend = ((tables table).resolve x.2.2).backend
    · rw [if_pos both] at h
      cases h
      exact ⟨table, hb, both.1, both.2.1, rfl, both.2.2, rfl, rfl⟩
    · rw [if_neg both] at h
      cases h
  next => cases h

theorem sentBoth_none {table : Nat} (h : sentBoth backends tables x = none)
    (hb : backends[x.1]? = some (.composite table)) (clear : (tables table).IsClear x.2.1)
    (clear' : (tables table).IsClear x.2.2) :
    ((tables table).resolve x.2.1).backend ≠ ((tables table).resolve x.2.2).backend := by
  intro same
  rw [sentBoth, hb] at h
  dsimp only at h
  rw [if_pos ⟨clear, clear', same⟩] at h
  cases h

/-- A move follows the way of its source, and loses the same first steps of both paths: a backend is
mounted at one path of a table. -/
theorem walked_of_both (valid : ∀ (b : Nat) table, backends[b]? = some (.composite table) →
      (tables table).Valid)
    (h : follow (sentBoth backends tables) n x = some y) :
    walked backends tables n (x.1, x.2.1) = some (y.1, y.2.1) ∧
      ∃ u : Path, x.2.1 = u ++ y.2.1 ∧ x.2.2 = u ++ y.2.2 := by
  induction n generalizing x with
  | zero =>
    cases h
    exact ⟨rfl, .root, rfl, rfl⟩
  | succ n ih =>
    obtain ⟨z, hz, rest⟩ := Option.bind_eq_some_iff.1 h
    obtain ⟨way, u, hu, hu'⟩ := ih rest
    obtain ⟨table, hb, -, -, here, here', left, left'⟩ := sentBoth_some hz
    refine ⟨?_, ?_⟩
    · rw [walked, onward_composite hb, Option.bind_some, ← here, ← left]
      exact way
    · obtain ⟨m, hm⟩ := (valid x.1 table hb).resolve_eq z.1
      have first := hm x.2.1 here.symm
      have second := hm x.2.2 here'.symm
      rw [← left, hu, ← Path.append_assoc] at first
      rw [← left', hu', ← Path.append_assoc] at second
      exact ⟨m ++ u, first, second⟩

/-- A move that is sent on often enough comes to a stop twice. -/
theorem both_repeats (valid : ∀ (b : Nat) table, backends[b]? = some (.composite table) →
      (tables table).Valid)
    (h : follow (sentBoth backends tables) n (b, p, q) = some y)
    (within : ∀ m ≤ n, ∀ z, follow (sentBoth backends tables) m (b, p, q) = some z →
      z.1 < backends.length)
    (long : backends.length * (p.segments.length + 1) ≤ n) : ∃ i j, i < j ∧ j ≤ n ∧
      follow (sentBoth backends tables) i (b, p, q) =
      follow (sentBoth backends tables) j (b, p, q) := by
  have stops : ∀ k ≤ n, ∃ z, follow (sentBoth backends tables) k (b, p, q) = some z ∧
      walked backends tables k (b, p) = some (z.1, z.2.1) ∧
      ∃ u : Path, p = u ++ z.2.1 ∧ q = u ++ z.2.2 := by
    intro k hk
    obtain ⟨z, hz⟩ := follow_before h hk
    exact ⟨z, hz, walked_of_both valid hz⟩
  have inside : ∀ m ≤ n, ∀ next, walked backends tables m (b, p) = some next →
      next.1 < backends.length := by
    intro m hm next hnext
    obtain ⟨z, hz, way, -⟩ := stops m hm
    cases hnext.symm.trans way
    exact within m hm z hz
  obtain ⟨i, j, lt, le, same⟩ := walked_repeats (walked_of_both valid h).1 inside long
  obtain ⟨z, hz, way, u, hu, hu'⟩ := stops i (by omega)
  obtain ⟨w, hw, way', u', hw', hw''⟩ := stops j le
  obtain ⟨backend, left⟩ := Prod.mk.inj (Option.some.inj (way.symm.trans (same.trans way')))
  -- What the sources have lost is the same, so what the targets have left is.
  rw [hu, left, Path.append_right_cancel] at hw'
  rw [hu', hw', Path.append_cancel] at hw''
  exact ⟨i, j, lt, le, by rw [hz, hw, Prod.ext backend (Prod.ext left hw'')]⟩

end

/-! ## Copies -/

/-- One hop more makes no difference to the calls at a path. -/
def Settled (backends : List Backend) (tables : Nat → MountTable) (n : Nat) (b : BackendId)
    (p : Path) : Prop :=
  ∀ ⦃R : Type⦄ ⦃v : Volumes⦄ ⦃call : FileSystem → Path → R⦄ ⦃refuses : MountTable → Path →
    Bool⦄ ⦃lost : R⦄,
    v.tables = tables → SendsOn v call refuses lost →
      call (fileSystem backends (n + 1) b) p = call (fileSystem backends n b) p

/-- Where a composite sends the calls on, a hop less is enough. -/
theorem Settled.child {backends : List Backend} {tables : Nat → MountTable} {n table : Nat}
    {b : BackendId} {p : Path} (settled : Settled backends tables (n + 1) b p)
    (hb : backends[b]? = some (.composite table)) (clear : (tables table).IsClear p) :
    Settled backends tables n ((tables table).resolve p).backend
      ((tables table).resolve p).relative := by
  rintro R v call refuses lost rfl sends
  have same := settled rfl sends
  rwa [fileSystem_composite hb, fileSystem_composite hb, sends.clear table p clear,
    sends.clear table p clear] at same

/-- A file that is given a new content is stored by its owner. -/
theorem OpenFile.refill_congr {owners owners' : BackendId → FileSystem} {f : OpenFile}
    (same : owners f.owner = owners' f.owner) (data : Bytes) :
    f.refill owners data = f.refill owners' data := by
  rw [refill, refill]
  refine congrArg _ (funext fun now => ?_)
  cases written : f.write 0 data now with
  | error e => rfl
  | ok g =>
    show discard (g.close (owners g.owner)) = discard (g.close (owners' g.owner))
    rw [write_owner written, same]

section

variable {s : System} (inOrder : s.InOrder) {n : Nat}
include inOrder

/-- A file that was opened belongs to a backend that is the same with every bound. -/
theorem owner_fixed {v v' : Volumes} {b : BackendId} {p : Path} {flags : OpenFlags} {mode : UInt32}
    {f : OpenFile} (ordered : v.InOrder s.backends)
    (opened : ((fileSystem s.backends n b).openFile p flags mode).runOn v = (.ok f, v'))
    (m k : Nat) : fileSystem s.backends m f.owner = fileSystem s.backends k f.owner := by
  cases h : locate s.backends v.tables n b p with
  | none => cases (openFile_lost inOrder.plain h flags mode).symm.trans opened
  | some pl =>
    have arr := locate_arrived h
    rw [openFile_located h] at opened
    rw [(pl.serves arr).owner_of_openFile (pl.sound arr ordered) opened, fileSystem_arrived arr,
      fileSystem_arrived arr]

/-- A file is copied in the same way with one hop more. -/
theorem agree_renameAcross {source target : Route}
    (here : Settled s.backends s.volumes.tables n source.backend source.relative)
    (there : Settled s.backends s.volumes.tables n target.backend target.relative) :
    Action.Agree (fun v => v.InOrder s.backends ∧ v.tables = s.volumes.tables)
      (Composite.renameAcross (fileSystem s.backends (n + 1)) source target)
      (Composite.renameAcross (fileSystem s.backends n) source target) := by
  have keeps : ∀ hops b, (fileSystem s.backends hops b).Keeps fun v =>
      v.InOrder s.backends ∧ v.tables = s.volumes.tables :=
    fileSystem_keeps (fun _ h => h.1) fun _ _ _ h only =>
      ⟨h.1.changesOnly only, only.tables.trans h.2⟩
  have ticks : ∀ v : Volumes, v.InOrder s.backends ∧ v.tables = s.volumes.tables →
      v.ticked.InOrder s.backends ∧ v.ticked.tables = s.volumes.tables :=
    fun v h => ⟨h.1.ticked, h.2⟩
  rw [Composite.renameAcross_eq, Composite.renameAcross_eq]
  rw [inOrder.isReadOnly, inOrder.isReadOnly, inOrder.isReadOnly, inOrder.isReadOnly]
  dsimp only
  split
  · exact agree_throw_bind _ _ _
  refine agree_get_bind fun v h => ?_
  rw [here h.2 (sendsOn_stat v)]
  refine (Agree.refl _).bind (keeps_ofExcept _).yields fun attr _ => ?_
  split
  · exact agree_throw_bind _ _ _
  refine agree_get_bind fun v h => ?_
  rw [here h.2 (sendsOn_readAll v)]
  refine (Agree.refl _).bind (keeps_ofExcept _).yields fun data _ => ?_
  -- The copy belongs to a backend that is no composite.
  have opens : Action.Yields (fun v => v.InOrder s.backends ∧ v.tables = s.volumes.tables)
      (fun f => fileSystem s.backends (n + 1) f.owner = fileSystem s.backends n f.owner)
      ((fileSystem s.backends (n + 1) target.backend).openFile target.relative .replacing
        attr.perm) :=
    fun v h => ⟨(keeps _ _).openFile _ _ _ v h, fun f opened =>
      owner_fixed inOrder h.1 (Prod.ext opened rfl) _ _⟩
  refine Agree.bind (fun v h => there h.2 (sendsOn_openFile v _ _)) opens fun f fixed => ?_
  rw [OpenFile.refill_congr fixed]
  have filled := OpenFile.keeps_refill (f := f)
    (fun data attr => (keeps n f.owner).change (.sync _ data attr)) ticks data
  refine (Agree.refl _).bind filled.yields fun _ _ => ?_
  refine Agree.tryCatch (fun v h => here h.2 (sendsOn_unlink v))
    ((keeps _ _).change (.unlink _)) fun e => ?_
  refine Agree.bind ?_ (Composite.keeps_removeCopy (fun b => (keeps _ b).keepsAt b) trivial).yields
    fun _ _ => .refl _
  exact Agree.tryCatch (fun v h => there h.2 (sendsOn_unlink v)) ((keeps _ _).change (.unlink _))
    fun _ => .refl _

/-! ## Moves -/

/-- A move is sent on, or ends where one of the paths does or where they part. -/
theorem System.InOrder.sentOn_rename :
    SentOn (sentBoth s.backends s.volumes.tables)
      (fun n x => ((fileSystem s.backends n x.1).rename x.2.1 x.2.2).runOn s.volumes)
        (.error .endless, s.volumes) (fun x => x.1 < s.backends.length)
      (fun n x => Settled s.backends s.volumes.tables n x.1 x.2.1 ∧
        Settled s.backends s.volumes.tables n x.1 x.2.2) where
  sent := by
    rintro ⟨b, p, q⟩ ⟨b', p', q'⟩ h
    obtain ⟨table, hb, clear, clear', rfl, one, rfl, rfl⟩ := sentBoth_some h
    refine ⟨?_, id, rfl, fun n => ?_⟩
    · rw [fileSystem_lost hb]
      rfl
    · rw [fileSystem_composite hb]
      show (Composite.rename _ _ p q).runOn _ = _
      rw [Composite.rename_clear clear clear', if_pos one]
      rfl
  done := by
    rintro ⟨b, p, q⟩ n h ⟨good, good'⟩
    by_cases leaf : ∀ table, s.backends[b]? ≠ some (.composite table)
    · rw [fileSystem_fixed leaf inOrder.plain (n + 2) (n + 1)]
    obtain ⟨table, hb⟩ := not_forall_not.1 leaf
    rw [fileSystem_composite hb, fileSystem_composite hb]
    show (Composite.rename _ _ p q).runOn _ = (Composite.rename _ _ p q).runOn _
    by_cases clear : (s.volumes.tables table).IsClear p ∧ (s.volumes.tables table).IsClear q
    · -- The paths part here.
      rw [Composite.rename_clear clear.1 clear.2, Composite.rename_clear clear.1 clear.2,
        if_neg (sentBoth_none h hb clear.1 clear.2), if_neg (sentBoth_none h hb clear.1 clear.2)]
      exact agree_renameAcross inOrder (good.child hb clear.1) (good'.child hb clear.2) _
        ⟨inOrder.volumes, rfl⟩
    · obtain ⟨e, refused⟩ := Composite.rename_busy clear
      rw [refused, refused]
  outside := by
    rintro ⟨b, p, q⟩ n out
    have none' : s.backends[b]? = none := List.getElem?_eq_none (Nat.le_of_not_lt out)
    rw [fileSystem_fixed (fun table hb => (by cases none'.symm.trans hb)) inOrder.plain (n + 1) n]
  onward := by
    rintro ⟨b, p, q⟩ ⟨b', p', q'⟩ n h ⟨good, good'⟩
    obtain ⟨table, hb, clear, clear', rfl, one, rfl, rfl⟩ := sentBoth_some h
    have second := good'.child hb clear'
    rw [← one] at second
    exact ⟨good.child hb clear, second⟩

/-- A move comes to the same with all bounds that are enough for both paths. -/
theorem rename_settled {m : Nat} {b : BackendId} {p q : Path}
    (enough : s.backends.length * (p.segments.length + 1) ≤ n ∧
      s.backends.length * (q.segments.length + 1) ≤ n)
    (enough' : s.backends.length * (p.segments.length + 1) ≤ m ∧
      s.backends.length * (q.segments.length + 1) ≤ m) :
    ((fileSystem s.backends n b).rename p q).runOn s.volumes =
      ((fileSystem s.backends m b).rename p q).runOn s.volumes := by
  let least := max (s.backends.length * (p.segments.length + 1))
    (s.backends.length * (q.segments.length + 1))
  suffices all : ∀ m, least ≤ m → ((fileSystem s.backends m b).rename p q).runOn s.volumes =
      ((fileSystem s.backends least b).rename p q).runOn s.volumes from
    (all n (Nat.max_le.2 enough)).trans (all m (Nat.max_le.2 enough')).symm
  intro m le
  induction m, le using Nat.le_induction with
  | base => rfl
  | succ m le ih =>
    rw [← ih]
    obtain ⟨enough, enough'⟩ := Nat.max_le.1 le
    have settled : ∀ p : Path, s.backends.length * (p.segments.length + 1) ≤ m →
        Settled s.backends s.volumes.tables m b p :=
      fun p enough R v call refuses lost tables sends =>
        sends.settled inOrder.plain (Nat.le_succ_of_le enough) enough
    exact inOrder.sentOn_rename.settled (x := (b, p, q)) ⟨settled p enough, settled q enough'⟩
        fun y hy inside =>
      both_repeats inOrder.volumes.valid hy inside enough

end

end MountSpace
