import MountSpace.Proofs.Located

/-!
# Bounds that are enough

A call may be sent on only so often. It has the same answer with every bound that is enough for all
stops on its way: a call that has not been answered after so many hops has come to a stop twice, and
then it goes round without end, whatever the bound.

- `SentOn`: answers that are made of the answer at the next stop on the way.
- `SentOn.settled`: a bound that is enough may be raised by one.
- `SendsOn`, `SendsOn.settled`: calls at one path, which a composite refuses or sends on, come to
  the same with all bounds that are enough.
- `sendsOn_stat`, ..., `sendsOn_sync`: all calls at one path are such calls.
-/

namespace MountSpace

/-! ## Answers that are passed back -/

section

variable {X R : Type} {next : X → Option X} {n m : Nat} {x y z : X}

/-- With a bound on the hops, the answer at a stop is made of the answer at the next one, or is lost
where no hops are left. Where there is no next stop, one hop is enough as long as the bound is good
for what happens there. -/
structure SentOn (next : X → Option X) (answer : Nat → X → R) (lost : R) (inside : X → Prop)
    (good : Nat → X → Prop) : Prop where
  sent : ∀ x y, next x = some y → answer 0 x = lost ∧
    ∃ back : R → R, back lost = lost ∧ ∀ n, answer (n + 1) x = back (answer n y)
  done : ∀ x n, next x = none → good (n + 1) x → answer (n + 2) x = answer (n + 1) x
  outside : ∀ x n, ¬inside x → answer (n + 1) x = answer n x
  onward : ∀ x y n, next x = some y → good (n + 1) x → good n y

variable {answer : Nat → X → R} {lost : R} {inside : X → Prop} {good : Nat → X → Prop}

/-- If one hop more changes the answer, it changes it at every stop on the way, and there are stops
as long as there are hops. -/
theorem SentOn.changes_along (h : SentOn next answer lost inside good) (fine : good n x)
    (changes : answer (n + 1) x ≠ answer n x) :
    ∀ i ≤ n, ∃ y, follow next i x = some y ∧ good (n - i) y ∧
      answer (n - i + 1) y ≠ answer (n - i) y := by
  intro i
  induction i with
  | zero => exact fun _ => ⟨x, rfl, fine, changes⟩
  | succ i ih =>
    intro le
    obtain ⟨y, hy, good', changes'⟩ := ih (by omega)
    obtain ⟨k, hk⟩ : ∃ k, n - i = k + 1 := ⟨n - i - 1, by omega⟩
    rw [show n - (i + 1) = k by omega]
    rw [hk] at good' changes'
    cases hnext : next y with
    | none => exact absurd (h.done y k hnext good') changes'
    | some z =>
      refine ⟨z, (follow_succ hy).trans hnext, h.onward y z k hnext good', fun same => changes' ?_⟩
      obtain ⟨-, back, -, answers⟩ := h.sent y z hnext
      rw [answers, answers, same]

/-- A way that comes to a stop twice goes on from its last stop, and once more. -/
theorem follow_on {i j : Nat} (hlast : follow next n x = some y) (lt : i < j) (le : j ≤ n)
    (same : follow next i x = follow next j x) : ∃ z w, next y = some z ∧ next z = some w := by
  -- The last stop is also one before it, so every stop has a next one.
  have again : follow next (i + (n - j)) x = some y := by
    rw [follow_add, same, ← follow_add, show j + (n - j) = n by omega, hlast]
  have further : ∀ m ≤ n, ∀ y', follow next m x = some y' → ∃ z, next y' = some z := by
    intro m le' y' hy'
    rcases Nat.lt_or_eq_of_le le' with lt' | rfl
    · obtain ⟨z, hz⟩ := follow_before hlast (m := m + 1) lt'
      exact ⟨z, (follow_succ hy').symm.trans hz⟩
    · cases hlast.symm.trans hy'
      obtain ⟨z, hz⟩ := follow_before hlast (m := i + (m - j) + 1) (by omega)
      exact ⟨z, (follow_succ again).symm.trans hz⟩
  obtain ⟨z, hz⟩ := further n (Nat.le_refl n) y hlast
  obtain ⟨w, hw⟩ := further _ (by omega) z ((follow_succ again).trans hz)
  exact ⟨z, w, hz, hw⟩

/-- A bound that is enough may be raised by one. If that changed the answer, it would change it at
every stop on the way. One of these stops comes twice, so that a call goes on from the last one;
there it is lost with one hop as well as with none. -/
theorem SentOn.settled (h : SentOn next answer lost inside good) (fine : good n x)
    (repeats : ∀ y, follow next n x = some y → (∀ m ≤ n, ∀ z, follow next m x = some z → inside z) →
      ∃ i j, i < j ∧ j ≤ n ∧ follow next i x = follow next j x) :
      answer (n + 1) x = answer n x := by
  refine Classical.byContradiction fun changes => ?_
  have all := h.changes_along fine changes
  obtain ⟨last, hlast, -, changes'⟩ := all n (Nat.le_refl n)
  rw [Nat.sub_self] at changes'
  obtain ⟨i, j, lt, le, same⟩ := repeats last hlast fun m le z hz => by
    obtain ⟨y, hy, -, changes⟩ := all m le
    cases hz.symm.trans hy
    exact Classical.byContradiction fun out => changes (h.outside z _ out)
  obtain ⟨z, w, hz, hw⟩ := follow_on hlast lt le same
  obtain ⟨lost', back, kept, answers⟩ := h.sent last z hz
  exact changes' (by rw [answers, (h.sent z w hw).1, kept, lost'])

end

/-! ## Calls at one path -/

/-- What a composite does with a call at one path: it refuses it, whatever its backends are, or
sends it on and makes its answer of the one that comes back. Where no mount lies at or below the
path, it passes that one back as it is. -/
structure SendsOn {R : Type} (v : Volumes) (call : FileSystem → Path → R)
    (refuses : MountTable → Path → Bool) (lost : R) : Prop where
  endless : ∀ p, call (.failing .endless) p = lost
  refused : ∀ table child child' p, refuses (v.tables table) p = true →
    call (.composite table child) p = call (.composite table child') p
  sent : ∀ table p, refuses (v.tables table) p = false → ∃ back : R → R, back lost = lost ∧
    ∀ child, call (.composite table child) p =
      back (call (child ((v.tables table).resolve p).backend) ((v.tables table).resolve p).relative)
  clear : ∀ table p, (v.tables table).IsClear p → ∀ child, call (.composite table child) p =
    call (child ((v.tables table).resolve p).backend) ((v.tables table).resolve p).relative

/-- A composite makes the same of the same answer at the next stop, whatever its backends are. -/
theorem SendsOn.congr {R : Type} {v : Volumes} {call : FileSystem → Path → R}
    {refuses : MountTable → Path → Bool} {lost : R} (h : SendsOn v call refuses lost) {table : Nat}
    {p : Path} {child child' : BackendId → FileSystem}
    (same :
      call (child ((v.tables table).resolve p).backend) ((v.tables table).resolve p).relative =
      call (child' ((v.tables table).resolve p).backend) ((v.tables table).resolve p).relative) :
    call (.composite table child) p = call (.composite table child') p := by
  by_cases refused : refuses (v.tables table) p = true
  · exact h.refused table child child' p refused
  · obtain ⟨back, -, answers⟩ := h.sent table p (Bool.eq_false_iff.2 refused)
    rw [answers, answers, same]

/-- A backend that is no composite has the same operations with every bound. -/
theorem fileSystem_fixed {backends : List Backend} {b : BackendId}
    (leaf : ∀ table, backends[b]? ≠ some (.composite table))
    (plain : ∀ (b : Nat) x, backends[b]? = some x → ∃ n, Backend.Within n x) (n m : Nat) :
    fileSystem backends n b = fileSystem backends m b := by
  cases hb : backends[b]? with
  | none =>
    have fails : ∀ n, fileSystem backends n b = .failing .endless :=
      fun n => by cases n <;> rw [fileSystem, hb]
    rw [fails, fails]
  | some x =>
    cases x with
    | memory i => rw [fileSystem_memory hb, fileSystem_memory hb]
    | keyValue j readOnly => rw [fileSystem_keyValue hb, fileSystem_keyValue hb]
    | faulty inner faults capabilities =>
      obtain ⟨_, no⟩ := plain b _ hb
      exact no.elim
    | composite table => exact absurd hb (leaf table)

theorem fileSystem_lost {backends : List Backend} {b : BackendId} {table : Nat}
    (there : backends[b]? = some (.composite table)) :
    fileSystem backends 0 b = .failing .endless := by
  rw [fileSystem, there]

section

variable {R : Type} {v : Volumes} {call : FileSystem → Path → R}
  {refuses : MountTable → Path → Bool} {lost : R}
variable {backends : List Backend} {b : BackendId} {p : Path} {n m : Nat}

/-- Where a composite sends a call to that it does not refuse. -/
def sentTo (backends : List Backend) (tables : Nat → MountTable)
    (refuses : MountTable → Path → Bool) (at' : BackendId × Path) : Option (BackendId × Path) :=
  match backends[at'.1]? with
  | some (.composite table) =>
    if refuses (tables table) at'.2 then none else onward backends tables at'
  | _ => none

theorem onward_composite {tables : Nat → MountTable} {table : Nat}
    (there : backends[b]? = some (.composite table)) (p : Path) : onward backends tables (b, p) =
      some (((tables table).resolve p).backend, ((tables table).resolve p).relative) := by
  rw [onward, there]

theorem sentTo_cases (backends : List Backend) (tables : Nat → MountTable)
    (refuses : MountTable → Path → Bool) (b : BackendId) (p : Path) :
    (∃ table, backends[b]? = some (.composite table) ∧ refuses (tables table) p = false ∧
      sentTo backends tables refuses (b, p) =
        some (((tables table).resolve p).backend, ((tables table).resolve p).relative)) ∨
    sentTo backends tables refuses (b, p) = none ∧
      ((∀ table, backends[b]? ≠ some (.composite table)) ∨
        ∃ table, backends[b]? = some (.composite table) ∧ refuses (tables table) p = true) := by
  rw [sentTo]
  split
  next table hb =>
    by_cases refused : refuses (tables table) p = true
    · rw [if_pos refused]
      exact .inr ⟨rfl, .inr ⟨table, hb, refused⟩⟩
    · rw [if_neg refused, onward_composite hb]
      exact .inl ⟨table, hb, Bool.eq_false_iff.2 refused, rfl⟩
  next leaf => exact .inr ⟨rfl, .inl leaf⟩

/-- A call follows the way of its path as long as it is not refused. -/
theorem walked_of_follow {tables : Nat → MountTable} {x y : BackendId × Path}
    (h : follow (sentTo backends tables refuses) n x = some y) :
    walked backends tables n x = some y := by
  induction n generalizing x with
  | zero => exact h
  | succ n ih =>
    obtain ⟨z, hz, rest⟩ := Option.bind_eq_some_iff.1 h
    rw [walked]
    rcases sentTo_cases backends tables refuses x.1 x.2 with ⟨table, hb, -, e⟩ | ⟨e, -⟩
    · rw [onward_composite hb, Option.bind_some]
      cases e.symm.trans hz
      exact ih rest
    · cases e.symm.trans hz

variable (plain : ∀ (b : Nat) x, backends[b]? = some x → ∃ n, Backend.Within n x)
include plain

theorem SendsOn.sentOn (h : SendsOn v call refuses lost) :
    SentOn (sentTo backends v.tables refuses) (fun n x => call (fileSystem backends n x.1) x.2) lost
      (fun x => x.1 < backends.length) (fun _ _ => True) where
  sent := by
    rintro ⟨b, p⟩ y e
    obtain ⟨table, hb, free, e'⟩ | ⟨e', -⟩ := sentTo_cases backends v.tables refuses b p
    · cases e'.symm.trans e
      obtain ⟨back, kept, answers⟩ := h.sent table p free
      refine ⟨?_, back, kept, fun n => ?_⟩
      · rw [fileSystem_lost hb, h.endless]
      · rw [fileSystem_composite hb, answers]
    · cases e'.symm.trans e
  done := by
    rintro ⟨b, p⟩ n e -
    obtain ⟨table, -, -, e'⟩ | ⟨-, leaf | ⟨table, hb, refused⟩⟩ :=
      sentTo_cases backends v.tables refuses b p
    · cases e'.symm.trans e
    · rw [fileSystem_fixed leaf plain (n + 2) (n + 1)]
    · rw [fileSystem_composite hb, fileSystem_composite hb]
      exact h.refused table _ _ p refused
  outside := by
    rintro ⟨b, p⟩ n out
    have none' : backends[b]? = none := List.getElem?_eq_none (Nat.le_of_not_lt out)
    rw [fileSystem_fixed (fun table hb => (by cases none'.symm.trans hb)) plain (n + 1) n]
  onward := fun _ _ _ _ _ => trivial

/-- A call comes to the same with all bounds that are enough for its path. -/
theorem SendsOn.settled (h : SendsOn v call refuses lost)
    (enough : backends.length * (p.segments.length + 1) ≤ n)
    (enough' : backends.length * (p.segments.length + 1) ≤ m) :
    call (fileSystem backends n b) p = call (fileSystem backends m b) p := by
  suffices least : ∀ m, backends.length * (p.segments.length + 1) ≤ m →
    call (fileSystem backends m b) p =
      call (fileSystem backends (backends.length * (p.segments.length + 1)) b) p from
    (least n enough).trans (least m enough').symm
  intro m le
  induction m, le using Nat.le_induction with
  | base => rfl
  | succ m le ih =>
    rw [← ih]
    refine (h.sentOn plain).settled (x := (b, p)) trivial fun y hy inside => ?_
    have stops : ∀ k ≤ m, ∃ z, follow (sentTo backends v.tables refuses) k (b, p) = some z ∧
        walked backends v.tables k (b, p) = some z := fun k hk => by
      obtain ⟨z, hz⟩ := follow_before hy hk
      exact ⟨z, hz, walked_of_follow hz⟩
    have within : ∀ k ≤ m, ∀ z, walked backends v.tables k (b, p) = some z →
        z.1 < backends.length := by
      intro k hk z hz
      obtain ⟨w, hw, hw'⟩ := stops k hk
      cases hz.symm.trans hw'
      exact inside k hk z hw
    obtain ⟨i, j, lt, le', same⟩ := walked_repeats (walked_of_follow hy) within le
    obtain ⟨z, hz, hz'⟩ := stops i (by omega)
    obtain ⟨w, hw, hw'⟩ := stops j le'
    exact ⟨i, j, lt, le', by rw [hz, hw, ← hz', ← hw', same]⟩

end

/-! ## All calls at one path -/

section

variable {R : Type} {v : Volumes} {call : FileSystem → Path → R}

/-- A composite that only looks at its table before it sends a call on. -/
theorem SendsOn.of_guard (guard : MountTable → Path → Except FsError Route) (refusal : FsError → R)
    {lost : R} (endless : ∀ p, call (.failing .endless) p = lost)
    (composite : ∀ table child p, call (.composite table child) p =
      match guard (v.tables table) p with
      | .ok r => call (child r.backend) r.relative
      | .error e => refusal e)
    (routed : ∀ t p r, guard t p = .ok r → r = t.resolve p)
    (free : ∀ t p, t.IsClear p → guard t p = .ok (t.resolve p)) :
    SendsOn v call (fun t p => !(guard t p).isOk) lost where
  endless := endless
  refused := by
    intro table child child' p refused
    rw [composite, composite]
    cases hg : guard (v.tables table) p with
    | error e => rfl
    | ok r =>
      rw [hg] at refused
      cases refused
  sent := by
    intro table p sent
    refine ⟨id, rfl, fun child => ?_⟩
    rw [composite]
    cases hg : guard (v.tables table) p with
    | error e =>
      rw [hg] at sent
      cases sent
    | ok r =>
      cases routed _ _ _ hg
      rfl
  clear := by
    intro table p clear child
    rw [composite, free _ _ clear]

theorem sendsOn_stat (v : Volumes) :
    SendsOn v (fun fs p => fs.stat v p) (fun _ _ => false) (.error .endless) where
  endless := fun _ => rfl
  refused := fun _ _ _ _ refused => by cases refused
  sent := by
    intro table p _
    refine ⟨fun answer => answer.tryCatch fun e =>
      if (v.tables table).isMountPoint p && e.isNotFound
        then .ok (.directory Composite.mountRootPerm v.ambient.now)
      else .error e, ?_, fun child => ?_⟩
    · have known : ((v.tables table).isMountPoint p && FsError.endless.isNotFound) = false :=
        Bool.and_false _
      exact if_neg (Bool.eq_false_iff.1 known)
    · show Composite.stat child (v.tables table) v p = _
      rw [Composite.stat]
      cases (child ((v.tables table).resolve p).backend).stat v
        ((v.tables table).resolve p).relative <;> rfl
  clear := by
    intro table p clear child
    show Composite.stat child (v.tables table) v p = _
    rw [Composite.stat, clear.1]
    cases (child ((v.tables table).resolve p).backend).stat v
      ((v.tables table).resolve p).relative <;> rfl

theorem sendsOn_readdir (v : Volumes) :
    SendsOn v (fun fs p => fs.readdir v p) (fun _ _ => false) (.error .endless) where
  endless := fun _ => rfl
  refused := fun _ _ _ _ refused => by cases refused
  sent := by
    intro table p _
    let names := ((v.tables table).childMounts p).map (·.text)
    refine ⟨fun answer =>
      (answer.map fun entries => Composite.mergeListing entries names).tryCatch fun e =>
        if e.isNotFound && (v.tables table).hasMountBeneath p
          then .ok (Composite.mergeListing [] names)
        else .error e, ?_, fun child => ?_⟩
    · have known : (FsError.endless.isNotFound && (v.tables table).hasMountBeneath p) = false :=
        Bool.false_and _
      exact if_neg (t := .ok (Composite.mergeListing [] names)) (Bool.eq_false_iff.1 known)
    · show Composite.readdir child (v.tables table) v p = _
      rw [Composite.readdir]
      cases (child ((v.tables table).resolve p).backend).readdir v
        ((v.tables table).resolve p).relative <;> rfl
  clear := by
    intro table p clear child
    -- A mount inside the directory would lie beneath it.
    have none' : (v.tables table).childMounts p = [] := by
      refine List.eq_nil_iff_forall_not_mem.2 fun s mem => ?_
      exact MountTable.isClear_iff.1 clear _ (MountTable.mem_childMounts.1 mem)
        (Path.isPrefixOf_child.2 (.inr (Path.isPrefixOf_self p)))
    show Composite.readdir child (v.tables table) v p = _
    rw [Composite.readdir, clear.2, none']
    cases (child ((v.tables table).resolve p).backend).readdir v
        ((v.tables table).resolve p).relative with
    | ok entries => rfl
    | error e =>
      dsimp only
      rw [Bool.and_false, if_neg Bool.false_ne_true]

theorem sendsOn_readAll (v : Volumes) :
    SendsOn v (fun fs p => fs.readAll v p) (fun _ _ => false) (.error .endless) :=
  .of_guard (fun t p => .ok (t.resolve p)) (fun e => .error e) (fun _ => rfl) (fun _ _ _ => rfl)
    (fun _ _ _ same => (Except.ok.inj same).symm) fun _ _ _ => rfl

/-- A composite that looks at its table before it sends a change on, or the opening of a file. -/
theorem SendsOn.of_action {α : Type} {act : FileSystem → Path → Action Volumes α}
    (guard : MountTable → Path → Except FsError Route)
    (endless : ∀ p, act (.failing .endless) p = throw .endless)
    (composite : ∀ table child p, act (.composite table child) p =
      get >>= fun v => Action.ofExcept (guard (v.tables table) p) >>= fun r =>
      act (child r.backend) r.relative)
    (routed : ∀ t p r, guard t p = .ok r → r = t.resolve p)
    (free : ∀ t p, t.IsClear p → guard t p = .ok (t.resolve p)) :
    SendsOn v (fun fs p => (act fs p).runOn v) (fun t p => !(guard t p).isOk)
      (.error .endless, v) := by
  refine .of_guard guard (fun e => (.error e, v)) (fun p => ?_)
    (fun table child p => ?_) routed free
  · rw [endless]
    rfl
  · rw [composite, Action.runOn_get_bind, Action.runOn_ofExcept_bind]
    cases guard (v.tables table) p <;> rfl

theorem sendsOn_mkdir (v : Volumes) (mode : UInt32) :
    SendsOn v (fun fs p => (fs.mkdir p mode).runOn v)
    (fun t p => !(Composite.guardMountPoint t p).isOk) (.error .endless, v) :=
  .of_action Composite.guardMountPoint (fun _ => rfl) (fun _ _ _ => rfl)
    (fun _ _ _ ok => Composite.guardMountPoint_ok ok)
    fun _ _ clear => Composite.guardMountPoint_free clear.1

theorem sendsOn_unlink (v : Volumes) : SendsOn v (fun fs p => (fs.unlink p).runOn v)
    (fun t p => !(Composite.guardMountPoint t p).isOk) (.error .endless, v) :=
  .of_action Composite.guardMountPoint (fun _ => rfl) (fun _ _ _ => rfl)
    (fun _ _ _ ok => Composite.guardMountPoint_ok ok)
    fun _ _ clear => Composite.guardMountPoint_free clear.1

theorem sendsOn_rmdir (v : Volumes) : SendsOn v (fun fs p => (fs.rmdir p).runOn v)
    (fun t p => !(Composite.guardSubtree t p).isOk) (.error .endless, v) :=
  .of_action Composite.guardSubtree (fun _ => rfl) (fun _ _ _ => rfl)
    (fun _ _ _ ok => (Composite.guardSubtree_ok ok).1)
    fun _ _ clear => Composite.guardSubtree_clear clear

theorem sendsOn_openFile (v : Volumes) (flags : OpenFlags) (mode : UInt32) :
    SendsOn v (fun fs p => (fs.openFile p flags mode).runOn v) (fun _ _ => false)
      (.error .endless, v) :=
  .of_action (fun t p => .ok (t.resolve p)) (fun _ => rfl) (fun _ _ _ => rfl)
    (fun _ _ _ same => (Except.ok.inj same).symm) fun _ _ _ => rfl

theorem sendsOn_sync (v : Volumes) (data : Bytes) (attr : FileAttr) :
    SendsOn v (fun fs p => (fs.sync p data attr).runOn v) (fun _ _ => false) (.error .endless, v) :=
  .of_action (fun t p => .ok (t.resolve p)) (fun _ => rfl) (fun _ _ _ => rfl)
    (fun _ _ _ same => (Except.ok.inj same).symm) fun _ _ _ => rfl

end

end MountSpace
