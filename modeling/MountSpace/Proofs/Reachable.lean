import MountSpace.Proofs.Keeps
import MountSpace.Proofs.Routes

/-!
# What systems come to

A system starts without backends. Backends are added and called, mounts come and go. Whatever
is done, and however often it fails, every tree and every store stays in order and no table
mounts a backend twice.

- `Volumes.InOrder`, `System.InOrder`: the invariant.
- `System.Step`: everything that can be done, with any paths, any flags and any open file.
- `System.Reachable`: the systems that this leads to.
- `fileSystem_keeps`: all backends of a system keep the invariant.
- `InOrder.step`, `Reachable.inOrder`: one step, and any number of them.
- `System.Reached`: systems made step by step, with their backends, for concrete runs.
-/

namespace MountSpace

/-! ## Systems in order -/

namespace Backend

/-- What a backend keeps a tree in. -/
def volume? : Backend → Option Volume
  | .memory i => some (.tree i)
  | .keyValue j _ => some (.store j)
  | _ => none

/-- A backend has only volumes with numbers below a bound, and does not fail on demand. -/
def Within (n : Nat) : Backend → Prop
  | .memory i => i < n
  | .keyValue j _ => j < n
  | .composite table => table < n
  | .faulty _ _ _ => False

theorem Within.mono {n m : Nat} {x : Backend} (h : x.Within n) (le : n ≤ m) : x.Within m := by
  cases x with
  | memory i => exact Nat.lt_of_lt_of_le h le
  | keyValue j readOnly => exact Nat.lt_of_lt_of_le h le
  | composite table => exact Nat.lt_of_lt_of_le h le
  | faulty inner faults capabilities => exact h.elim

end Backend

/-- The trees and the stores of some backends are in order, and their tables mount nothing twice. -/
structure Volumes.InOrder (v : Volumes) (backends : List Backend) : Prop where
  sound : ∀ (b : Nat) (x : Backend) vol, backends[b]? = some x → x.volume? = some vol →
    v.SoundAt vol
  valid : ∀ (b : Nat) table, backends[b]? = some (Backend.composite table) → (v.tables table).Valid

/-- The volumes of a system are in order, and those that a new backend would get are not in use. -/
structure System.InOrder (s : System) : Prop where
  volumes : s.volumes.InOrder s.backends
  within : ∀ (b : Nat) (x : Backend), s.backends[b]? = some x → x.Within s.next

theorem Volumes.SoundAt.of_eq {v v' : Volumes} {vol : Volume} (sound : v.SoundAt vol)
    (trees : ∀ i, vol = .tree i → v'.trees i = v.trees i)
    (stores : ∀ j, vol = .store j → v'.stores j = v.stores j) : v'.SoundAt vol := by
  cases vol with
  | tree i =>
    show (v'.trees i).Sound
    rwa [trees i rfl]
  | store j =>
    show (v'.stores j).Sound
    rwa [stores j rfl]

namespace Volumes.InOrder

variable {backends : List Backend} {v v' : Volumes}

/-- A change of one volume leaves all in order. -/
theorem changesOnly (h : v.InOrder backends) {vol : Volume} (only : v.ChangesOnly v' vol) :
    v'.InOrder backends where
  sound := fun b x u hb hx => only.soundAt (h.sound b x u hb hx)
  valid := fun b table hb => only.tables ▸ h.valid b table hb

theorem ticked (h : v.InOrder backends) : v.ticked.InOrder backends :=
  h.changesOnly (v.changesOnly_ticked (.tree 0))

/-- A table may be replaced by one that mounts nothing twice. -/
theorem withTable (h : v.InOrder backends) (table : Nat) {t : MountTable} (valid : t.Valid) :
    Volumes.InOrder { v with tables := setAt v.tables table t } backends where
  sound := fun b x vol hb hx => (h.sound b x vol hb hx).of_eq (fun _ _ => rfl) fun _ _ => rfl
  valid := fun b table' hb => by
    by_cases e : table' = table
    · rw [e]
      show (setAt v.tables table t table).Valid
      rwa [setAt_self]
    · show (setAt v.tables table t table').Valid
      rw [setAt_other _ _ e]
      exact h.valid b table' hb

end Volumes.InOrder

/-! ## Calls -/

/-- A property that survives changes of the volumes of all backends is kept by all of them. -/
theorem fileSystem_keeps {backends : List Backend} {P : Volumes → Prop}
    (inOrder : ∀ v, P v → v.InOrder backends)
    (closed : ∀ (v v' : Volumes) vol, P v → v.ChangesOnly v' vol → P v') (hops : Nat)
    (b : BackendId) : (fileSystem backends hops b).Keeps P := by
  have ticks : ∀ v : Volumes, P v → P v.ticked :=
    fun v h => closed v _ (.tree 0) h (v.changesOnly_ticked _)
  refine (fileSystem_keepsAt (fun _ => True) ticks (fun b tree _ hb => ?_)
    (fun b store readOnly _ hb => ?_)
    (fun _ _ _ _ _ _ => trivial) (fun _ _ _ _ _ _ _ => trivial) hops b trivial).keeps
  · exact (memory_serves b tree).keepsAt (fun v h => (inOrder v h).sound b _ _ hb rfl)
      (fun v v' h only _ => closed v v' _ h only) fun _ _ _ => trivial
  · exact (keyValue_serves b store readOnly).keepsAt (fun v h => (inOrder v h).sound b _ _ hb rfl)
      (fun v v' h only _ => closed v v' _ h only) fun _ _ _ => trivial

section

variable {backends : List Backend} {b : BackendId}

theorem keeps_emptyStore {store : Nat} {readOnly : Bool}
    (there : backends[b]? = some (.keyValue store readOnly)) :
    Action.Keeps (fun v => v.InOrder backends) (emptyStore store readOnly) := by
  intro v h
  cases readOnly with
  | true => exact h
  | false =>
    obtain ⟨F, hF⟩ : v.SoundAt (.store store) := h.sound b _ _ there rfl
    obtain ⟨t', hr, extended, F', h', -⟩ := RecordTree.clear_sound (t := v.transaction store) hF
    show ((Volumes.withStore store RecordTree.clear).runOn v).2.InOrder backends
    rw [Volumes.runOn_withStore, hr]
    exact h.changesOnly (v.changesOnly_committed extended ⟨F', h'⟩)

/-- A table changes only by an insertion that was found to be possible. -/
theorem keeps_mount {table : Nat} (there : backends[b]? = some (.composite table))
    {child : BackendId → FileSystem} (keeps : ∀ b, (child b).Keeps fun v => v.InOrder backends)
    (p : Path) (c : BackendId) :
    Action.Keeps (fun v => v.InOrder backends) (Composite.mount child table p c) := by
  refine Composite.keeps_mount (fun b => (keeps b).keepsAt b) (fun _ _ _ _ => trivial) ?_
  intro v w t h hw inserted
  exact hw.withTable table ((h.valid b table there).insert inserted)

theorem keeps_unmount {table : Nat} (there : backends[b]? = some (.composite table)) (p : Path) :
    Action.Keeps (fun v => v.InOrder backends) (Composite.unmount table p) := by
  refine Composite.keeps_unmount fun v c t h removed => ?_
  exact h.withTable table ((h.valid b table there).remove removed)

end

namespace System

/-- Everything that can be done with a system: backends are added, called and mounted, and stores
are emptied. An open file may be any. -/
inductive Step : System → System → Prop
  | addMemory (s : System) : Step s s.addMemory
  | addKeyValue {s s' : System} {store : RecordStore} {readOnly : Bool} (empty : store.records = ∅)
      (made : s.addKeyValue store readOnly = .ok s') : Step s s'
  | addReopened {s : System} {b : BackendId} {store : Nat} {readOnly : Bool}
      (there : s.backends[b]? = some (.keyValue store readOnly)) (readOnly' : Bool) :
      Step s (s.addReopened store readOnly').2
  | addComposite {s : System} {root : BackendId} (there : root < s.next) :
      Step s (s.addComposite root)
  | addSharing {s : System} {b : BackendId} (there : b < s.next) : Step s (s.addSharing b)
  | mkdir (s : System) (b : BackendId) (p : Path) (mode : UInt32) : Step s (s.mkdir b p mode).2
  | unlink (s : System) (b : BackendId) (p : Path) : Step s (s.unlink b p).2
  | rmdir (s : System) (b : BackendId) (p : Path) : Step s (s.rmdir b p).2
  | rename (s : System) (b : BackendId) (source target : Path) : Step s (s.rename b source target).2
  | openFile (s : System) (b : BackendId) (p : Path) (flags : OpenFlags) (mode : UInt32) :
      Step s (s.openFile b p flags mode).2
  | sync (s : System) (b : BackendId) (p : Path) (data : Bytes) (attr : FileAttr) :
      Step s (s.sync b p data attr).2
  | writeAll (s : System) (b : BackendId) (p : Path) (data : Bytes) : Step s (s.writeAll b p data).2
  | write (s : System) (f : OpenFile) (offset : Nat) (new : Bytes) : Step s (s.write f offset new).2
  | truncate (s : System) (f : OpenFile) (size : Nat) : Step s (s.truncate f size).2
  | syncFile (s : System) (f : OpenFile) : Step s (s.syncFile f).2
  | closeFile (s : System) (f : OpenFile) : Step s (s.closeFile f).2
  | mount {s : System} {b c : BackendId} {table : Nat}
      (there : s.backends[b]? = some (.composite table))
      (there' : c < s.next) (p : Path) : Step s (s.mount table p c).2
  | unmount {s : System} {b : BackendId} {table : Nat}
      (there : s.backends[b]? = some (.composite table))
      (p : Path) : Step s (s.unmount table p).2
  | emptyStore {s : System} {b : BackendId} {store : Nat} {readOnly : Bool}
      (there : s.backends[b]? = some (.keyValue store readOnly)) :
      Step s (s.run (MountSpace.emptyStore store readOnly)).2

/-- The systems that can come about. -/
inductive Reachable : System → Prop
  | empty (a : Ambient) : Reachable (.empty a)
  | step {s s' : System} (reachable : Reachable s) (step : Step s s') : Reachable s'

namespace InOrder

variable {s : System} (inOrder : s.InOrder)

theorem empty (a : Ambient) : (System.empty a).InOrder where
  volumes := ⟨fun _ _ _ h => (nomatch h), fun _ _ h => (nomatch h)⟩
  within := fun _ _ h => nomatch h

include inOrder

/-- A computation that keeps the volumes in order keeps the system in order. -/
theorem run {α : Type} {act : Action Volumes α}
    (keeps : Action.Keeps (fun v => v.InOrder s.backends) act) : (s.run act).2.InOrder :=
  ⟨keeps s.volumes inOrder.volumes, inOrder.within⟩

/-- A system with the same backends is in order if its volumes are. -/
theorem of_backends {s' : System} (same : s'.backends = s.backends)
    (volumes : s'.volumes.InOrder s.backends) : s'.InOrder := by
  refine ⟨same ▸ volumes, fun b x hb => ?_⟩
  rw [System.next, same]
  exact inOrder.within b x (same ▸ hb)

/-! ## New backends -/

/-- A new backend leaves a system in order if what it refers to is in order and
the rest is as it was. -/
theorem add {v : Volumes} {x : Backend} (volumes : v.InOrder s.backends)
    (within : x.Within (s.next + 1)) (sound : ∀ vol, x.volume? = some vol → v.SoundAt vol)
    (valid : ∀ table, x = .composite table → (v.tables table).Valid) :
    (System.add ⟨s.backends, v⟩ x).InOrder := by
  -- Either the backend was there before, and refers to what it referred to, or it is the new one.
  have old : ∀ (b : Nat) (y : Backend), (s.backends ++ [x])[b]? = some y →
      s.backends[b]? = some y ∨ y = x := by
    intro b y hb
    rcases Nat.lt_or_ge b s.backends.length with lt | ge
    · exact .inl (by rwa [List.getElem?_append_left lt] at hb)
    · rw [List.getElem?_append_right ge] at hb
      exact .inr (List.mem_singleton.1 (List.mem_of_getElem? hb))
  have more : s.next + 1 = (System.add ⟨s.backends, v⟩ x).next := by
    rw [System.next, System.next, System.add, List.length_append]
    rfl
  refine ⟨⟨fun b y vol hb hy => ?_, fun b table hb => ?_⟩, fun b y hb => ?_⟩
  · rcases old b y hb with hb | rfl
    · exact volumes.sound b y vol hb hy
    · exact sound vol hy
  · rcases old b _ hb with hb | rfl
    · exact volumes.valid b table hb
    · exact valid table rfl
  · rw [← more]
    rcases old b y hb with hb | rfl
    · exact (inOrder.within b y hb).mono (Nat.le_succ _)
    · exact within

/-- The volumes with the number of the next backend are not in use. -/
theorem unused {v : Volumes} (trees : ∀ i, i ≠ s.next → v.trees i = s.volumes.trees i)
    (stores : ∀ j, j ≠ s.next → v.stores j = s.volumes.stores j)
    (tables : ∀ table, table ≠ s.next → v.tables table = s.volumes.tables table) :
    v.InOrder s.backends where
  sound := fun b x vol hb hx => by
    have number := inOrder.within b x hb
    refine (inOrder.volumes.sound b x vol hb hx).of_eq (fun i e => ?_) fun j e => ?_
    · subst e
      cases x with
      | memory i =>
        cases hx
        exact trees _ (Nat.ne_of_lt number)
      | keyValue j readOnly => cases hx
      | composite table => cases hx
      | faulty inner faults capabilities => cases hx
    · subst e
      cases x with
      | memory i => cases hx
      | keyValue j readOnly =>
        cases hx
        exact stores _ (Nat.ne_of_lt number)
      | composite table => cases hx
      | faulty inner faults capabilities => cases hx
  valid := fun b table hb => by
    rw [tables table (Nat.ne_of_lt (inOrder.within b _ hb))]
    exact inOrder.volumes.valid b table hb

theorem addMemory : s.addMemory.InOrder := by
  refine inOrder.add (inOrder.unused (fun i ne => setAt_other _ _ ne) (fun _ _ => rfl)
    fun _ _ => rfl) (Nat.lt_succ_self _) (fun vol h => ?_) nofun
  cases h
  show (setAt s.volumes.trees s.next (MemoryTree.new s.volumes.ambient.now) s.next).Sound
  rw [setAt_self]
  exact MemoryTree.new_sound _

theorem addKeyValue {s' : System} {store : RecordStore} {readOnly : Bool}
    (empty : store.records = ∅) (made : s.addKeyValue store readOnly = .ok s') : s'.InOrder := by
  obtain ⟨t, F, made', h, -, -⟩ | ⟨e, failed, -⟩ := s.addKeyValue_cases store empty readOnly
  · cases made.symm.trans made'
    refine inOrder.add (inOrder.unused (fun _ _ => rfl) (fun j ne => ?_) fun _ _ => rfl)
      (Nat.lt_succ_self _) (fun vol h' => ?_) nofun
    · exact (setAt_other _ _ ne).trans (setAt_other _ _ ne)
    · cases h'
      refine ⟨F, ?_⟩
      rw [Volumes.stores_committed]
      exact h
  · cases made.symm.trans failed

theorem addComposite (root : BackendId) : (s.addComposite root).InOrder := by
  refine inOrder.add (inOrder.unused (fun _ _ => rfl) (fun _ _ => rfl) fun table ne =>
    setAt_other _ _ ne) (Nat.lt_succ_self _) nofun fun table e => ?_
  cases e
  show (setAt s.volumes.tables s.next (MountTable.new root) s.next).Valid
  rw [setAt_self]
  exact .new root

theorem addSharing {b : BackendId} (there : b < s.next) : (s.addSharing b).InOrder := by
  have found : s.backends[b]? = some (s.backends.getD b default) := by
    rw [List.getD_eq_getElem?_getD, List.getElem?_eq_getElem there]
    rfl
  refine inOrder.add inOrder.volumes ((inOrder.within b _ found).mono (Nat.le_succ _))
    (fun vol h => inOrder.volumes.sound b _ vol found h) fun table e => ?_
  exact inOrder.volumes.valid b table (e ▸ found)

/-- A store that is in order has a root already, and making a backend over it changes nothing. -/
theorem addReopened_eq {b : BackendId} {store : Nat} {readOnly : Bool}
    (there : s.backends[b]? = some (.keyValue store readOnly)) (readOnly' : Bool) :
    s.addReopened store readOnly' = (.ok (), System.add
      ⟨s.backends, s.volumes.committed store (s.volumes.transaction store)⟩
      (.keyValue store readOnly')) := by
  obtain ⟨F, h⟩ : s.volumes.SoundAt (.store store) := inOrder.volumes.sound b _ _ there rfl
  rw [System.addReopened, System.run, Volumes.runOn_withStore]
  rw [RecordTree.initialise_represented (t := s.volumes.transaction store) h]

theorem addReopened {b : BackendId} {store : Nat} {readOnly : Bool}
    (there : s.backends[b]? = some (.keyValue store readOnly)) (readOnly' : Bool) :
    (s.addReopened store readOnly').2.InOrder := by
  have sound : s.volumes.SoundAt (.store store) := inOrder.volumes.sound b _ _ there rfl
  have only := s.volumes.changesOnly_committed (j := store) (.refl _) sound
  rw [inOrder.addReopened_eq there]
  refine inOrder.add (inOrder.volumes.changesOnly only)
    ((inOrder.within b _ there).mono (Nat.le_succ _)) (fun vol e => ?_) nofun
  cases e
  exact only.sound sound

/-- Whatever is done with a system in order leaves it in order. -/
theorem step {s' : System} (step : Step s s') : s'.InOrder := by
  have keeps : ∀ hops b, (fileSystem s.backends hops b).Keeps fun v => v.InOrder s.backends :=
    fileSystem_keeps (fun _ h => h) fun _ _ _ h only => h.changesOnly only
  have ticks : ∀ v : Volumes, v.InOrder s.backends → v.ticked.InOrder s.backends :=
    fun _ h => h.ticked
  cases step with
  | addMemory => exact inOrder.addMemory
  | addKeyValue empty made => exact inOrder.addKeyValue empty made
  | addReopened there readOnly' => exact inOrder.addReopened there readOnly'
  | addComposite there => exact inOrder.addComposite _
  | addSharing there => exact inOrder.addSharing there
  | mkdir b p mode => exact inOrder.run ((keeps _ b).change (.mkdir p mode))
  | unlink b p => exact inOrder.run ((keeps _ b).change (.unlink p))
  | rmdir b p => exact inOrder.run ((keeps _ b).change (.rmdir p))
  | rename b source target => exact inOrder.run ((keeps _ b).change (.rename source target))
  | openFile b p flags mode => exact inOrder.run ((keeps _ b).openFile p flags mode)
  | sync b p data attr => exact inOrder.run ((keeps _ b).change (.sync p data attr))
  | writeAll b p data =>
    exact inOrder.run (FileSystem.keeps_writeAll ((keeps _ b).keepsAt b)
      (fun f _ data attr => (keeps _ f.owner).change (.sync _ data attr)) ticks trivial data)
  | write f offset new =>
    exact inOrder.run ((Volumes.keeps_now ticks).bind fun _ => Action.keeps_ofExcept _)
  | truncate f size =>
    exact inOrder.run ((Volumes.keeps_now ticks).bind fun _ => Action.keeps_ofExcept _)
  | syncFile f => exact inOrder.run (OpenFile.keeps_sync ((keeps _ f.owner).change (.sync _ _ _)))
  | closeFile f => exact inOrder.run (OpenFile.keeps_close ((keeps _ f.owner).change (.sync _ _ _)))
  | mount there there' p => exact inOrder.run (keeps_mount there (keeps _) p _)
  | unmount there p => exact inOrder.run (keeps_unmount there p)
  | emptyStore there => exact inOrder.run (keeps_emptyStore there)

end InOrder

/-- Every system that can come about is in order. -/
theorem Reachable.inOrder {s : System} (reachable : Reachable s) : s.InOrder := by
  induction reachable with
  | empty a => exact .empty a
  | step _ step ih => exact ih.step step

/-! ## Systems made step by step -/

/-- A system that can come about, with the backends it has. -/
structure Reached (s : System) (l : List Backend) : Prop where
  reachable : s.Reachable
  backends : s.backends = l

namespace Reached

variable {s s' : System} {l : List Backend} (reached : s.Reached l)

theorem empty (a : Ambient) : Reached (.empty a) [] := ⟨.empty a, rfl⟩

include reached

theorem next : s.next = l.length := congrArg List.length reached.backends

theorem at' {b : BackendId} {x : Backend} (h : l[b]? = some x) : s.backends[b]? = some x := by
  rwa [reached.backends]

/-! A new backend comes last and has the number of those before. -/

theorem addMemory : s.addMemory.Reached (l ++ [.memory l.length]) := by
  refine ⟨reached.reachable.step (.addMemory s), ?_⟩
  rw [← reached.next, ← reached.backends]
  rfl

theorem addKeyValue {store : RecordStore} {readOnly : Bool} (empty : store.records = ∅)
    (made : s.addKeyValue store readOnly = .ok s') :
    s'.Reached (l ++ [.keyValue l.length readOnly]) := by
  refine ⟨reached.reachable.step (.addKeyValue empty made), ?_⟩
  obtain ⟨t, F, made', -⟩ | ⟨e, failed, -⟩ := s.addKeyValue_cases store empty readOnly
  · cases made.symm.trans made'
    rw [← reached.next, ← reached.backends]
    rfl
  · cases made.symm.trans failed

theorem addReopened {b : BackendId} {store : Nat} {readOnly : Bool}
    (there : l[b]? = some (.keyValue store readOnly)) (readOnly' : Bool) :
    (s.addReopened store readOnly').2.Reached (l ++ [.keyValue store readOnly']) := by
  have there' := reached.at' there
  refine ⟨reached.reachable.step (.addReopened there' readOnly'), ?_⟩
  rw [reached.reachable.inOrder.addReopened_eq there' readOnly', ← reached.backends]
  rfl

theorem addComposite {root : BackendId} (there : root < l.length) :
    (s.addComposite root).Reached (l ++ [.composite l.length]) := by
  rw [← reached.next] at there ⊢
  refine ⟨reached.reachable.step (.addComposite there), ?_⟩
  rw [← reached.backends]
  rfl

theorem addSharing {b : BackendId} (there : b < l.length) :
    (s.addSharing b).Reached (l ++ [l.getD b default]) := by
  rw [← reached.next] at there
  refine ⟨reached.reachable.step (.addSharing there), ?_⟩
  rw [← reached.backends]
  rfl

/-! Calls leave the backends as they are. -/

theorem mkdir (b : BackendId) (p : Path) (mode : UInt32) : (s.mkdir b p mode).2.Reached l :=
  ⟨reached.reachable.step (.mkdir s b p mode), reached.backends⟩

theorem openFile (b : BackendId) (p : Path) (flags : OpenFlags) (mode : UInt32) :
    (s.openFile b p flags mode).2.Reached l :=
  ⟨reached.reachable.step (.openFile s b p flags mode), reached.backends⟩

theorem writeAll (b : BackendId) (p : Path) (data : Bytes) : (s.writeAll b p data).2.Reached l :=
  ⟨reached.reachable.step (.writeAll s b p data), reached.backends⟩

theorem rename (b : BackendId) (source target : Path) : (s.rename b source target).2.Reached l :=
  ⟨reached.reachable.step (.rename s b source target), reached.backends⟩

theorem mount {b c : BackendId} {table : Nat} (there : l[b]? = some (.composite table))
    (there' : c < l.length) (p : Path) : (s.mount table p c).2.Reached l := by
  rw [← reached.next] at there'
  exact ⟨reached.reachable.step (.mount (reached.at' there) there' p), reached.backends⟩

theorem unmount {b : BackendId} {table : Nat} (there : l[b]? = some (.composite table)) (p : Path) :
    (s.unmount table p).2.Reached l :=
  ⟨reached.reachable.step (.unmount (reached.at' there) p), reached.backends⟩

end Reached

end System

end MountSpace
