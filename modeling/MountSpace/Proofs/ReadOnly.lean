import MountSpace.Proofs.Deeds
import MountSpace.Proofs.Rename

/-!
# Stores that nothing writes to

A backend that is read-only refuses every change. A store that some backends can be asked to
change only through read-only ones stays as it is, whatever is asked of these backends: there
is no way round over open files, over directories that a mount creates, or over moves from
one backend to another.

- `memory_keepsAt`: what a backend over a tree leaves alone.
- `System.Encloses`: some backends lead to no others, and those of them over a store are read-only.
- `Volumes.Sealed`, `Sealed.fileSystem_sealed`: the invariant, which all these backends keep.
- `Sealed.keeps_mount`, `keeps_unmount`, `keeps_emptyStore`: so do mounts, and emptying a store.
- `Use`, `Session.use`, `Session.useAll`: one thing that is done with any of several
  backends, and any number.
- `Session.upholds_use`, `upholds_useAll`: one step and a whole run.
- `System.Refuses`, `refuses_readOnly`: what a read-only backend answers.
- `Session.read_only_store_untouched`: the store stays as it is, and its read-only
  backends refuse every change.
-/

namespace MountSpace

open MountSpace.Action

/-! ## What backends leave alone -/

/-- A file that need not be created is looked up, and nothing else. -/
theorem RecordTree.keeps_openFile (p : Path) {flags : OpenFlags} (create : flags.create = false)
    (mode : UInt32) (t : Transaction) :
    Action.Keeps (· = t) (RecordTree.openFile p flags mode) := by
  unfold RecordTree.openFile
  refine keeps_get_bind fun t' _ => ?_
  cases t'.store.lookup p with
  | error e =>
    dsimp only
    rw [create, Bool.and_false]
    exact keeps_throw e
  | ok found =>
    obtain ⟨id, inode⟩ := found
    dsimp only
    rw [create, Bool.false_and, if_neg Bool.false_ne_true]
    cases inode.isDir with
    | true => exact keeps_throw (α := FileAttr × Bytes) _
    | false => exact (keeps_get_bind fun _ _ => keeps_ofExcept _).bind fun data => keeps_pure _

section

variable {P : Volumes → Prop} {Q : OpenFile → Prop} {self : BackendId}

/-- A backend over a tree changes trees, and reads the clock. -/
theorem memory_keepsAt (tree : Nat) (ticks : ∀ v : Volumes, P v → P v.ticked)
    (grows : ∀ (v : Volumes) t, P v → P (v.withTree tree t))
    (held : ∀ f : OpenFile, f.owner = self → Q f) :
    (FileSystem.memory self tree).KeepsAt P (fun _ => True) (fun _ => True) Q where
  change := by
    intro c _ v h
    obtain ⟨v₁, now, read, hr⟩ := memory_change self tree c v
    have start : P v₁ := by
      rcases read with rfl | rfl
      · exact h
      · exact ticks v h
    rw [hr, Volumes.runOn_changeTree]
    split
    · exact grows v₁ _ start
    · exact start
  openFile := by
    intro p flags mode _
    refine (Volumes.keeps_now ticks).bind_yields fun now => yields_get_bind fun v _ => ?_
    refine (keeps_ofExcept _).bind_yields fun r => ?_
    refine (keeps_modify fun v h => grows v _ h).bind_yields fun _ => ?_
    exact (Volumes.keeps_now ticks).bind_yields fun _ =>
      yields_pure (held _ (OpenFile.owner_load ..))

end

/-! ## Backends that reach a store by read-only ones alone -/

/-- Some backends lead to no others, and those of them over a store are read-only. -/
structure System.Encloses (s : System) (store : Nat) (group : BackendId → Prop) : Prop where
  readOnly : ∀ b readOnly, group b → s.backends[b]? = some (.keyValue store readOnly) →
    readOnly = true
  inner : ∀ b inner faults capabilities, group b →
    s.backends[b]? = some (.faulty inner faults capabilities) → group inner
  mounted : ∀ b table c, group b → s.backends[b]? = some (.composite table) →
    (s.volumes.tables table).Names c → group c

/-- A store is as it was, and some backends still reach it by read-only ones alone. -/
structure Volumes.Sealed (backends : List Backend) (store : Nat) (group : BackendId → Prop)
    (kept : RecordStore) (v : Volumes) : Prop where
  records : v.stores store = kept
  encloses : System.Encloses ⟨backends, v⟩ store group

namespace Volumes.Sealed

variable {backends : List Backend} {store : Nat} {group : BackendId → Prop} {kept : RecordStore}
variable {v v' : Volumes} {b : BackendId}

/-- Trees, other stores and the clock do not matter. -/
theorem of_same (h : v.Sealed backends store group kept) (tables : v'.tables = v.tables)
    (same : v'.stores store = v.stores store) : v'.Sealed backends store group kept where
  records := same.trans h.records
  encloses := ⟨h.encloses.readOnly, h.encloses.inner, fun b table c here there named =>
    h.encloses.mounted b table c here there (tables ▸ named)⟩

theorem ticked (h : v.Sealed backends store group kept) :
    v.ticked.Sealed backends store group kept :=
  h.of_same rfl rfl

/-- A change of another store does not matter, nor does one that leaves the store as it is. -/
theorem committed (h : v.Sealed backends store group kept) {j : Nat} {t : Transaction}
    (same : j = store → t.store = v.stores store) :
    (v.committed j t).Sealed backends store group kept := by
  refine h.of_same rfl ?_
  by_cases e : store = j
  · subst e
    rw [stores_committed, same rfl]
  · exact setAt_other _ _ e

/-- A table may be replaced by one that names backends of the group only. -/
theorem withTable (h : v.Sealed backends store group kept) {table : Nat} {t : MountTable}
    (named : ∀ c, t.Names c → group c) :
    Volumes.Sealed backends store group kept { v with tables := setAt v.tables table t } where
  records := h.records
  encloses := by
    refine ⟨h.encloses.readOnly, h.encloses.inner, fun b table' c here there names => ?_⟩
    have names : (setAt v.tables table t table').Names c := names
    by_cases e : table' = table
    · rw [e, setAt_self] at names
      exact named c names
    · rw [setAt_other _ _ e] at names
      exact h.encloses.mounted b table' c here there names

/-- A composite of the group sends calls to backends of the group. -/
theorem routed (h : v.Sealed backends store group kept) {table : Nat} (here : group b)
    (there : backends[b]? = some (.composite table)) (p : Path) :
    group ((v.tables table).resolve p).backend :=
  h.encloses.mounted b table _ here there (MountTable.names_resolve _ p)

/-- A read-only backend over the store, and any backend over another one, leave
the store as it is. -/
theorem keyValue_keepsAt {j : Nat} {readOnly : Bool} (closed : j = store → readOnly = true)
    {Q : OpenFile → Prop} (held : ∀ f : OpenFile, f.owner = b → Q f) :
    (FileSystem.keyValue b j readOnly).KeepsAt (Volumes.Sealed backends store group kept)
      (fun _ => True) (fun _ => True) Q where
  change := by
    intro c _ v h
    rw [keyValue_change]
    split
    · exact h
    next writable =>
      rw [runOn_withStore]
      exact h.committed fun e => absurd (closed e) writable
  openFile := by
    intro p flags mode _ v h
    rw [keyValue_openFile]
    split
    · exact yields_throw _ v h
    next allowed =>
      have opens : Action.Keeps (Volumes.Sealed backends store group kept)
          (Volumes.withStore j (RecordTree.openFile p flags mode)) := by
        intro v h
        rw [runOn_withStore]
        refine h.committed fun e => ?_
        have create : flags.create = false := by
          rw [closed e, Bool.true_and, Bool.not_eq_true, Bool.or_eq_false_iff] at allowed
          exact allowed.2
        have looked := RecordTree.keeps_openFile p create mode (v.transaction j) _ rfl
        rw [looked, ← e]
        rfl
      have loads := opens.bind_yields fun opened =>
        (Volumes.keeps_now fun _ h => ticked h).bind_yields
        fun now => yields_pure (held (.load b (Utf8.encode p.spelling) flags opened.1 opened.2 now)
          (OpenFile.owner_load ..))
      exact loads v h

/-- What is asked of backends of the group leaves the store as it is, and files that are opened
belong to the group. -/
theorem fileSystem_sealed (start : v.Sealed backends store group kept) :
    ∀ hops b, group b →
    (fileSystem backends hops b).KeepsAt (Volumes.Sealed backends store group kept)
      (fun _ => True) (fun _ => True) (fun f => group f.owner) := by
  have ticks : ∀ v : Volumes, v.Sealed backends store group kept →
      v.ticked.Sealed backends store group kept := fun _ h => h.ticked
  refine fileSystem_keepsAt group ticks (fun b tree here _ => ?_) (fun b j readOnly here hb => ?_)
    start.encloses.inner fun v h b table q here there => h.routed here there q
  · exact memory_keepsAt tree ticks (fun v t h => h.of_same rfl rfl) fun f own => own ▸ here
  · refine keyValue_keepsAt (fun e => ?_) fun f own => own ▸ here
    exact start.encloses.readOnly b readOnly here (e ▸ hb)

/-- A mount in a composite of the group creates directories in backends of the group only. -/
theorem keeps_mount {table : Nat} {c : BackendId} (start : v.Sealed backends store group kept)
    (here : group b) (there : backends[b]? = some (.composite table)) (inside : group c)
    (hops : Nat) (p : Path) : Action.Keeps (Volumes.Sealed backends store group kept)
      (Composite.mount (fileSystem backends hops) table p c) := by
  refine Composite.keeps_mount (FileSystem.keepsAt_group (start.fileSystem_sealed hops))
    (fun v h a _ => h.routed here there a) fun v w t h hw inserted => hw.withTable fun d named => ?_
  rcases MountTable.names_insert inserted named with before | rfl
  · exact h.encloses.mounted b table d here there before
  · exact inside

theorem keeps_unmount {table : Nat} (here : group b)
    (there : backends[b]? = some (.composite table)) (p : Path) :
    Action.Keeps (Volumes.Sealed backends store group kept) (Composite.unmount table p) := by
  refine Composite.keeps_unmount fun v c t h removed => h.withTable fun d named => ?_
  exact h.encloses.mounted b table d here there (MountTable.names_remove removed named)

/-- A read-only store is not emptied, and no other store matters. -/
theorem keeps_emptyStore {j : Nat} {readOnly : Bool} (closed : j = store → readOnly = true) :
    Action.Keeps (Volumes.Sealed backends store group kept) (emptyStore j readOnly) := by
  intro v h
  cases readOnly with
  | true => exact h
  | false => exact h.committed fun e => absurd (closed e) Bool.false_ne_true

end Volumes.Sealed

/-! ## Everything that is done with several backends -/

/-- What can be done with any of several backends, and with the files that are open in them. -/
inductive Use where
  | ask (b : BackendId) (request : Request)
  /-- Stores content and attributes of a file that exists. -/
  | store (b : BackendId) (p : Path) (data : Bytes) (attr : FileAttr)
  | mount (b : BackendId) (p : Path) (c : BackendId)
  | unmount (b : BackendId) (p : Path)
  /-- Removes everything from the store of a backend. -/
  | empty (b : BackendId)

/-- What is done concerns certain backends only. -/
def Use.Within (group : BackendId → Prop) : Use → Prop
  | ask b _ => group b
  | store b _ _ _ => group b
  | mount b _ c => group b ∧ group c
  | unmount b _ => group b
  | empty b => group b

namespace Session

/-- The session after something was done. A backend that has no table is not mounted in, and one
that has no store is not emptied. -/
def use (s : Session) : Use → Session
  | .ask b request => (s.perform b request).2
  | .store b p data attr => { s with system := (s.system.sync b p data attr).2 }
  | .mount b p c =>
    match s.system.backends[b]? with
    | some (.composite table) => { s with system := (s.system.mount table p c).2 }
    | _ => s
  | .unmount b p =>
    match s.system.backends[b]? with
    | some (.composite table) => { s with system := (s.system.unmount table p).2 }
    | _ => s
  | .empty b =>
    match s.system.backends[b]? with
    | some (.keyValue store readOnly) =>
      { s with system := (s.system.run (emptyStore store readOnly)).2 }
    | _ => s

/-- The session after several things were done, one after the other. -/
def useAll (s : Session) (uses : List Use) : Session := uses.foldl use s

variable {backends : List Backend} {store : Nat} {group : BackendId → Prop} {kept : RecordStore}
variable {s : Session}

/-- One thing that is done with backends of the group. -/
theorem upholds_use (h : s.Upholds (Volumes.Sealed backends store group kept) backends) {u : Use}
    (within : u.Within group) :
    (s.use u).Upholds (Volumes.Sealed backends store group kept) backends := by
  have asked := h.volumes.fileSystem_sealed
  cases u with
  | ask b request =>
    refine h.perform (fun hops => asked hops b within) (fun v hv => hv.ticked)
      (fun f held => ?_) request
    exact fun hops data attr => (asked hops f.owner held).keeps.change _
  | store b p data attr => exact h.store (fun hops => asked hops b within) p data attr
  | mount b p c =>
    rw [use]
    split
    next table there =>
      refine h.withSystem h.same ?_
      rw [System.mount, System.fileSystems, h.same]
      rw [h.same] at there
      exact Volumes.Sealed.keeps_mount h.volumes within.1 there within.2 _ p _ h.volumes
    next => exact h
  | unmount b p =>
    rw [use]
    split
    next table there =>
      rw [h.same] at there
      exact h.withSystem h.same (Volumes.Sealed.keeps_unmount within there p _ h.volumes)
    next => exact h
  | empty b =>
    rw [use]
    split
    next j readOnly there =>
      rw [h.same] at there
      refine h.withSystem h.same (Volumes.Sealed.keeps_emptyStore (fun e => ?_) _ h.volumes)
      exact h.volumes.encloses.readOnly b readOnly within (e ▸ there)
    next => exact h

/-- Any number of things that are done with backends of the group. -/
theorem upholds_useAll : ∀ (uses : List Use) {s : Session},
    s.Upholds (Volumes.Sealed backends store group kept) backends → (∀ u ∈ uses, u.Within group) →
    (s.useAll uses).Upholds (Volumes.Sealed backends store group kept) backends
  | [], _, h, _ => h
  | u :: uses, _, h, within =>
    upholds_useAll uses (upholds_use h (within u List.mem_cons_self))
      fun u' hu => within u' (List.mem_cons_of_mem _ hu)

end Session

/-! ## Refusals -/

namespace System

/-- A backend over a store answers everything that would change the store with a refusal, and the
system stays as it is. -/
structure Refuses (s : System) (b : BackendId) (store : Nat) : Prop where
  mkdir : ∀ p mode, s.mkdir b p mode = (.error .readOnly, s)
  unlink : ∀ p, s.unlink b p = (.error .readOnly, s)
  rmdir : ∀ p, s.rmdir b p = (.error .readOnly, s)
  rename : ∀ source target, s.rename b source target = (.error .readOnly, s)
  sync : ∀ p data attr, s.sync b p data attr = (.error .readOnly, s)
  openFile : ∀ p flags mode, flags.write = true ∨ flags.append = true ∨ flags.create = true →
    s.openFile b p flags mode = (.error .readOnly, s)
  empty : s.run (emptyStore store true) = (.error .readOnly, s)

variable {s : System} {b : BackendId} {store : Nat}

theorem change_refused (there : s.backends[b]? = some (.keyValue store true)) (c : Change)
    (hops : Nat) : s.run ((fileSystem s.backends hops b).change c) = (.error .readOnly, s) := by
  rw [fileSystem_keyValue there, run, keyValue_change, if_pos rfl]

theorem refuses_readOnly (there : s.backends[b]? = some (.keyValue store true)) :
    s.Refuses b store where
  mkdir p mode := change_refused there (.mkdir p mode) _
  unlink p := change_refused there (.unlink p) _
  rmdir p := change_refused there (.rmdir p) _
  rename source target := change_refused there (.rename source target) _
  sync p data attr := change_refused there (.sync p data attr) _
  openFile p flags mode writes := by
    have refused : (true && (flags.isWriteable || flags.create)) = true := by
      simpa [OpenFlags.isWriteable, or_assoc] using writes
    rw [openFile, fileSystems, fileSystem_keyValue there, run, keyValue_openFile, if_pos refused]
  empty := rfl

end System

/-- **Read-only stores**: a store that some backends reach by read-only ones alone stays as it is,
whatever is done with these backends and with the files that are open in them, and its read-only
backends refuse every change. -/
theorem Session.read_only_store_untouched {s : Session} {store : Nat} {group : BackendId → Prop}
    (encloses : s.system.Encloses store group)
    (opened : ∀ n f, s.handles n = some f → group f.owner) (uses : List Use)
    (within : ∀ u ∈ uses, u.Within group) :
    (s.useAll uses).system.volumes.stores store = s.system.volumes.stores store ∧
      ∀ b, s.system.backends[b]? = some (.keyValue store true) →
      (s.useAll uses).system.Refuses b store := by
  have start : s.system.volumes.Sealed s.system.backends store group
      (s.system.volumes.stores store) :=
    ⟨rfl, encloses⟩
  have stored : ∀ n f, s.handles n = some f → f.Keeps
      (Volumes.Sealed s.system.backends store group (s.system.volumes.stores store))
      s.system.backends :=
    fun n f hf hops data attr =>
      (start.fileSystem_sealed hops f.owner (opened n f hf)).keeps.change _
  have done := upholds_useAll uses ⟨rfl, start, stored⟩ within
  refine ⟨done.volumes.records, fun b there => System.refuses_readOnly ?_⟩
  rw [done.same, there]

/-- Ways to reach the store of a system that covers it: moves into it and out of it, a file that is
opened for reading and emptied, a mount below it, and emptying it. -/
def System.attempts : List Use :=
  [.ask 4 (.rename (.ofText "/g") (.ofText "/n/h")),
    .ask 4 (.rename (.ofText "/n/f") (.ofText "/g")),
    .ask 2 (.openFile 0 (.ofText "/f") { truncate := true } 0), .ask 4 (.sync 0),
    .mount 4 (.ofText "/n/a/b") 2, .empty 2]

/-- All but the second backend of such a system reach the store by the read-only one. -/
theorem System.encloses_covered {s : System} (backends : s.backends =
      [.memory 0, .keyValue 1 false, .keyValue 1 true, .composite 3, .composite 4])
    (inner : s.volumes.tables 3 = .new 2) (root : (s.volumes.tables 4).root = 0)
    (mounts : (s.volumes.tables 4).mounts.toList = [(.ofText "/n", 3)]) : s.Encloses 1 (· ≠ 1) where
  readOnly b readOnly here there := by
    rw [backends] at there
    rcases b with _ | _ | _ | _ | _ | b <;> cases there
    · exact absurd rfl here
    · rfl
  inner b inner faults capabilities here there := by
    rw [backends] at there
    rcases b with _ | _ | _ | _ | _ | b <;> cases there
  mounted b table c here there named := by
    rw [backends] at there
    rw [MountTable.names_iff, SortedMap.values] at named
    rcases b with _ | _ | _ | _ | _ | b <;> cases there
    · rw [inner] at named
      cases List.mem_singleton.1 named
      decide
    · rw [root, mounts] at named
      rintro rfl
      revert named
      decide

/-- The file that was opened is empty and waits to be stored, and the store has what it had. -/
theorem Session.read_only_store_untouched_covered :
    ∃ s : System, s.Reachable ∧ s.Encloses 1 (· ≠ 1) ∧ s.backends[2]? = some (.keyValue 1 true) ∧
      (((Session.fresh s).useAll System.attempts).handles 0).map
        (fun f => (f.owner, f.data, f.dirty)) =
        some (2, [], true) ∧
      ((Session.fresh s).useAll System.attempts).system.volumes.stores 1 = s.volumes.stores 1 ∧
      ((Session.fresh s).useAll System.attempts).system.Refuses 2 1 := by
  obtain ⟨s, made, mem⟩ := System.exists_covered
  obtain ⟨reachable, backends⟩ := System.covered_reached made
  obtain ⟨⟨⟨inner, root, mounts⟩, -⟩, -⟩ := System.covered_rename s mem
  have encloses := System.encloses_covered backends inner root mounts
  have there : s.covered.backends[2]? = some (.keyValue 1 true) := by rw [backends]; rfl
  have opened :
    ∀ s ∈ ((System.empty .counting).addMemory.addKeyValue (.ofRecords ∅) false).toOption,
      (((Session.fresh s.covered).useAll System.attempts).handles 0).map
        (fun f => (f.owner, f.data, f.dirty)) = some (2, [], true) := by
    decide +kernel
  have opened := opened s mem
  -- Nothing looks inside the system from here on.
  generalize s.covered = covered at *
  have within : ∀ u ∈ System.attempts, u.Within (· ≠ 1) := by simp [System.attempts, Use.Within]
  obtain ⟨untouched, refuses⟩ := read_only_store_untouched (s := .fresh covered) encloses
    (fun n f hf => by cases hf) System.attempts within
  exact ⟨covered, reachable, encloses, there, opened, untouched, refuses 2 there⟩

end MountSpace
