import MountSpace.Proofs.Equivalence
import MountSpace.Proofs.Session

/-!
# Sessions with backends that cannot be told apart

A fresh tree in memory and a fresh store of records answer every sequence of requests alike, and
look the same all along, if every id that is drawn is new. Only the permissions of the root differ,
which each kind of backend chooses when it is made and nothing changes afterwards.

- `Session.Over`: a session with one backend. Requests only change its volume (`Over.perform`).
- `Session.Like`: two sessions that are related. Each request is answered alike and leaves related
  sessions (`perform_alike`), and so do any number of requests (`run_like`).
- `System.LooksLike`: what a caller can see at a path.
- `memory_keyValue_alike`: the theorem for a fresh tree and a fresh store.
-/

namespace MountSpace

namespace Session

/-! ## Sessions with one backend -/

/-- A session with one backend, which answers for a volume in order and owns all
files that are open. -/
structure Over (fs : FileSystem) (vol : Volume) (s : Session) : Prop where
  alone : ∀ p, s.system.fileSystems p 0 = fs
  sound : s.system.volumes.SoundAt vol
  owned : ∀ h f, s.handles h = some f → f.owner = 0

/-- A session goes on with the same backend, and with its volume if with any changed. -/
structure GoesOn (fs : FileSystem) (vol : Volume) (s s' : Session) : Prop where
  based : Over fs vol s'
  only : s.system.volumes.ChangesOnly s'.system.volumes vol

section

variable {fs : FileSystem} {vol : Volume} {s : Session} (based : Over fs vol s)
include based

theorem Over.rest : GoesOn fs vol s s := ⟨based, .refl _ _⟩

theorem Over.settle {act : Action Volumes Unit}
    (only : s.system.volumes.ChangesOnly (act.runOn s.system.volumes).2 vol) :
    GoesOn fs vol s (s.settle (s.system.run act)).2 :=
  ⟨⟨based.alone, only.sound based.sound, based.owned⟩, only⟩

theorem Over.hold (h : Nat) {act : Action Volumes OpenFile}
    (only : s.system.volumes.ChangesOnly (act.runOn s.system.volumes).2 vol)
    (own : ∀ f v', act.runOn s.system.volumes = (.ok f, v') → f.owner = 0) :
    GoesOn fs vol s (s.hold h (s.system.run act)).2 := by
  rw [System.run]
  rcases hr : act.runOn s.system.volumes with ⟨_ | f, v'⟩
  · rw [hr] at only
    exact ⟨⟨based.alone, only.sound based.sound, based.owned⟩, only⟩
  · rw [hr] at only
    refine ⟨⟨based.alone, only.sound based.sound, fun h' f' found => ?_⟩, only⟩
    change setAt s.handles h (some f) h' = some f' at found
    by_cases e : h' = h
    · rw [e, setAt_self] at found
      cases found
      exact own f v' hr
    · rw [setAt_other _ _ e] at found
      exact based.owned h' f' found

theorem Over.withHandle {h : Nat} {call : OpenFile → Except FsError Bytes × Session}
    (called : ∀ f, s.handles h = some f → GoesOn fs vol s (call f).2) :
    GoesOn fs vol s (s.withHandle h call).2 := by
  rw [Session.withHandle]
  cases hf : s.handles h with
  | none => exact based.rest
  | some f => exact called f hf

/-- A request reaches the volume through the backend alone. -/
theorem Over.perform (serves : Serves fs 0 vol false) (r : Request) :
    GoesOn fs vol s (s.perform 0 r).2 := by
  cases r with
  | mkdir p mode =>
    refine based.settle ?_
    rw [based.alone]
    exact serves.changesOnly_change based.sound (.mkdir p mode)
  | unlink p =>
    refine based.settle ?_
    rw [based.alone]
    exact serves.changesOnly_change based.sound (.unlink p)
  | rmdir p =>
    refine based.settle ?_
    rw [based.alone]
    exact serves.changesOnly_change based.sound (.rmdir p)
  | rename source target =>
    refine based.settle ?_
    rw [based.alone]
    exact serves.changesOnly_change based.sound (.rename source target)
  | writeAll p data =>
    refine based.settle ?_
    rw [based.alone]
    exact serves.changesOnly_writeAll based.sound (based.alone p) p data
  | openFile h p flags mode =>
    refine based.hold h ?_ fun f v' opened => ?_
    · rw [based.alone]
      exact serves.changesOnly_openFile based.sound p flags mode
    · rw [based.alone] at opened
      exact serves.owner_of_openFile based.sound opened
  -- The other requests are about a file that is open, which belongs to the one backend.
  | read h offset size => exact based.withHandle fun f _ => based.rest
  | write h offset data =>
    refine based.withHandle fun f hf => based.hold h ?_ fun f' v' written => ?_
    · rw [Volumes.runOn_now_bind, Action.runOn_ofExcept]
      exact Volumes.changesOnly_ticked _ vol
    · rw [Volumes.runOn_now_bind, Action.runOn_ofExcept] at written
      exact (OpenFile.write_owner (congrArg Prod.fst written)).trans (based.owned h f hf)
  | truncate h size =>
    refine based.withHandle fun f hf => based.hold h ?_ fun f' v' cut => ?_
    · rw [Volumes.runOn_now_bind, Action.runOn_ofExcept]
      exact Volumes.changesOnly_ticked _ vol
    · rw [Volumes.runOn_now_bind, Action.runOn_ofExcept] at cut
      exact (OpenFile.truncate_owner (congrArg Prod.fst cut)).trans (based.owned h f hf)
  | sync h =>
    refine based.withHandle fun f hf => based.hold h ?_ fun f' v' stored => ?_
    · rw [based.owned h f hf, based.alone]
      exact serves.changesOnly_sync based.sound f
    · exact (OpenFile.sync_owner stored).trans (based.owned h f hf)
  | close h =>
    refine based.withHandle fun f hf => based.hold h ?_ fun f' v' stored => ?_
    · rw [based.owned h f hf, based.alone]
      exact serves.changesOnly_close based.sound f
    · exact (OpenFile.close_owner stored).trans (based.owned h f hf)

theorem Over.run (serves : Serves fs 0 vol false) (requests : List Request) :
    GoesOn fs vol s (s.run 0 requests) := by
  induction requests generalizing s with
  | nil => exact based.rest
  | cons r requests ih =>
    have first := based.perform serves r
    have rest := ih first.based
    exact ⟨rest.based, first.only.trans rest.only⟩

end

/-! ## Related sessions -/

/-- Two sessions have related volumes, and related files are open under the same numbers. -/
structure Like (vol vol' : Volume) (n n' : Nat) (s s' : Session) : Prop where
  volumes : Volumes.Like vol vol' n n' s.system.volumes s'.system.volumes
  files : ∀ h, Option.Rel OpenFile.Like (s.handles h) (s'.handles h)

/-- Two sessions answer alike and leave related sessions, as long as no ids are drawn past the ones
that are known to be new. -/
def AnswersAlike (vol vol' : Volume) (n n' : Nat) (r r' : Except FsError Bytes × Session) : Prop :=
  r.2.system.volumes.ambient.draws ≤ n → r'.2.system.volumes.ambient.draws ≤ n' →
    Alike Eq r.1 r'.1 ∧ Like vol vol' n n' r.2 r'.2

section

variable {vol vol' : Volume} {n n' : Nat} {s s' : Session} (like : Like vol vol' n n' s s')
include like

theorem Like.settle {act act' : Action Volumes Unit}
    (paired : Paired vol vol' n n' (fun _ _ => True) (act.runOn s.system.volumes)
      (act'.runOn s'.system.volumes)) :
    AnswersAlike vol vol' n n' (s.settle (s.system.run act)) (s'.settle (s'.system.run act')) := by
  intro drawn drawn'
  obtain ⟨alike, volumes⟩ := paired drawn drawn'
  refine ⟨?_, volumes, like.files⟩
  show Alike Eq ((act.runOn s.system.volumes).1.map _) ((act'.runOn s'.system.volumes).1.map _)
  obtain ⟨_, _, ho, ho', -⟩ | ⟨_, _, ho, ho'⟩ := alike.cases
  · rw [ho, ho']
    rfl
  · rw [ho, ho']
    trivial

theorem Like.hold (h : Nat) {act act' : Action Volumes OpenFile}
    (paired : Paired vol vol' n n' OpenFile.Like (act.runOn s.system.volumes)
      (act'.runOn s'.system.volumes)) :
    AnswersAlike vol vol' n n' (s.hold h (s.system.run act)) (s'.hold h (s'.system.run act')) := by
  rw [System.run, System.run]
  rcases hr : act.runOn s.system.volumes with ⟨o, v⟩
  rcases hr' : act'.runOn s'.system.volumes with ⟨o', v'⟩
  rw [hr, hr'] at paired
  intro drawn drawn'
  have start : v.ambient.draws ≤ n := by cases o <;> exact drawn
  have start' : v'.ambient.draws ≤ n' := by cases o' <;> exact drawn'
  obtain ⟨alike, volumes⟩ := paired start start'
  obtain ⟨f, f', rfl, rfl, files⟩ | ⟨e, e', rfl, rfl⟩ := alike.cases
  · refine ⟨rfl, volumes, fun h' => ?_⟩
    show Option.Rel _ (setAt s.handles h (some f) h') (setAt s'.handles h (some f') h')
    by_cases e : h' = h
    · rw [e, setAt_self, setAt_self]
      exact .some files
    · rw [setAt_other _ _ e, setAt_other _ _ e]
      exact like.files h'
  · exact ⟨trivial, volumes, like.files⟩

/-- A call about an open file is one about related files, or there is no such
file on either side. -/
theorem Like.withHandle {h : Nat} {call call' : OpenFile → Except FsError Bytes × Session}
    (called : ∀ f f', s.handles h = some f → s'.handles h = some f' → f.Like f' →
      AnswersAlike vol vol' n n' (call f) (call' f')) :
    AnswersAlike vol vol' n n' (s.withHandle h call) (s'.withHandle h call') := by
  rw [Session.withHandle, Session.withHandle]
  have files := like.files h
  cases hf : s.handles h with
  | none =>
    rw [hf] at files
    cases hf' : s'.handles h with
    | none => exact fun _ _ => ⟨trivial, like⟩
    | some f' =>
      rw [hf'] at files
      cases files
  | some f =>
    rw [hf] at files
    cases hf' : s'.handles h with
    | none =>
      rw [hf'] at files
      cases files
    | some f' =>
      rw [hf'] at files
      cases files with
      | some related => exact called f f' hf hf' related

variable {fs fs' : FileSystem} (serves : Serves fs 0 vol false) (serves' : Serves fs' 0 vol' false)
include serves serves'

/-- A change is answered alike. -/
theorem change_answersAlike (c : Change) (storable : Space.Storable c) :
    AnswersAlike vol vol' n n' (s.settle (s.system.run (fs.change c)))
      (s'.settle (s'.system.run (fs'.change c))) :=
  like.settle (change_alike serves serves' like.volumes _ _ (fun _ => .rfl) (fun _ => rfl) storable)

variable (based : Over fs vol s) (based' : Over fs' vol' s')
include based based'

/-- A request is answered alike. -/
theorem perform_alike (r : Request) :
    AnswersAlike vol vol' n n' (s.perform 0 r) (s'.perform 0 r) := by
  have settle := change_answersAlike like serves serves'
  cases r with
  | mkdir p mode =>
    rw [perform, perform, System.mkdir, System.mkdir, based.alone, based'.alone]
    exact settle (.mkdir p mode) trivial
  | unlink p =>
    rw [perform, perform, System.unlink, System.unlink, based.alone, based'.alone]
    exact settle (.unlink p) trivial
  | rmdir p =>
    rw [perform, perform, System.rmdir, System.rmdir, based.alone, based'.alone]
    exact settle (.rmdir p) trivial
  | rename source target =>
    rw [perform, perform, System.rename, System.rename, based.alone, based'.alone]
    exact settle (.rename source target) trivial
  | writeAll p data =>
    rw [perform, perform, System.writeAll, System.writeAll]
    rw [based.alone, based'.alone]
    exact like.settle
      (writeAll_alike serves serves' like.volumes (based.alone p) (based'.alone p) p data)
  | openFile h p flags mode =>
    rw [perform, perform, System.openFile, System.openFile, based.alone, based'.alone]
    exact like.hold h (openFile_alike serves serves' like.volumes p flags mode)
  | read h offset size =>
    exact like.withHandle fun f f' _ _ files _ _ => ⟨files.read offset size, like⟩
  | write h offset data =>
    refine like.withHandle fun f f' _ _ files => like.hold h ?_
    rw [Volumes.runOn_now_bind, Volumes.runOn_now_bind, Action.runOn_ofExcept,
      Action.runOn_ofExcept]
    exact fun _ _ => ⟨files.write offset data _ _, like.volumes.ticked⟩
  | truncate h size =>
    refine like.withHandle fun f f' _ _ files => like.hold h ?_
    rw [Volumes.runOn_now_bind, Volumes.runOn_now_bind, Action.runOn_ofExcept,
      Action.runOn_ofExcept]
    exact fun _ _ => ⟨files.truncate size _ _, like.volumes.ticked⟩
  | sync h =>
    refine like.withHandle fun f f' hf hf' files => like.hold h ?_
    rw [based.owned h f hf, based'.owned h f' hf', based.alone, based'.alone]
    exact sync_alike serves serves' like.volumes files
  | close h =>
    refine like.withHandle fun f f' hf hf' files => like.hold h ?_
    rw [based.owned h f hf, based'.owned h f' hf', based.alone, based'.alone]
    exact close_alike serves serves' like.volumes files

/-- Any number of requests leave related sessions. -/
theorem run_like (requests : List Request)
    (drawn : (s.run 0 requests).system.volumes.ambient.draws ≤ n)
    (drawn' : (s'.run 0 requests).system.volumes.ambient.draws ≤ n') :
    Like vol vol' n n' (s.run 0 requests) (s'.run 0 requests) := by
  induction requests generalizing s s' with
  | nil => exact like
  | cons r requests ih =>
    have first := based.perform serves r
    have first' := based'.perform serves' r
    have later := first.based.run serves requests
    have later' := first'.based.run serves' requests
    have next := perform_alike like serves serves' based based' r
      (Nat.le_trans later.only.draws drawn) (Nat.le_trans later'.only.draws drawn')
    exact ih next.2 first.based first'.based drawn drawn'

end

end Session

/-! ## What can be seen -/

/-- Two backends show the same at a path: the same kind, permissions and size, the same listing and
the same content, or the same absence of them. Permissions may differ at the root. -/
structure System.LooksLike (s s' : System) (p : Path) : Prop where
  stat :
    Alike (fun a a' => a.kind = a'.kind ∧ (p ≠ .root → a.perm &&& permMask = a'.perm &&& permMask) ∧
    (a.kind = .file → a.size = a'.size)) (s.stat 0 p) (s'.stat 0 p)
  readdir : Alike Eq (s.readdir 0 p) (s'.readdir 0 p)
  readAll : Alike Eq (s.readAll 0 p) (s'.readAll 0 p)

/-- The permissions that a backend reports for its root. -/
def System.rootPerm (s : System) : Except FsError UInt32 :=
  (s.stat 0 .root).map (·.perm &&& permMask)

namespace Session

variable {fs fs' : FileSystem} {vol vol' : Volume} {n n' : Nat} {s s' : Session}
variable (serves : Serves fs 0 vol false) (serves' : Serves fs' 0 vol' false)
variable (based : Over fs vol s) (based' : Over fs' vol' s') (like : Like vol vol' n n' s s')
include serves based

theorem Over.stats (p : Path) : (s.system.volumes.space vol).Stats p (s.system.stat 0 p) := by
  rw [System.stat, based.alone]
  exact serves.stat _ p based.sound

theorem Over.enumerates (p : Path) :
    (s.system.volumes.space vol).Enumerates p (s.system.readdir 0 p) := by
  rw [System.readdir, based.alone]
  exact serves.readdir _ p based.sound

theorem Over.reads (p : Path) : (s.system.volumes.space vol).Reads p (s.system.readAll 0 p) := by
  rw [System.readAll, based.alone]
  exact serves.readAll _ p based.sound

theorem Over.rootPerm {perm : UInt32}
    (root : s.system.volumes.space vol .root = some (.directory perm)) :
    s.system.rootPerm = .ok perm := by
  have stats := based.stats serves .root
  rw [System.rootPerm]
  generalize s.system.stat 0 .root = o at stats
  cases o with
  | error e => exact absurd (root.symm.trans stats) (by simp)
  | ok a =>
    obtain ⟨e, found, shows⟩ := stats
    cases root.symm.trans found
    exact congrArg Except.ok shows.perm

include serves' based' like

/-- Related sessions look the same. -/
theorem Like.looksLike (p : Path) : s.system.LooksLike s'.system p where
  stat := by
    have stats := based.stats serves p
    have stats' := based'.stats serves' p
    generalize s.system.stat 0 p = o at stats
    generalize s'.system.stat 0 p = o' at stats'
    have same := like.volumes.same
    match o, o' with
    | .error _, .error _ => trivial
    | .error _, .ok _ =>
      obtain ⟨e, found, -⟩ := stats'
      exact absurd ((same.eq_none stats).symm.trans found) nofun
    | .ok _, .error _ =>
      obtain ⟨e, found, -⟩ := stats
      exact absurd ((same.symm.eq_none stats').symm.trans found) nofun
    | .ok a, .ok a' =>
      obtain ⟨e, found, shows⟩ := stats
      obtain ⟨e', found', shows'⟩ := stats'
      obtain ⟨e'', found'', kind⟩ := same.kind found
      cases found''.symm.trans found'
      refine ⟨shows.kind.trans (kind.symm.trans shows'.kind.symm), fun nonroot => ?_,
        fun file => ?_⟩
      · cases found.symm.trans ((same.below p nonroot).trans found')
        exact shows.perm.trans shows'.perm.symm
      · -- Sizes are compared for files only, and the root is no file.
        have nonroot : p ≠ .root := fun top => by
          rw [top, like.volumes.root] at found
          cases found
          exact absurd (shows.kind.symm.trans file) nofun
        cases found.symm.trans ((same.below p nonroot).trans found')
        cases e with
        | directory perm => exact absurd (shows.kind.symm.trans file) nofun
        | file perm data =>
          have small := like.volumes.bounded p perm data found
          exact (shows.size data rfl small).trans (shows'.size data rfl small).symm
  readdir := by
    have lists := based.enumerates serves p
    have lists' := based'.enumerates serves' p
    generalize s.system.readdir 0 p = o at lists
    generalize s'.system.readdir 0 p = o' at lists'
    have same := like.volumes.same
    match o, o' with
    | .error _, .error _ => trivial
    | .error _, .ok _ => exact lists (same.symm.isDirectory lists'.1)
    | .ok _, .error _ => exact lists' (same.isDirectory lists.1)
    | .ok _, .ok _ => exact (same.lists lists.2).unique lists'.2
  readAll := by
    have reads := based.reads serves p
    have reads' := based'.reads serves' p
    generalize s.system.readAll 0 p = o at reads
    generalize s'.system.readAll 0 p = o' at reads'
    have same := like.volumes.same
    match o, o' with
    | .error _, .error _ => trivial
    | .error _, .ok data =>
      obtain ⟨perm, found⟩ := reads'
      exact reads (same.symm.isFile ⟨perm, data, found⟩)
    | .ok data, .error _ =>
      obtain ⟨perm, found⟩ := reads
      exact reads' (same.isFile ⟨perm, data, found⟩)
    | .ok data, .ok data' =>
      obtain ⟨perm, found⟩ := reads
      obtain ⟨perm', found'⟩ := reads'
      have nonroot : p ≠ .root := fun top => by
        rw [top, like.volumes.root] at found
        cases found
      cases found.symm.trans ((same.below p nonroot).trans found')
      rfl

/-! ## Fresh sessions -/

omit serves based serves' based' like

theorem over_memory (a : Ambient) :
    Over (.memory 0 0) (.tree 0) (fresh (System.empty a).addMemory) where
  alone := fun _ => fileSystem_memory rfl _
  sound := by
    show (setAt (fun _ => default) 0 (MemoryTree.new a.now) 0).Sound
    rw [setAt_self]
    exact MemoryTree.new_sound a.now
  owned := fun _ _ found => by cases found

theorem space_memory (a : Ambient) (p : Path) :
    (System.empty a).addMemory.volumes.space (.tree 0) p =
    if p = .root then some (.directory MemoryTree.rootPerm) else none := by
  show (setAt (fun _ => default) 0 (MemoryTree.new a.now) 0).space p = _
  rw [setAt_self, MemoryTree.new_space]

end Session

/-- A backend over an empty store that refuses nothing can be made. It has nothing but a root. -/
theorem Session.over_keyValue (a : Ambient) :
    ∃ s, (System.empty a).addKeyValue (.ofRecords ∅) false = .ok s ∧
      Over (.keyValue 0 0 false) (.store 0) (fresh s) ∧
      s.volumes.space (.store 0) = RecordTree.initialSpace ∧
      ∀ b, a.DrawsApart b → s.volumes.FreshAt b (.store 0) := by
  obtain ⟨t, F, made, h, space, fresh, -⟩ | ⟨e, -, refused⟩ :=
    (System.empty a).addKeyValue_cases (.ofRecords ∅) rfl false
  · let v := ((System.empty a).volumes.withRecords 0 (.ofRecords ∅)).committed 0 t
    have stored : v.stores 0 = t.store := Volumes.stores_committed ..
    refine ⟨_, made, ⟨fun _ => fileSystem_keyValue rfl _, ⟨F, ?_⟩, fun _ _ found => by cases found⟩,
      ?_, fun b apart => ?_⟩
    · show (v.stores 0).Represents F
      rwa [stored]
    · exact (Volumes.space_committed ..).trans (h.space_eq.trans space)
    · show Transaction.Fresh ⟨v.stores 0, t.ambient⟩ b
      rw [stored]
      exact fresh b ⟨fun _ => rfl, apart, fun _ _ _ => rfl⟩
  · exact absurd (fun _ => rfl) refused

/-- A fresh tree and a fresh store are related. -/
theorem Session.fresh_like {a : Ambient} {s' : System} {n n' : Nat}
    (sound : s'.volumes.SoundAt (.store 0))
    (space : s'.volumes.space (.store 0) = RecordTree.initialSpace)
    (new : s'.volumes.FreshAt n' (.store 0)) :
    Like (.tree 0) (.store 0) n n' (fresh (System.empty a).addMemory) (fresh s') where
  volumes :=
    { sound := (over_memory a).sound
      sound' := sound
      below := fun p nonroot => by
        show (System.empty a).addMemory.volumes.space (.tree 0) p = s'.volumes.space (.store 0) p
        rw [space_memory, space, RecordTree.initialSpace, if_neg nonroot, if_neg nonroot]
      root := (space_memory a .root).trans (if_pos rfl)
      root' := (congrFun space _).trans (if_pos rfl)
      bounded := fun p perm data found => by
        change (System.empty a).addMemory.volumes.space (.tree 0) p = _ at found
        rw [space_memory] at found
        split at found <;> cases found
      fresh := trivial
      fresh' := new }
  files := fun _ => .none

open Session in
/-- **Equivalence**: a fresh tree in memory and a fresh store of records look the same after any
requests, and answer the next one alike, if no id was drawn twice. Their roots keep the permissions
that they were made with. -/
theorem memory_keyValue_alike (a a' : Ambient) :
    ∃ s, (System.empty a').addKeyValue (.ofRecords ∅) false = .ok s ∧
      ∀ requests : List Request,
        let memory := (fresh (System.empty a).addMemory).run 0 requests
        let store := (fresh s).run 0 requests
        a'.DrawsApart store.system.volumes.ambient.draws →
          (∀ p, memory.system.LooksLike store.system p) ∧
          memory.system.rootPerm = .ok 0o755 ∧ store.system.rootPerm = .ok 0o777 ∧
          ∀ r, a'.DrawsApart (store.perform 0 r).2.system.volumes.ambient.draws →
            Alike Eq (memory.perform 0 r).1 (store.perform 0 r).1 := by
  obtain ⟨s, made, based', space, new⟩ := over_keyValue a'
  have based := over_memory a
  have serves := memory_serves 0 0
  have serves' := keyValue_serves 0 0 false
  refine ⟨s, made, ?_⟩
  intro requests memory store apart
  have later : GoesOn _ _ _ memory := based.run serves requests
  have later' : GoesOn _ _ _ store := based'.run serves' requests
  -- One relation holds up to any draw before which all ids are different.
  have related : ∀ {n n'}, memory.system.volumes.ambient.draws ≤ n →
      store.system.volumes.ambient.draws ≤ n' → a'.DrawsApart n' →
      Like (.tree 0) (.store 0) n n' memory store := fun drawn drawn' apart =>
    run_like (fresh_like based'.sound space (new _ apart)) serves serves' based based'
      requests drawn drawn'
  have like := related (Nat.le_refl _) (Nat.le_refl _) apart
  refine ⟨like.looksLike serves serves' later.based later'.based,
    later.based.rootPerm serves like.volumes.root, later'.based.rootPerm serves' like.volumes.root',
    fun r apart' => ?_⟩
  have next := later.based.perform serves r
  have next' := later'.based.perform serves' r
  have like' := related next.only.draws next'.only.draws apart'
  exact (perform_alike like' serves serves' later.based later'.based r (Nat.le_refl _)
    (Nat.le_refl _)).1

open Session in
/-- The two backends after a directory was made, a file written into it and the directory renamed,
and their answers to a request for the removal of the directory. -/
theorem memory_keyValue_alike_after_rename :
    ∃ s, (System.empty .counting).addKeyValue (.ofRecords ∅) false = .ok s ∧
      let requests :
      List Request := [.mkdir (.ofText "/d") 0o755, .writeAll (.ofText "/d/f") [104, 105],
        .rename (.ofText "/d") (.ofText "/e")]
      let memory := (fresh (System.empty .counting).addMemory).run 0 requests
      let store := (fresh s).run 0 requests
      (∀ p, memory.system.LooksLike store.system p) ∧
        Alike Eq (memory.perform 0 (.rmdir (.ofText "/e"))).1
          (store.perform 0 (.rmdir (.ofText "/e"))).1 := by
  obtain ⟨s, made, alike⟩ := memory_keyValue_alike .counting .counting
  have draws : ∀ s ∈ ((System.empty .counting).addKeyValue (.ofRecords ∅) false).toOption,
      let store :=
        (fresh s).run 0 [.mkdir (.ofText "/d") 0o755, .writeAll (.ofText "/d/f") [104, 105],
          .rename (.ofText "/d") (.ofText "/e")]
      store.system.volumes.ambient.draws ≤ 100 ∧
        (store.perform 0 (.rmdir (.ofText "/e"))).2.system.volumes.ambient.draws ≤ 100 := by
    decide +kernel
  obtain ⟨drawn, drawn'⟩ := draws s (by rw [made]; rfl)
  obtain ⟨looks, -, -, next⟩ := alike _ (Ambient.counting_drawsApart drawn)
  exact ⟨s, made, looks, next _ (Ambient.counting_drawsApart drawn')⟩

open Session in
/-- The roots of the two backends have different permissions, also after a
directory was made in both. -/
theorem fresh_roots_differ :
    ∃ s, (System.empty .counting).addKeyValue (.ofRecords ∅) false = .ok s ∧
      ((fresh (System.empty .counting).addMemory).run 0
        [.mkdir (.ofText "/d") 0o755]).system.rootPerm =
        .ok 0o755 ∧
      ((fresh s).run 0 [.mkdir (.ofText "/d") 0o755]).system.rootPerm = .ok 0o777 := by
  have perms : ((fresh (System.empty .counting).addMemory).run 0
        [.mkdir (.ofText "/d") 0o755]).system.rootPerm = .ok 0o755 ∧
      ∀ s ∈ ((System.empty .counting).addKeyValue (.ofRecords ∅) false).toOption,
        ((fresh s).run 0 [.mkdir (.ofText "/d") 0o755]).system.rootPerm = .ok 0o777 := by
    decide +kernel
  obtain ⟨s, made, -⟩ := Session.over_keyValue .counting
  exact ⟨s, made, perms.1, perms.2 s (by rw [made]; rfl)⟩

end MountSpace
