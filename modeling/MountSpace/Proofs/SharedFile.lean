import MountSpace.Proofs.Frames
import MountSpace.Proofs.Session
import MountSpace.Proofs.UnwriteableFiles

/-!
# Several holders of one file

Everyone who opens a file gets a buffer. Whatever the holders do, and in whatever order, the file is
never made of two buffers: it has the whole content that was stored last, and storing an unchanged
buffer stores nothing.

- `Request.Spares`: a request leaves a path to those who hold the file open.
- `Request.stored?`, `Session.completed`, `Session.allCompleted`: the changed buffers
  that are stored at a path.
- `Volumes.HasFile`: a volume has a file with some content. Calls elsewhere keep it so, and so does
  opening the file once more.
- `Session.Shares`, `Shares.perform`, `Shares.run`: what the file holds after one
  request, and after any number.
- `last_stored_buffer_wins`: all of it, for every backend over a tree or over a store.
-/

namespace MountSpace

/-! ## What is stored -/

namespace Request

/-- A request concerns a path through an open file only, or by opening the file: whatever else it
changes lies elsewhere. -/
def Spares (p : Path) : Request → Prop
  | .mkdir q _ => q ≠ p
  | .unlink q => q ≠ p
  | .rmdir q => ¬q.isPrefixOf p = true
  | .rename source target => ¬source.isPrefixOf p = true ∧ ¬target.isPrefixOf p = true
  | .writeAll q _ => q ≠ p
  | _ => True

/-- The number of the open file that is stored. -/
def stored? : Request → Option Nat
  | .sync n => some n
  | .close n => some n
  | _ => none

theorem sync_or_close {r : Request} {n : Nat} (stores : r.stored? = some n) :
    r = .sync n ∨ r = .close n := by
  cases r with
  | sync m =>
    cases stores
    exact .inl rfl
  | close m =>
    cases stores
    exact .inr rfl
  | _ => cases stores

end Request

namespace Session

variable (b : BackendId) (p : Path) (s : Session)

/-- The buffer that a request stores at a path: the request is one to store an open file, the file
belongs there and has changed, and the request completes. -/
def completed (r : Request) : Option Bytes :=
  r.stored?.bind fun n => (s.handles n).bind fun f =>
    if Path.ofBytes f.path = p ∧ f.dirty = true ∧ (s.perform b r).1.isOk = true
      then some f.data else none

/-- The buffers that requests store at a path, one after the other. -/
def allCompleted (s : Session) : List Request → List Bytes
  | [] => []
  | r :: requests => (s.completed b p r).toList ++ allCompleted (s.perform b r).2 requests

variable {s} {n : Nat} {f : OpenFile} {r : Request}

theorem isOk_hold (outcome : Except FsError OpenFile × System) :
    (s.hold n outcome).1.isOk = outcome.1.isOk := by
  obtain ⟨_ | _, _⟩ := outcome <;> rfl

theorem system_hold (outcome : Except FsError OpenFile × System) :
    (s.hold n outcome).2.system = outcome.2 := by
  obtain ⟨_ | _, _⟩ := outcome <;> rfl

/-- Giving a file up does to the system what storing it does, and completes where that does. -/
theorem perform_stored (stores : r.stored? = some n) (held : s.handles n = some f) :
    (s.perform b r).1.isOk = (s.system.syncFile f).1.isOk ∧
      (s.perform b r).2.system = (s.system.syncFile f).2 := by
  obtain rfl | rfl := Request.sync_or_close stores
  · rw [perform, withHandle, held]
    exact ⟨isOk_hold _, system_hold _⟩
  · rw [perform, withHandle, held]
    dsimp only
    rw [isOk_hold, system_hold, System.closeFile_eq, Except.isOk_map]
    exact ⟨rfl, rfl⟩

/-- A request to store a file that is held and has changed is known by what becomes of it. -/
theorem completed_eq (stores : r.stored? = some n) (held : s.handles n = some f) :
    s.completed b p r =
    if Path.ofBytes f.path = p ∧ f.dirty = true ∧ (s.system.syncFile f).1.isOk = true
      then some f.data else none := by
  rw [completed, stores, Option.bind_some, held, Option.bind_some, (perform_stored b stores held).1]

end Session

/-! ## A volume with a file -/

/-- A volume is in order and has a file with some content. -/
structure Volumes.HasFile (vol : Volume) (p : Path) (content : Bytes) (v : Volumes) : Prop where
  sound : v.SoundAt vol
  found : ∃ perm, v.space vol p = some (.file perm content)

section

variable {fs : FileSystem} {b : BackendId} {vol : Volume} {readOnly : Bool} {v : Volumes}
variable {p : Path} {content : Bytes}

theorem Volumes.HasFile.ticked (h : v.HasFile vol p content) : v.ticked.HasFile vol p content where
  sound := (v.changesOnly_ticked vol).sound h.sound
  found := by
    rw [space_ticked]
    exact h.found

/-- Calls elsewhere keep the file, if nothing above it is cleared away, and open no file
that belongs there. -/
theorem Serves.keepsAt_hasFile (serves : Serves fs b vol readOnly) :
    fs.KeepsAt (Volumes.HasFile vol p content) (· ≠ p) (fun q => ¬q.isPrefixOf p = true)
      fun f => f.owner = b ∧ Path.ofBytes f.path ≠ p :=
  serves.keepsAt (fun _ h => h.sound)
    (fun v v' h only step => by
      refine ⟨only.sound h.sound, ?_⟩
      rw [step.same (fun no => no rfl) fun _ clear => clear]
      exact h.found)
    fun f own elsewhere => ⟨own, elsewhere⟩

/-- Opening a file keeps the content of every file that is there, of the one that is opened, too. -/
theorem Serves.yields_openFile (serves : Serves fs b vol readOnly) (q : Path) (flags : OpenFlags)
    (mode : UInt32) :
    Action.Yields (Volumes.HasFile vol p content) (fun f => f.owner = b)
      (fs.openFile q flags mode) := by
  intro v h
  by_cases elsewhere : q ≠ p
  · obtain ⟨kept, held⟩ := serves.keepsAt_hasFile.openFile q flags mode elsewhere v h
    exact ⟨kept, fun f opened => (held f opened).1⟩
  · cases Classical.not_not.1 elsewhere
    have settles := serves.openFile v p flags mode h.sound
    generalize (fs.openFile p flags mode).runOn v = r at settles ⊢
    obtain ⟨e | f, v'⟩ := r
    · obtain ⟨only, same, -⟩ := settles
      refine ⟨⟨only.sound h.sound, ?_⟩, fun f opened => ?_⟩
      · rw [same]
        exact h.found
      · cases opened
    · obtain ⟨only, -, -, after, perm, data, attr, now, -, -, rfl⟩ := settles
      obtain ⟨perm', there⟩ := h.found
      have taken : v.space vol p ≠ none := there ▸ Option.some_ne_none _
      refine ⟨⟨only.sound h.sound, ?_⟩, fun f opened => ?_⟩
      · rw [after, Space.opened_taken taken]
        exact h.found
      · cases opened
        exact OpenFile.owner_load ..

/-- Storing content at the path of the file replaces the content, or keeps it if
nothing may be stored. -/
theorem Serves.sync_hasFile (serves : Serves fs b vol readOnly) (h : v.HasFile vol p content)
    (data : Bytes) (attr : FileAttr) : ((fs.sync p data attr).runOn v).2.HasFile vol p
      (if ((fs.sync p data attr).runOn v).1.isOk = true then data else content) ∧
    (readOnly = false → ((fs.sync p data attr).runOn v).1.isOk = true) := by
  have settles : Settles vol readOnly (.sync p data attr) v ((fs.sync p data attr).runOn v) :=
    serves.change v (.sync p data attr) h.sound
  generalize (fs.sync p data attr).runOn v = r at settles ⊢
  obtain ⟨e | _, v'⟩ := r
  · obtain ⟨only, same, refused⟩ := settles
    refine ⟨⟨only.sound h.sound, same ▸ h.found⟩, fun writeable => ?_⟩
    obtain ⟨perm, there⟩ := h.found
    exact absurd ⟨perm, content, there⟩ (refused writeable (.inr rfl))
  · obtain ⟨only, -, -, after⟩ := settles
    refine ⟨⟨only.sound h.sound, attr.perm &&& permMask, ?_⟩, fun _ => rfl⟩
    rw [after]
    exact Space.put_self p _

end

/-! ## A session whose files share a path -/

namespace Session

/-- Every file that is open belongs to one backend, whose volume has a file with some content. -/
structure Shares (backends : List Backend) (b : BackendId) (vol : Volume) (p : Path)
    (content : Bytes) (s : Session) : Prop where
  same : s.system.backends = backends
  volumes : s.system.volumes.HasFile vol p content
  owned : ∀ n f, s.handles n = some f → f.owner = b

namespace Shares

variable {backends : List Backend} {b : BackendId} {vol : Volume} {readOnly : Bool} {p : Path}
variable {content content' : Bytes} {s : Session}

theorem settle (h : s.Shares backends b vol p content) {act : Action Volumes Unit}
    (keeps : Action.Keeps (Volumes.HasFile vol p content) act) :
    (s.settle (s.system.run act)).2.Shares backends b vol p content :=
  ⟨h.same, keeps _ h.volumes, h.owned⟩

/-- A file that is given a number belongs to the backend like the others. -/
theorem hold (h : s.Shares backends b vol p content) (n : Nat)
    {outcome : Except FsError OpenFile × System} (same : outcome.2.backends = s.system.backends)
    (kept : outcome.2.volumes.HasFile vol p content') (own : ∀ f, outcome.1 = .ok f → f.owner = b) :
    (s.hold n outcome).2.Shares backends b vol p content' := by
  obtain ⟨e | f, system⟩ := outcome
  · exact ⟨same.trans h.same, kept, h.owned⟩
  · refine ⟨same.trans h.same, kept, fun k g found => ?_⟩
    change setAt s.handles n (some f) k = some g at found
    by_cases e : k = n
    · rw [e, setAt_self] at found
      cases found
      exact own _ rfl
    · rw [setAt_other _ _ e] at found
      exact h.owned k g found

theorem withHandle (h : s.Shares backends b vol p content) {n : Nat}
    {call : OpenFile → Except FsError Bytes × Session}
    (called : ∀ f, s.handles n = some f → (call f).2.Shares backends b vol p content) :
    (s.withHandle n call).2.Shares backends b vol p content := by
  rw [Session.withHandle]
  cases hf : s.handles n with
  | none => exact h
  | some f => exact called f hf

variable (serves : ∀ hops, Serves (fileSystem backends hops b) b vol readOnly)
include serves

/-- Storing an open file replaces the content if the file belongs there, has
changed and is stored. -/
theorem syncFile (h : s.Shares backends b vol p content) {f : OpenFile} (own : f.owner = b) :
    (s.system.syncFile f).2.volumes.HasFile vol p
      (if Path.ofBytes f.path = p ∧ f.dirty = true ∧ (s.system.syncFile f).1.isOk = true then f.data
        else content) := by
  rw [System.syncFile_eq]
  cases f.closed with
  | true => simpa [Except.isOk, Except.toBool] using h.volumes
  | false =>
    cases f.dirty with
    | false => simpa using h.volumes
    | true =>
      simp only [Bool.false_eq_true, if_false, if_true, true_and, Except.isOk_map]
      rw [own, System.sync, System.fileSystems, h.same, System.run]
      by_cases here : Path.ofBytes f.path = p
      · rw [here]
        simpa using ((serves _).sync_hasFile h.volumes f.data f.attr).1
      · rw [if_neg fun both => here both.1]
        exact (serves _).keepsAt_hasFile.change (.sync _ f.data f.attr) here _ h.volumes

/-- A request to store an open file, which may be given up with it. -/
theorem store (h : s.Shares backends b vol p content) {r : Request} {n : Nat}
    (stores : r.stored? = some n) :
    (s.perform b r).2.Shares backends b vol p ((s.completed b p r).getD content) := by
  cases hf : s.handles n with
  | none =>
    obtain rfl | rfl := Request.sync_or_close stores <;>
      simpa [Session.perform, Session.withHandle, Session.completed, Request.stored?, hf] using h
  | some f =>
    have own := h.owned n f hf
    have kept := h.syncFile serves own
    have known : (s.completed b p r).getD content = if Path.ofBytes f.path = p ∧ f.dirty = true ∧
        (s.system.syncFile f).1.isOk = true then f.data else content := by
      rw [s.completed_eq b p stores hf]
      split <;> rfl
    rw [known]
    obtain rfl | rfl := Request.sync_or_close stores
    · rw [Session.perform, Session.withHandle, hf]
      refine h.hold n rfl kept fun f' stored => ?_
      rw [System.syncFile_ok stored]
      exact own
    · rw [Session.perform, Session.withHandle, hf]
      dsimp only
      rw [System.closeFile_eq]
      refine h.hold n rfl kept fun f' stored => ?_
      cases hs : (s.system.syncFile f).1 with
      | error e =>
        rw [hs] at stored
        cases stored
      | ok f₁ =>
        rw [hs] at stored
        cases stored
        rw [System.syncFile_ok hs]
        exact own

/-- One request leaves the content that it stores at the path, or the one that was there. -/
theorem perform (h : s.Shares backends b vol p content) {r : Request} (spared : r.Spares p) :
    (s.perform b r).2.Shares backends b vol p ((s.completed b p r).getD content) := by
  have asked : ∀ q, Serves (s.system.fileSystems q b) b vol readOnly := fun q => by
    rw [System.fileSystems, h.same]
    exact serves _
  have now : Action.Keeps (Volumes.HasFile vol p content) Volumes.now :=
    Volumes.keeps_now fun _ h => h.ticked
  cases r with
  | mkdir q mode => exact h.settle ((asked q).keepsAt_hasFile.change (.mkdir q mode) spared)
  | unlink q => exact h.settle ((asked q).keepsAt_hasFile.change (.unlink q) spared)
  | rmdir q => exact h.settle ((asked q).keepsAt_hasFile.change (.rmdir q) spared)
  | rename source target =>
    exact h.settle ((asked _).keepsAt_hasFile.change (.rename source target) spared)
  | writeAll q data =>
    refine h.settle (FileSystem.keeps_writeAll (asked q).keepsAt_hasFile
      (fun f held data attr => ?_) (fun _ h => h.ticked) spared data)
    rw [held.1]
    exact (asked q).keepsAt_hasFile.change (.sync _ data attr) held.2
  | openFile n q flags mode =>
    obtain ⟨kept, own⟩ := (asked q).yields_openFile q flags mode _ h.volumes
    exact h.hold n rfl kept own
  -- The other requests are about an open file, and only those to store it reach the volume.
  | read n offset size => exact h.withHandle fun f _ => h
  | write n offset data =>
    refine h.withHandle fun f hf =>
      h.hold n rfl ((now.bind fun _ => Action.keeps_ofExcept _) _ h.volumes) fun f' written => ?_
    rw [System.write, System.run, Volumes.runOn_now_bind, Action.runOn_ofExcept] at written
    exact (OpenFile.write_owner written).trans (h.owned n f hf)
  | truncate n size =>
    refine h.withHandle fun f hf =>
      h.hold n rfl ((now.bind fun _ => Action.keeps_ofExcept _) _ h.volumes) fun f' cut => ?_
    rw [System.truncate, System.run, Volumes.runOn_now_bind, Action.runOn_ofExcept] at cut
    exact (OpenFile.truncate_owner cut).trans (h.owned n f hf)
  | sync n => exact h.store serves rfl
  | close n => exact h.store serves rfl

/-- Any number of requests leave the content that was stored last, or the one that was there. -/
theorem run (h : s.Shares backends b vol p content) {requests : List Request}
    (spared : ∀ r ∈ requests, r.Spares p) : (s.run b requests).Shares backends b vol p
      ((s.allCompleted b p requests).getLast?.getD content) := by
  induction requests generalizing s content with
  | nil => exact h
  | cons r requests ih =>
    have next := ih (h.perform serves (spared r List.mem_cons_self)) fun r' mem =>
      spared r' (List.mem_cons_of_mem r mem)
    have last : ((s.allCompleted b p (r :: requests)).getLast?.getD content) =
        ((s.perform b r).2.allCompleted b p requests).getLast?.getD
          ((s.completed b p r).getD content) := by
      rw [allCompleted, List.getLast?_append]
      cases ((s.perform b r).2.allCompleted b p requests).getLast? with
      | some data => rfl
      | none => cases s.completed b p r <;> rfl
    rw [last]
    exact next

/-- What the file holds can be read. -/
theorem reads (h : s.Shares backends b vol p content) : s.system.readAll b p = .ok content := by
  obtain ⟨perm, there⟩ := h.volumes.found
  rw [System.readAll, System.fileSystems, h.same]
  exact ((serves _).readAll _ p h.volumes.sound).of_file there

/-- Whoever holds the file can store it, unless the backend may not be changed. -/
theorem completes (h : s.Shares backends b vol p content) (writeable : readOnly = false)
    {r : Request} {n : Nat} {f : OpenFile} (stores : r.stored? = some n)
    (held : s.handles n = some f) (here : Path.ofBytes f.path = p) (isOpen : f.closed = false) :
    (s.perform b r).1.isOk = true := by
  rw [(perform_stored b stores held).1, System.syncFile_isOk]
  refine ⟨isOpen, fun _ => ?_⟩
  rw [here, h.owned n f held, System.sync, System.fileSystems, h.same, System.run]
  exact ((serves _).sync_hasFile h.volumes f.data f.attr).2 writeable

end Shares

variable {s : Session} {b : BackendId} {p : Path}

end Session

end MountSpace
