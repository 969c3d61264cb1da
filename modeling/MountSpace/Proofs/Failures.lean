import MountSpace.Proofs.Reachable
import MountSpace.Proofs.Session

/-!
# Changes of a store that fail

A store may refuse to add a record, and what it holds may be malformed. A change that fails for such
a reason, or for any other, has written nothing or has taken back what it wrote.

- `Succeeds`: an action that fails in no store.
- `FailsClean`: an action that leaves the records as they are wherever it fails.
- `failsClean_mkdir`, `failsClean_remove`, `failsClean_openFile`, `failsClean_sync`: changes that
  look before they write, whatever is stored.
- `failed_call_keeps_records`: calls to a backend over a store. Renaming writes one listing before
  it looks up the other, and clearing deletes as it goes; they need a store that is in order.
-/

namespace MountSpace

namespace StoreAction

variable {α β : Type}

/-! ## Actions that do not fail -/

/-- An action fails in no store. -/
def Succeeds (act : StoreAction α) : Prop := ∀ t, ∃ a t', act.runOn t = (.ok a, t')

theorem succeeds_pure (a : α) : Succeeds (pure a) := fun t => ⟨a, t, rfl⟩

theorem Succeeds.bind {act : StoreAction α} {f : α → StoreAction β} (h : Succeeds act)
    (hf : ∀ a, Succeeds (f a)) : Succeeds (act >>= f) := by
  intro t
  obtain ⟨a, t₁, hr⟩ := h t
  obtain ⟨b, t₂, hr'⟩ := hf a t₁
  exact ⟨b, t₂, (Action.runOn_bind_ok hr f).trans hr'⟩

/-- What cannot fail does not add to the failures of what it follows. -/
theorem runOn_bind_error_iff {act : StoreAction α} {f : α → StoreAction β}
    (hf : ∀ a, Succeeds (f a)) {t t' : Transaction} {e : FsError} :
    (act >>= f).runOn t = (.error e, t') ↔ act.runOn t = (.error e, t') := by
  refine ⟨fun failed => ?_, fun failed => Action.runOn_bind_error failed f⟩
  rw [Action.runOn_bind] at failed
  rcases hx : act.runOn t with ⟨e' | a, t₁⟩
  · rw [hx] at failed
    cases failed
    rfl
  · rw [hx] at failed
    obtain ⟨b, t₂, hb⟩ := hf a t₁
    cases hb.symm.trans failed

theorem Succeeds.ite {c : Prop} [Decidable c] {act act' : StoreAction α} (h : Succeeds act)
    (h' : Succeeds act') : Succeeds (if c then act else act') := by
  split
  · exact h
  · exact h'

theorem succeeds_now : Succeeds now := fun _ => ⟨_, _, rfl⟩

theorem succeeds_overwrite (key : String) (value : Bytes) : Succeeds (overwrite key value) :=
  fun _ => ⟨_, _, rfl⟩

theorem succeeds_delete (key : String) : Succeeds (delete key) := fun _ => ⟨_, _, rfl⟩

/-- A listing is written without leave of the store. -/
theorem succeeds_writeListing (id : String) (inode : Inode) (l : Listing) :
    Succeeds (writeListing id inode l) :=
  succeeds_now.bind fun _ => (succeeds_overwrite _ _).bind fun _ =>
    (succeeds_overwrite _ _).ite (succeeds_pure _)

theorem succeeds_deleteBoth (id : String) (inode : Inode) : Succeeds (deleteBoth id inode) :=
  (succeeds_delete _).bind fun _ => succeeds_delete _

/-! ## Actions that fail before they write -/

/-- Wherever an action fails, the records are as they were. -/
def FailsClean (act : StoreAction α) : Prop :=
  ∀ t e t', act.runOn t = (.error e, t') → t'.store.records = t.store.records

theorem failsClean_throw (e : FsError) : FailsClean (throw e : StoreAction α) := by
  intro t e' t' hr
  cases hr
  rfl

theorem Succeeds.failsClean {act : StoreAction α} (h : Succeeds act) : FailsClean act := by
  intro t e t' hr
  obtain ⟨a, t'', hr'⟩ := h t
  cases hr'.symm.trans hr

/-- What follows an action that may fail must not fail any more. -/
theorem FailsClean.bind {act : StoreAction α} {f : α → StoreAction β} (h : FailsClean act)
    (hf : ∀ a, Succeeds (f a)) : FailsClean (act >>= f) := fun t e t' hr =>
  h t e t' ((runOn_bind_error_iff hf).1 hr)

theorem FailsClean.discard {act : StoreAction α} (h : FailsClean act) : FailsClean (discard act) :=
  FailsClean.bind h fun _ => succeeds_pure _

theorem FailsClean.ite {c : Prop} [Decidable c] {act act' : StoreAction α} (h : FailsClean act)
    (h' : FailsClean act') : FailsClean (if c then act else act') := by
  split
  · exact h
  · exact h'

/-- An inquiry changes nothing, so that anything may follow that fails clean. -/
theorem failsClean_ask_bind {inquiry : RecordStore → Except FsError α} {f : α → StoreAction β}
    (hf : ∀ a, FailsClean (f a)) : FailsClean (ask inquiry >>= f) := by
  intro t e t' hr
  rw [runOn_ask_bind] at hr
  cases ha : inquiry t.store with
  | error e' =>
    rw [ha] at hr
    cases hr
    rfl
  | ok a =>
    rw [ha] at hr
    exact hf a t e t' hr

theorem failsClean_get_bind {f : Transaction → StoreAction β} (hf : ∀ t, FailsClean (f t)) :
    FailsClean (get >>= f) := fun t e t' hr => hf t t e t' hr

end StoreAction

/-! ## Changes of a tree of records -/

namespace RecordTree

open StoreAction

/-- The records of a new entry are taken back if one of them is refused. -/
theorem failsClean_addRecords (kind : FileKind) (perm : UInt32) (content : Bytes) :
    FailsClean (addRecords kind perm content) := by
  intro t e t' hr
  obtain ⟨t'', ⟨id, i, t₁, hr', -⟩ | ⟨e', hr', idle, -⟩⟩ := runOn_addRecords kind perm content t
  · cases hr'.symm.trans hr
  · cases hr'.symm.trans hr
    exact idle.records

theorem failsClean_addEntry (p : Path) (kind : FileKind) (perm : UInt32) (content : Bytes) :
    FailsClean (addEntry p kind perm content) := by
  rw [addEntry_eq]
  cases p.name? with
  | none => exact failsClean_throw _
  | some name =>
    refine failsClean_ask_bind fun dir => FailsClean.ite (failsClean_throw _) ?_
    exact (failsClean_addRecords kind perm content).bind fun r =>
      (succeeds_writeListing _ _ _).bind fun _ => succeeds_pure _

theorem failsClean_mkdir (p : Path) (mode : UInt32) : FailsClean (mkdir p mode) :=
  (failsClean_addEntry p .directory mode _).discard

theorem failsClean_remove (p : Path) (wanted : FileKind) : FailsClean (remove p wanted) := by
  unfold remove
  cases p.name? with
  | none => exact failsClean_throw _
  | some name =>
    refine failsClean_ask_bind fun dir => ?_
    cases dir.listing.get? name.text with
    | none => exact failsClean_throw _
    | some id =>
      refine failsClean_ask_bind fun inode => ?_
      -- Whatever kind is wanted, all that is left to do once it has been found cannot fail.
      have removal : Succeeds (do
          writeListing dir.id dir.inode (dir.listing.erase name.text)
          deleteBoth id inode) :=
        (succeeds_writeListing _ _ _).bind fun _ => succeeds_deleteBoth _ _
      cases wanted <;> cases inode.kind
      · exact removal.failsClean
      · exact failsClean_throw _
      · exact failsClean_throw _
      · exact failsClean_ask_bind fun l => FailsClean.ite removal.failsClean (failsClean_throw _)

theorem failsClean_openFile (p : Path) (flags : OpenFlags) (mode : UInt32) :
    FailsClean (openFile p flags mode) := by
  refine failsClean_get_bind fun t => ?_
  cases t.store.lookup p with
  | ok found =>
    refine FailsClean.ite (failsClean_throw _) (FailsClean.ite (failsClean_throw _) ?_)
    exact failsClean_ask_bind fun data => (succeeds_pure _).failsClean
  | error e =>
    refine FailsClean.ite ?_ (failsClean_throw e)
    exact (failsClean_addEntry p .file mode []).bind fun i => succeeds_pure _

theorem failsClean_sync (p : Path) (data : Bytes) (attr : FileAttr) :
    FailsClean (sync p data attr) := by
  refine failsClean_ask_bind fun found => FailsClean.ite (failsClean_throw _) ?_
  refine Succeeds.failsClean ((succeeds_overwrite _ _).bind fun _ => ?_)
  exact (succeeds_overwrite _ _).ite (succeeds_pure _)

/-- In a store that is in order a change that fails leaves the records as they are. -/
theorem change_failed {F : Slots} {t : Transaction} (h : t.store.Represents F) (c : Change)
    {e : FsError} {t' : Transaction} (hr : (change c).runOn t = (.error e, t')) :
    t'.store.records = t.store.records := by
  have performs := change_performs h c
  rw [hr] at performs
  exact performs.1.records

end RecordTree

/-! ## Calls to a backend over a store -/

namespace System

/-- A call that failed has left a store with the records that it had. -/
def KeptOnFailure {α : Type} (s : System) (store : Nat)
    (outcome : Except FsError α × System) : Prop :=
  outcome.1.isOk = false →
    (outcome.2.volumes.stores store).records = (s.volumes.stores store).records

variable {s : System} {b : BackendId} {store : Nat} {readOnly : Bool}

/-- Work on a store keeps what it finds when it fails, if it does so on the store as it is. -/
theorem keptOnFailure_withStore {α : Type} {act : StoreAction α}
    (clean : ∀ e t, act.runOn (s.volumes.transaction store) = (.error e, t) →
      t.store.records = (s.volumes.stores store).records) :
    s.KeptOnFailure store (s.run (Volumes.withStore store act)) := by
  intro failed
  rw [run, Volumes.runOn_withStore] at failed ⊢
  rcases hr : act.runOn (s.volumes.transaction store) with ⟨e | a, t⟩
  · rw [Volumes.stores_committed]
    exact clean e t hr
  · rw [hr] at failed
    cases failed

/-- A change through a backend is one of its store, or is refused. -/
theorem keptOnFailure_change (c : Change)
    (clean : ∀ e t, (RecordTree.change c).runOn (s.volumes.transaction store) = (.error e, t) →
      t.store.records = (s.volumes.stores store).records) :
    s.KeptOnFailure store (s.run ((FileSystem.keyValue b store readOnly).change c)) := by
  cases readOnly with
  | true =>
    intro _
    rw [run, keyValue_change, if_pos rfl]
  | false =>
    have run_eq : s.run ((FileSystem.keyValue b store false).change c) =
        s.run (Volumes.withStore store (RecordTree.change c)) := by
      rw [run, keyValue_change, if_neg Bool.false_ne_true]
      rfl
    rw [run_eq]
    exact keptOnFailure_withStore clean

theorem keptOnFailure_openFile (p : Path) (flags : OpenFlags) (mode : UInt32) :
    s.KeptOnFailure store
      (s.run ((FileSystem.keyValue b store readOnly).openFile p flags mode)) := by
  intro failed
  rw [run, keyValue_openFile] at failed ⊢
  by_cases closed : (readOnly && (flags.isWriteable || flags.create)) = true
  · rw [if_pos closed]
  rw [if_neg closed] at failed ⊢
  -- Once the file has been found or created, it is loaded, which cannot fail.
  rw [Action.runOn_bind, Volumes.runOn_withStore] at failed ⊢
  rcases hr : (RecordTree.openFile p flags mode).runOn (s.volumes.transaction store) with ⟨e | a, t⟩
  · dsimp only
    rw [Volumes.stores_committed]
    exact RecordTree.failsClean_openFile p flags mode _ e t hr
  · rw [hr] at failed
    cases failed

theorem keptOnFailure_emptyStore {F : Slots} (h : (s.volumes.stores store).Represents F) :
    s.KeptOnFailure store (s.run (emptyStore store readOnly)) := by
  cases readOnly with
  | true => exact fun _ => rfl
  | false =>
    obtain ⟨t, hr, -⟩ := RecordTree.clear_sound (t := s.volumes.transaction store) h
    show s.KeptOnFailure store (s.run (Volumes.withStore store RecordTree.clear))
    refine keptOnFailure_withStore fun e t' failed => ?_
    cases hr.symm.trans failed

/-- **Failing leaves no trace**: whatever a store holds, a call to a backend over it that makes or
removes an entry, opens a file or stores one keeps all records if it fails. In a system that can
come about the same is true of moving an entry and of emptying the store. -/
theorem failed_call_keeps_records (there : s.backends[b]? = some (.keyValue store readOnly)) :
    (∀ p mode, s.KeptOnFailure store (s.mkdir b p mode)) ∧
    (∀ p, s.KeptOnFailure store (s.unlink b p)) ∧
    (∀ p, s.KeptOnFailure store (s.rmdir b p)) ∧
    (∀ p flags mode, s.KeptOnFailure store (s.openFile b p flags mode)) ∧
    (∀ p data attr, s.KeptOnFailure store (s.sync b p data attr)) ∧
    (s.Reachable → (∀ source target, s.KeptOnFailure store (s.rename b source target)) ∧
      s.KeptOnFailure store (s.run (emptyStore store readOnly))) := by
  have backend : ∀ p, s.fileSystems p b = .keyValue b store readOnly := fun p =>
    fileSystem_keyValue there _
  refine ⟨fun p mode => ?_, fun p => ?_, fun p => ?_, fun p flags mode => ?_, fun p data attr => ?_,
    fun reachable => ?_⟩
  · rw [mkdir, backend]
    exact keptOnFailure_change (.mkdir p mode) fun e t => RecordTree.failsClean_mkdir p mode _ e t
  · rw [unlink, backend]
    exact keptOnFailure_change (.unlink p) fun e t => RecordTree.failsClean_remove p .file _ e t
  · rw [rmdir, backend]
    exact keptOnFailure_change (.rmdir p) fun e t => RecordTree.failsClean_remove p .directory _ e t
  · rw [openFile, backend]
    exact keptOnFailure_openFile p flags mode
  · rw [sync, backend]
    exact keptOnFailure_change (.sync p data attr) fun e t =>
      RecordTree.failsClean_sync p data attr _ e t
  · obtain ⟨F, h⟩ : s.volumes.SoundAt (.store store) :=
      reachable.inOrder.volumes.sound b _ _ there rfl
    refine ⟨fun source target => ?_, keptOnFailure_emptyStore h⟩
    rw [rename, backend]
    exact keptOnFailure_change (.rename source target) fun e t =>
      RecordTree.change_failed (t := s.volumes.transaction store) h (.rename source target)

/-- A store that refuses its third addition, of an inode whose content it has taken: the content is
deleted again. The store also keeps its records when something is moved that is not there. -/
theorem refused_directory_keeps_records :
    ∃ s, (System.empty .counting).addKeyValue ⟨∅, fun n => n = 3, 0, []⟩ false = .ok s ∧
      ((s.mkdir 0 (.ofText "/d") 0o755).2.volumes.stores 0).journal.take 3 =
        [.delete "00000000-0000-0000-0000-000000000001",
          .put "00000000-0000-0000-0000-000000000002" false false,
          .put "00000000-0000-0000-0000-000000000001" false true] ∧
      ((s.mkdir 0 (.ofText "/d") 0o755).2.volumes.stores 0).records = (s.volumes.stores 0).records ∧
      (s.rename 0 (.ofText "/d") (.ofText "/e")).1.isOk = false ∧
      ((s.rename 0 (.ofText "/d") (.ofText "/e")).2.volumes.stores 0).records =
        (s.volumes.stores 0).records := by
  have evaluated :
    ∀ s ∈ ((System.empty .counting).addKeyValue ⟨∅, fun n => n = 3, 0, []⟩ false).toOption,
      (s.mkdir 0 (.ofText "/d") 0o755).1.isOk = false ∧
      ((s.mkdir 0 (.ofText "/d") 0o755).2.volumes.stores 0).journal.take 3 =
        [.delete "00000000-0000-0000-0000-000000000001",
          .put "00000000-0000-0000-0000-000000000002" false false,
          .put "00000000-0000-0000-0000-000000000001" false true] ∧
      (s.rename 0 (.ofText "/d") (.ofText "/e")).1.isOk = false := by
    decide +kernel
  obtain ⟨t, F, made, -⟩ | ⟨e, failed, -⟩ := (System.empty .counting).addKeyValue_cases
    ⟨∅, fun n => n = 3, 0, []⟩ rfl false
  case inr =>
    have some :
        ((System.empty .counting).addKeyValue ⟨∅, fun n => n = 3, 0, []⟩ false).isOk = true := by
      decide +kernel
    rw [failed] at some
    cases some
  generalize System.add _ _ = s at made
  obtain ⟨unmade, journal, unmoved⟩ := evaluated s (by rw [made]; rfl)
  have reached := (Reached.empty .counting).addKeyValue rfl made
  obtain ⟨keptMkdir, -, -, -, -, inOrder⟩ := failed_call_keeps_records (reached.at' (b := 0) rfl)
  have keptRename := (inOrder reached.reachable).1
  exact ⟨s, made, journal, keptMkdir _ _ unmade, unmoved, keptRename _ _ unmoved⟩

end System

end MountSpace
