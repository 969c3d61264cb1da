import MountSpace.Proofs.Descent

/-!
# Emptying a backend over a store

- `clear_error_iff`: clearing fails as deleting the root and everything below it does.
- `emptying_endless_iff`: in which accepted stores emptying has no end.
- `failed_emptying_unchanged_iff`: when emptying that fails has deleted nothing.
- `Reachable.emptied`: what it leaves of a store that was empty to begin with.
-/

namespace MountSpace

/-- The start of the deletion of everything. -/
def Visit.start (t : Transaction) : Visit := ⟨t, rootKey⟩

namespace RecordTree

open StoreAction RecordStore

variable {t t' : Transaction} {e : FsError}

/-- Clearing fails as deleting the root does. That it would go too far then makes no difference. -/
theorem clear_error_iff (accepted : t.store.Accepted) : clear.runOn t = (.error e, t') ↔
    (deleteEntry (enoughLevels t.store) rootKey).runOn t = (.error e, t') := by
  obtain ⟨root, hi, dir⟩ := accepted
  rw [clear, runOn_ask_bind, hi]
  dsimp only
  rw [Action.runOn_get_bind, runOn_bind_error_iff fun _ => succeeds_writeListing rootKey root ∅,
    runOn_deleteEntry_directory hi dir, runOn_bind_error_iff fun _ =>
      succeeds_deleteBoth rootKey root]

theorem clear_endless_iff (accepted : t.store.Accepted) :
    (clear.runOn t).1 = .error .endless ↔ (Visit.start t).Endless (enoughLevels t.store) := by
  rw [Visit.endless_iff]
  constructor
  · exact fun endless => ⟨_, (clear_error_iff accepted).1 (Prod.ext endless rfl)⟩
  · rintro ⟨t', failed⟩
    exact congrArg Prod.fst ((clear_error_iff accepted).2 failed)

end RecordTree

namespace System

open RecordStore RecordTree Relation

variable {s s' : System} {store : Nat} {readOnly : Bool}

/-- Emptying a backend that may be changed clears its store. -/
theorem run_emptyStore (s : System) (store : Nat) :
    s.run (emptyStore store false) = ((clear.runOn (s.volumes.transaction store)).1,
      ⟨s.backends, s.volumes.committed store (clear.runOn (s.volumes.transaction store)).2⟩) := rfl

/-- Emptying fails as deleting the root of the store does, unless it is refused. -/
theorem emptyStore_error_cases {e : FsError} (accepted : (s.volumes.stores store).Accepted)
    (failed : s.run (emptyStore store readOnly) = (.error e, s')) :
    readOnly = true ∧ e = .readOnly ∧ s' = s ∨
      readOnly = false ∧ (deleteEntry (enoughLevels (s.volumes.stores store)) rootKey).runOn
        (s.volumes.transaction store) = (.error e, s'.volumes.transaction store) := by
  cases readOnly with
  | true =>
    cases failed
    exact .inl ⟨rfl, rfl, rfl⟩
  | false =>
    rw [run_emptyStore] at failed
    refine .inr ⟨rfl, (clear_error_iff (t := s.volumes.transaction store) accepted).1 ?_⟩
    rcases hr : clear.runOn (s.volumes.transaction store) with ⟨r, t⟩
    rw [hr] at failed
    cases failed
    rw [Volumes.transaction_committed]

/-! ## Emptying without end -/

/-- **Emptying that has no end**: whatever else an accepted store holds, emptying it goes on for
ever, whatever number of levels it may go down, exactly if it comes at some point to a directory
whose first entries lead back to it. So it has an end wherever no directory that is reached from the
root leads back to itself. -/
theorem emptying_endless_iff (accepted : (s.volumes.stores store).Accepted) :
    ((s.run (emptyStore store readOnly)).1 = .error .endless ↔
      readOnly = false ∧ ∀ levels, (Visit.start (s.volumes.transaction store)).Endless levels) ∧
    ((s.run (emptyStore store readOnly)).1 = .error .endless ↔
      readOnly = false ∧ ∃ v, ReflTransGen Visit.Descends (.start (s.volumes.transaction store)) v ∧
        TransGen v.store.FirstEntry v.id v.id) ∧
    ((∀ id, (s.volumes.stores store).Reaches id → ¬TransGen (s.volumes.stores store).Names id id) →
      (s.run (emptyStore store readOnly)).1 ≠ .error .endless) := by
  -- All is told by whether the levels that are given are enough.
  have enough : (s.run (emptyStore store readOnly)).1 = .error .endless ↔ readOnly = false ∧
      (Visit.start (s.volumes.transaction store)).Endless
        (enoughLevels (s.volumes.stores store)) := by
    cases readOnly with
    | true => exact ⟨nofun, nofun⟩
    | false =>
      have clears := clear_endless_iff (t := s.volumes.transaction store) accepted
      exact clears.trans ⟨fun endless => ⟨rfl, endless⟩, And.right⟩
  have circle := Visit.endless_iff_circle (v := .start (s.volumes.transaction store))
  refine ⟨enough.trans (and_congr_right fun _ => ⟨fun endless => ?_, fun endless => endless _⟩),
    enough.trans (and_congr_right fun _ => circle), fun acyclic endless => ?_⟩
  · obtain ⟨v, below, circle⟩ := circle.1 endless
    exact Visit.endless_of_circle below circle
  · obtain ⟨v, below, circle⟩ := circle.1 (enough.1 endless).2
    obtain ⟨id, reached, circle⟩ := Visit.circle_below below circle .root
    exact acyclic id reached circle

/-- A root that names a file and then some id, and other records. -/
def fileBefore (id : String) (others : List (String × Bytes)) : RecordStore :=
  .rooted [("a", "i1"), ("b", id)] (("i1", Inode.bare "c1" 0o100644) ::
    ("c1", [97, 98, 99]) :: others)

/-- A directory that names itself, with a file before it in the root: emptying never ends. If it is
the root that names itself behind the file, emptying ends when it comes to the file once more. -/
theorem emptying_endless_iff_behind_file :
    (∃ s, (System.empty .counting).addKeyValue (fileBefore "i2" [("i2", Inode.bare "c2" 0o40755),
        ("c2", Listing.encode (.ofList [("x", "i2")]))]) false = .ok s ∧
      ∀ levels, (Visit.start (s.volumes.transaction 0)).Endless levels) ∧
    ∃ s, (System.empty .counting).addKeyValue (fileBefore "/" []) false = .ok s ∧
      ¬∃ v, ReflTransGen Visit.Descends (.start (s.volumes.transaction 0)) v ∧
        TransGen v.store.FirstEntry v.id v.id := by
  constructor
  · obtain ⟨s, made, endless⟩ := Except.exists_ok
      (x := (System.empty .counting).addKeyValue (fileBefore "i2" [("i2", Inode.bare "c2" 0o40755),
        ("c2", Listing.encode (.ofList [("x", "i2")]))]) false)
      (P := fun s => (s.run (emptyStore 0 false)).1 = .error .endless) (by decide +kernel)
        (by decide +kernel)
    obtain ⟨accepted, stored, -⟩ := addKeyValue_rooted (by decide +kernel) made
    exact ⟨s, made, ((emptying_endless_iff (stored ▸ accepted)).1.1 endless).2⟩
  · obtain ⟨s, made, ends⟩ := Except.exists_ok
      (x := (System.empty .counting).addKeyValue (fileBefore "/" []) false)
      (P := fun s => (s.run (emptyStore 0 false)).1 ≠ .error .endless) (by decide +kernel)
      (by decide +kernel)
    obtain ⟨accepted, stored, -⟩ := addKeyValue_rooted (by decide +kernel) made
    refine ⟨s, made, fun circle => ends ?_⟩
    exact (emptying_endless_iff (stored ▸ accepted)).2.1.2 ⟨rfl, circle⟩

/-- Emptying a store whose root names itself never ends. -/
theorem emptying_root_in_itself_endless :
    ∃ s, (System.empty .counting).addKeyValue (.rooted [("a", "/")] []) false = .ok s ∧
      (s.volumes.stores 0).Accepted ∧
      ∀ levels, (Visit.start (s.volumes.transaction 0)).Endless levels := by
  obtain ⟨s, made, endless⟩ := Except.exists_ok
    (x := (System.empty .counting).addKeyValue (.rooted [("a", "/")] []) false)
    (P := fun s => (s.run (emptyStore 0 false)).1 = .error .endless) (by decide +kernel)
    (by decide +kernel)
  obtain ⟨accepted, stored, -⟩ := addKeyValue_rooted (by decide +kernel) made
  have accepted : (s.volumes.stores 0).Accepted := stored ▸ accepted
  obtain ⟨v, below, circle⟩ := Visit.exists_circle
    ((clear_endless_iff (t := s.volumes.transaction 0) accepted).1 endless)
  exact ⟨s, made, accepted, Visit.endless_of_circle below circle⟩

/-! ## Emptying that fails -/

/-- **Emptying that fails** deletes records and changes none. It deletes nothing exactly if the
backend may not be changed or the first entries lead from the root to a record that cannot be read.
Then every file that could be read still can be. -/
theorem failed_emptying_unchanged_iff {e : FsError} (accepted : (s.volumes.stores store).Accepted)
    (failed : s.run (emptyStore store readOnly) = (.error e, s')) (ends : e ≠ .endless) :
    (s'.volumes.stores store).PartOf (s.volumes.stores store) ∧
    ((s'.volumes.stores store).records = (s.volumes.stores store).records ↔ readOnly = true ∨
      ∃ id, ReflTransGen (s.volumes.stores store).FirstEntry rootKey id ∧
        ∃ e, (s.volumes.stores store).Fails id e) ∧
    ((s'.volumes.stores store).records = (s.volumes.stores store).records → ∀ p data,
      RecordTree.readAll (s.volumes.stores store) p = .ok data →
        RecordTree.readAll (s'.volumes.stores store) p = .ok data) := by
  refine ⟨?_, ?_, fun same p data => PartOf.readAll fun k bytes hk => ?_⟩
  · rcases emptyStore_error_cases accepted failed with ⟨-, -, rfl⟩ | ⟨-, failed⟩
    · exact .refl _
    · exact partOf_of_deleteEntry failed
  · rcases emptyStore_error_cases accepted failed with ⟨closed, -, rfl⟩ | ⟨writable, failed⟩
    · exact ⟨fun _ => .inl closed, fun _ => rfl⟩
    · refine (deleteEntry_unchanged_iff failed ends).trans ⟨.inr, fun h =>
        h.resolve_left fun closed => ?_⟩
      cases writable.symm.trans closed
  · rwa [RecordStore.get?, same]

/-- A root whose first entry is for an id without a record, with a file after it. -/
def danglingFirst : RecordStore :=
  .rooted [("a", "gone"), ("f", "i1")] [("i1", Inode.bare "c1" 0o100644), ("c1", [97, 98, 99])]

/-- Emptying it fails on the first entry, so that the file can still be read. -/
theorem failed_emptying_unchanged_iff_dangling :
    ∃ s s', (System.empty .counting).addKeyValue danglingFirst false = .ok s ∧
      s.run (emptyStore 0 false) = (.error (.malformedRecord "dangling inode id gone"), s') ∧
      (s'.volumes.stores 0).records = (s.volumes.stores 0).records ∧
      RecordTree.readAll (s'.volumes.stores 0) (.ofText "/f") = .ok [97, 98, 99] := by
  obtain ⟨s, made, failed, reads⟩ := Except.exists_ok
    (x := (System.empty .counting).addKeyValue danglingFirst false) (P := fun s =>
      (s.run (emptyStore 0 false)).1 = .error (.malformedRecord "dangling inode id gone") ∧
      RecordTree.readAll (s.volumes.stores 0) (.ofText "/f") = .ok [97, 98, 99])
    (by decide +kernel) (by decide +kernel)
  obtain ⟨accepted, stored, -⟩ := addKeyValue_rooted (by decide +kernel) made
  have stored : s.volumes.stores 0 = danglingFirst := stored
  obtain ⟨root, hi, dir, ok, all⟩ :=
    Except.exists_ok (x := danglingFirst.inode rootKey) (P := fun i =>
      i.isDir = true ∧ (danglingFirst.listing i).isOk = true ∧
        ∀ l ∈ (danglingFirst.listing i).toOption, l.values.head? = some "gone")
    (by decide +kernel) (by decide +kernel)
  obtain ⟨l, hl, first⟩ := Except.exists_ok ok all
  have entry : danglingFirst.FirstEntry rootKey "gone" := ⟨l, ⟨root, hi, dir, hl⟩, first⟩
  obtain ⟨-, unchanged, readable⟩ :=
    failed_emptying_unchanged_iff (stored ▸ accepted) (Prod.ext failed rfl) (by decide)
  have same :=
    unchanged.2 (.inr ⟨"gone", by rw [stored]; exact .single entry, _, .inl (by rw [stored]; rfl)⟩)
  exact ⟨s, _, made, Prod.ext failed rfl, same, readable same _ _ reads⟩

/-- Emptying that comes to such an id after a file has deleted the file, and not its name. -/
theorem failed_emptying_deletes_file :
    ∃ s s', (System.empty .counting).addKeyValue (fileBefore "gone" []) false = .ok s ∧
      (s.volumes.stores 0).Accepted ∧
      s.run (emptyStore 0 false) = (.error (.malformedRecord "dangling inode id gone"), s') ∧
      (s'.volumes.stores 0).records ≠ (s.volumes.stores 0).records ∧
      s.readAll 0 (.ofText "/a") = .ok [97, 98, 99] ∧
      s'.readAll 0 (.ofText "/a") = .error (.malformedRecord "dangling inode id i1") := by
  obtain ⟨s, made, failed, changed, reads, unread⟩ := Except.exists_ok
    (x := (System.empty .counting).addKeyValue (fileBefore "gone" []) false) (P := fun s =>
      (s.run (emptyStore 0 false)).1 = .error (.malformedRecord "dangling inode id gone") ∧
      ((s.run (emptyStore 0 false)).2.volumes.stores 0).records ≠ (s.volumes.stores 0).records ∧
      s.readAll 0 (.ofText "/a") = .ok [97, 98, 99] ∧
      (s.run (emptyStore 0 false)).2.readAll 0 (.ofText "/a") =
        .error (.malformedRecord "dangling inode id i1"))
    (by decide +kernel) (by decide +kernel)
  obtain ⟨accepted, stored, -⟩ := addKeyValue_rooted (by decide +kernel) made
  exact ⟨s, _, made, stored ▸ accepted, Prod.ext failed rfl, changed, reads, unread⟩

end System

/-! ## Emptying what is in order -/

namespace RecordStore.Represents

open RecordTree

variable {s : RecordStore} {d : Slot}

/-- All that is stored for a single slot are its two records. -/
theorem records_only (h : s.Represents (Slots.only d)) :
    s.records = .ofList [(d.id, d.inode.encode), (d.inode.contentId, d.body.bytes)] ∧
    s.size = 2 := by
  have apart : d.inode.contentId ≠ d.id :=
    fun e => h.coherent.id_ne_contentId Slots.only_root e.symm
  have records : s.records = .ofList [(d.id, d.inode.encode),
      (d.inode.contentId, d.body.bytes)] := by
    refine SortedMap.ext_get? fun k => ?_
    show s.get? k =
      ((SortedMap.insert ∅ d.id d.inode.encode).insert d.inode.contentId d.body.bytes).get? k
    rw [SortedMap.get?_insert, SortedMap.get?_insert]
    split
    next content => exact content ▸ h.holds .root d Slots.only_root .content
    next other =>
      split
      next own => exact own ▸ h.holds .root d Slots.only_root .inode
      next other' =>
        refine Classical.byContradiction fun stored => ?_
        obtain ⟨p, r, hr⟩ := h.covered k stored
        obtain ⟨y, hy, rfl⟩ := Slots.exists_of_key hr
        rw [(Slots.eq_root_of_only hy).2] at other other'
        cases r with
        | inode => exact other' rfl
        | content => exact other rfl
  refine ⟨records, ?_⟩
  rw [size, records]
  show ((SortedMap.insert ∅ d.id d.inode.encode).insert d.inode.contentId d.body.bytes).size = 2
  rw [SortedMap.size_insert (by rw [SortedMap.get?_insert_other _ _ apart]; rfl),
    SortedMap.size_insert rfl]
  rfl

end RecordStore.Represents

namespace System

open RecordStore RecordTree

variable {s : System} {store : Nat}

/-- **Emptying what is in order**: whatever has been done with a system, emptying a backend over a
store that was empty to begin with succeeds, if the backend may be changed. Two records are left,
the inode of the root and an empty listing. The root keeps what is known of it, but for its size and
its times; it has no entries, and no other path leads anywhere. -/
theorem Reachable.emptied (reachable : s.Reachable) {b : BackendId}
    (there : s.backends[b]? = some (.keyValue store false)) :
    ∃ s', ∃ root root' : Inode, s.run (emptyStore store false) = (.ok (), s') ∧
      (s.volumes.stores store).inode rootKey = .ok root ∧
      (s'.volumes.stores store).inode rootKey = .ok root' ∧
      (s'.volumes.stores store).records =
        .ofList [(rootKey, root'.encode), (root'.contentId, Listing.encode ∅)] ∧
      (s'.volumes.stores store).size = 2 ∧
      root'.contentId = root.contentId ∧ root'.kind = root.kind ∧ root'.perm = root.perm ∧
      root'.dev = root.dev ∧ root'.ino = root.ino ∧
      s'.readdir b .root = .ok [] ∧ ∀ p, p ≠ .root → ∃ e, s'.stat b p = .error e := by
  obtain ⟨F, h⟩ : s.volumes.SoundAt (.store store) :=
    reachable.inOrder.volumes.sound b _ _ there rfl
  obtain ⟨x, d, t, hx, id, hd, hr, -, h'⟩ := clear_root (t := s.volumes.transaction store) h
  have hd' : Slots.only d .root = some d := Slots.only_root
  let s' : System := ⟨s.backends, s.volumes.committed store t⟩
  have there' : s'.backends[b]? = some (.keyValue store false) := there
  have stored : s'.volumes.stores store = t.store := Volumes.stores_committed ..
  obtain ⟨records, size⟩ := h'.records_only
  rw [hd.id.trans id, hd.body] at records
  refine ⟨s', x.inode, d.inode,
    by rw [run_emptyStore, hr], id ▸ h.holds.inode hx, ?_, stored ▸ records, stored ▸ size,
    hd.contentId, ?_, hd.perm, hd.numbers.1, hd.numbers.2, ?_, fun p hp => ?_⟩
  · rw [stored, ← id, ← hd.id]
    exact h'.holds.inode hd'
  · obtain ⟨x', l, hx', -, hl⟩ := h.rooted
    cases hx.symm.trans hx'
    rw [(h.coherent.fits _ x hx).kind, hd.fits.kind, hl, hd.body]
    rfl
  · have empty : t.store.directory .root = .ok ⟨d.id, d.inode, ∅⟩ :=
      directory_some h'.coherent h'.rooted h'.holds hd' hd.body
    show (s'.fileSystems .root b).readdir s'.volumes .root = _
    rw [fileSystems, fileSystem_keyValue there']
    show RecordTree.readdir (s'.volumes.stores store) .root = _
    rw [stored, RecordTree.readdir, empty]
    rfl
  · obtain ⟨e, missing, -⟩ := lookup_none h'.coherent h'.rooted h'.holds (if_neg hp)
    refine ⟨e, ?_⟩
    rw [stat_keyValue there', stored, RecordTree.stat, missing]
    rfl

/-- Of the root and a directory in it the records of the root are left. -/
theorem Reachable.emptied_directory : ∃ s s' : System, s.Reachable ∧ (s.volumes.stores 0).size = 4 ∧
    s.run (emptyStore 0 false) = (.ok (), s') ∧ (s'.volumes.stores 0).size = 2 ∧
    ∃ e, s'.stat 0 (.ofText "/d") = .error e := by
  obtain ⟨s, made, before⟩ :=
    Except.exists_ok (x := (System.empty .counting).addKeyValue (.ofRecords ∅) false)
    (P := fun s => ((s.mkdir 0 (.ofText "/d") 0o755).2.volumes.stores 0).size = 4)
    (by decide +kernel) (by decide +kernel)
  have reached := ((Reached.empty .counting).addKeyValue rfl made).mkdir 0 (.ofText "/d") 0o755
  generalize (System.mkdir _ 0 (.ofText "/d") 0o755).2 = s at reached before
  obtain ⟨s', root, root', emptied, -, -, -, size, -, -, -, -, -, -, missing⟩ :=
    reached.reachable.emptied (reached.at' (b := 0) rfl)
  exact ⟨s, s', reached.reachable, before, emptied, size, missing (.ofText "/d") (by decide)⟩

end System

end MountSpace
