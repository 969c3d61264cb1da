import MountSpace.Proofs.AnyRecords
import MountSpace.Proofs.Failures

/-!
# Moving an entry in any store

Before an entry of a store is moved, everything is looked up that the move needs. The
listing that the entry leaves is written then, and the directory that it enters is looked up
again, because the two may be one. In a store whose listings lead to one directory in two
ways the second look may fail.

- `Move`, `planMove`, `runOn_rename`: a move as what is looked up before anything is
  written, and the rest.
- `rename_torn_iff`: when a move fails after it has written.
- `Withdraws`: one name is gone from all listings that are one record.
- `RecordStore.Crosses`: a path goes through that name.
- `rename_keptOnFailure_iff`: which calls that fail keep all records.
-/

namespace MountSpace

open StoreAction

/-! ## Before and after the first write -/

/-- What a move needs to know of a store: the entry, the directory that it leaves, the name it is to
have and what it replaces. -/
structure Move where
  dir : StoredDirectory
  name : Segment
  id : String
  newName : Segment
  replaced : Option (String × Inode)

namespace Move

/-- The entry is taken out of the listing of the directory that it leaves. -/
def withdraw (m : Move) : StoreAction Unit :=
  writeListing m.dir.id m.dir.inode (m.dir.listing.erase m.name.text)

/-- The entry is put into the listing of the directory that it enters, and what it
replaces is deleted. -/
def enter (m : Move) (target : Path) : StoreAction Unit := do
  let dir ← ask (·.directory target.parent)
  writeListing dir.id dir.inode (dir.listing.insert m.newName.text m.id)
  if let some (id, inode) := m.replaced then
    deleteBoth id inode

end Move

namespace RecordTree

/-- What is looked up for a move between two paths. -/
def planMove (s : RecordStore) (source target : Path) : Except FsError Move := do
  let some name := source.name? | throw (.busy "/")
  let some newName := target.name? | throw (.busy "/")
  if source.isPrefixOf target then
    throw (.invalidPath ("cannot move " ++ source.toText ++ " inside itself"))
  let dir ← s.directory source.parent
  let some id := dir.listing.get? name.text | throw (.notFound source.toText)
  let moved ← s.inode id
  let replaced ← replaceable s target (← s.directory target.parent) newName moved.kind
  return { dir, name, id, newName, replaced }

variable {t : Transaction} {source target : Path}

/-- An entry is moved by looking up what is needed, taking the entry out and putting it in again. -/
theorem runOn_rename (ne : source ≠ target) (t : Transaction) : (rename source target).runOn t =
    (ask (planMove · source target) >>= fun m =>
      m.withdraw >>= fun _ => m.enter target).runOn t := by
  rw [rename, runOn_ask_bind, planMove]
  cases source.name? with
  | none => rfl
  | some name =>
    cases target.name? with
    | none => rfl
    | some newName =>
      dsimp only
      rw [if_neg ne]
      by_cases inside : source.isPrefixOf target = true
      · rw [if_pos inside, if_pos inside]
        rfl
      · rw [if_neg inside, if_neg inside, runOn_ask_bind]
        cases t.store.directory source.parent with
        | error e => rfl
        | ok dir =>
          dsimp only [Except.ok_bind]
          cases dir.listing.get? name.text with
          | none => rfl
          | some id =>
            dsimp only
            rw [runOn_ask_bind]
            cases t.store.inode id with
            | error e => rfl
            | ok moved =>
              dsimp only [Except.ok_bind]
              rw [runOn_ask_bind]
              cases t.store.directory target.parent with
              | error e => rfl
              | ok targetDir =>
                dsimp only [Except.ok_bind]
                cases replaceable t.store target targetDir newName moved.kind with
                | error e => rfl
                | ok replaced => rfl

/-- An entry that is moved to where it is is only looked up. -/
theorem runOn_rename_self (p : Path) (t : Transaction) : ((rename p p).runOn t).2 = t := by
  rw [rename]
  cases p.name? with
  | none => rfl
  | some name =>
    dsimp only
    rw [if_pos rfl, Action.runOn_bind, Action.runOn_discard, runOn_ask]
    cases t.store.lookup p <;> rfl

theorem planMove_ok {s : RecordStore} {m : Move} (planned : planMove s source target = .ok m) :
    ¬source.isPrefixOf target = true ∧ s.directory source.parent = .ok m.dir ∧
      ∃ d, s.directory target.parent = .ok d := by
  rw [planMove] at planned
  cases hn : source.name? with
  | none =>
    rw [hn] at planned
    cases planned
  | some name =>
    cases hn' : target.name? with
    | none =>
      rw [hn, hn'] at planned
      cases planned
    | some newName =>
      rw [hn, hn'] at planned
      dsimp only at planned
      by_cases inside : source.isPrefixOf target = true
      · rw [if_pos inside] at planned
        cases planned
      · rw [if_neg inside] at planned
        obtain ⟨dir, hd, planned⟩ := Except.bind_eq_ok.1 planned
        cases hid : dir.listing.get? name.text with
        | none =>
          rw [hid] at planned
          cases planned
        | some id =>
          rw [hid] at planned
          obtain ⟨moved, -, planned⟩ := Except.bind_eq_ok.1 planned
          obtain ⟨targetDir, hd', planned⟩ := Except.bind_eq_ok.1 planned
          obtain ⟨replaced, -, planned⟩ := Except.bind_eq_ok.1 planned
          cases planned
          exact ⟨inside, hd, targetDir, hd'⟩

/-- Putting the entry in again fails only if the directory that it enters is not found. -/
theorem enter_error_iff {m : Move} {e : FsError} {t' : Transaction} :
    (m.enter target).runOn t = (.error e, t') ↔
    t' = t ∧ t.store.directory target.parent = .error e := by
  rw [Move.enter, runOn_ask_bind]
  cases t.store.directory target.parent with
  | error e' =>
    constructor
    · intro failed
      cases failed
      exact ⟨rfl, rfl⟩
    · rintro ⟨rfl, same⟩
      cases same
      rfl
  | ok dir =>
    have rest : Succeeds (do
        writeListing dir.id dir.inode (dir.listing.insert m.newName.text m.id)
        if let some (id, inode) := m.replaced then
          deleteBoth id inode) := by
      refine Succeeds.bind (succeeds_writeListing _ _ _) fun _ => ?_
      cases m.replaced with
      | none => exact succeeds_pure _
      | some old => exact succeeds_deleteBoth old.1 old.2
    constructor
    · intro failed
      obtain ⟨_, t'', ok⟩ := rest t
      cases ok.symm.trans failed
    · exact fun ⟨_, no⟩ => nomatch no

/-- A move that fails has written exactly if the directory to enter is not found any more, once the
entry has been taken out of the one that it leaves. -/
theorem rename_torn_iff : (∃ e t', (rename source target).runOn t = (.error e, t') ∧
      t'.store.records ≠ t.store.records) ↔
    ∃ m, planMove t.store source target = .ok m ∧
      ∃ e, (m.withdraw.runOn t).2.store.directory target.parent = .error e := by
  by_cases same : source = target
  · subst same
    refine ⟨fun ⟨e, t', failed, changed⟩ => absurd ?_ changed, fun ⟨m, planned, _⟩ => ?_⟩
    · rw [← runOn_rename_self source t, failed]
    · exact absurd (Path.isPrefixOf_self source) (planMove_ok planned).1
  rw [runOn_rename same, runOn_ask_bind]
  cases hm : planMove t.store source target with
  | error e =>
    refine ⟨fun ⟨e', t', failed, changed⟩ => ?_, fun ⟨m, no, _⟩ => nomatch no⟩
    cases failed
    exact absurd rfl changed
  | ok m =>
    obtain ⟨⟨⟩, t₁, hw⟩ :=
      succeeds_writeListing m.dir.id m.dir.inode (m.dir.listing.erase m.name.text) t
    have withdrawn : m.withdraw.runOn t = (.ok (), t₁) := hw
    dsimp only
    rw [Action.runOn_bind_ok withdrawn]
    constructor
    · rintro ⟨e, t', failed, -⟩
      exact ⟨m, rfl, e, by rw [withdrawn]; exact (enter_error_iff.1 failed).2⟩
    · rintro ⟨m', planned, e, lost⟩
      cases planned
      rw [withdrawn] at lost
      refine ⟨e, t₁, enter_error_iff.2 ⟨rfl, lost⟩, fun unchanged => ?_⟩
      -- With the same records the directory would be found as it was at first.
      obtain ⟨-, -, d, found⟩ := planMove_ok hm
      have part : t.store.PartOf t₁.store := fun k bytes hk => by
        rwa [RecordStore.get?, unchanged]
      cases (part.directory found).symm.trans lost

end RecordTree

/-! ## Listings without a name -/

namespace RecordStore

variable {s s' : RecordStore} {p : Path} {contentId : String} {name : Segment}

/-- No inode that is reached is at the same time the content of one. -/
def Apart (s : RecordStore) : Prop :=
  ∀ id id' i, s.Reaches id → s.Reaches id' → s.inode id = .ok i → i.contentId ≠ id'

/-- A path goes on by a name from a directory whose listing is under an id. -/
def Crosses (s : RecordStore) (p : Path) (contentId : String) (name : Segment) : Prop :=
  ∃ q d, (q.child name).isPrefixOf p = true ∧ s.directory q = .ok d ∧ d.inode.contentId = contentId

/-- Of what is reached a name has gone from the directories whose listing is under an id, and
nothing else that paths depend on has changed. -/
structure Withdraws (s s' : RecordStore) (contentId : String) (name : Segment) : Prop where
  inode : ∀ id i, s.Reaches id → s.inode id = .ok i →
    ∃ i', s'.inode id = .ok i' ∧ i'.isDir = i.isDir ∧ i'.contentId = i.contentId
  listing : ∀ id i i' l, s.Reaches id → s.inode id = .ok i → s.listing i = .ok l →
    i'.contentId = i.contentId →
    ∃ l', s'.listing i' = .ok l' ∧
      ∀ n : Segment, l'.get? n.text = if i.contentId = contentId ∧
      n = name then none else l.get? n.text

theorem not_crosses_root : ¬s.Crosses .root contentId name := by
  rintro ⟨q, d, above, -⟩
  exact Path.child_ne_root q name (Path.isPrefixOf_root.1 above)

/-- A path crosses a name where its parent does, or it is that name in such a directory. -/
theorem crosses_child {d : StoredDirectory} (hd : s.directory p = .ok d) {n : Segment} :
    s.Crosses (p.child n) contentId name ↔
      s.Crosses p contentId name ∨ d.inode.contentId = contentId ∧ n = name := by
  constructor
  · rintro ⟨q, d', above, hd', content⟩
    rcases Path.isPrefixOf_child.1 above with same | above
    · obtain ⟨rfl, rfl⟩ := Path.child_inj.1 same
      cases hd.symm.trans hd'
      exact .inr ⟨content, rfl⟩
    · exact .inl ⟨q, d', above, hd', content⟩
  · rintro (⟨q, d', above, hd', content⟩ | ⟨content, rfl⟩)
    · exact ⟨q, d', Path.isPrefixOf_child.2 (.inr above), hd', content⟩
    · exact ⟨p, d, Path.isPrefixOf_self _, hd, content⟩

namespace Withdraws

variable (h : s.Withdraws s' contentId name)
include h

/-- A path that crosses the name leads nowhere any more; any other path leads where it did. -/
theorem lookup {id : String} {i : Inode} (found : s.lookup p = .ok (id, i)) :
    s.Crosses p contentId name ∧ (∀ found', s'.lookup p ≠ .ok found') ∨
      ¬s.Crosses p contentId name ∧
        ∃ i', s'.lookup p = .ok (id, i') ∧ i'.isDir = i.isDir ∧ i'.contentId = i.contentId := by
  induction p using Path.childInduction generalizing id i with
  | atRoot =>
    obtain ⟨reached, hi⟩ := reaches_of_lookup found
    obtain ⟨root, hi', found⟩ := Except.bind_eq_ok.1 found
    cases found
    obtain ⟨i', hi', dir, content⟩ := h.inode rootKey i reached hi
    exact .inr ⟨not_crosses_root, i', Except.bind_eq_ok.2 ⟨i', hi', rfl⟩, dir, content⟩
  | atChild p n ih =>
    have reached := (reaches_of_lookup found).1
    obtain ⟨d, hd, hn, hi⟩ := lookup_child_ok_iff.1 found
    obtain ⟨hf, dir, hl⟩ := directory_ok_iff.1 hd
    rcases ih hf with ⟨crosses, lost⟩ | ⟨free, j, hj, dir', content⟩
    · refine .inl ⟨(crosses_child hd).2 (.inl crosses), fun ⟨id', i'⟩ found' => ?_⟩
      obtain ⟨d', hd', -⟩ := lookup_child_ok_iff.1 found'
      exact lost _ (directory_ok_iff.1 hd').1
    -- The parent is found as before; what matters is whether the name is still in its listing.
    obtain ⟨above, stored⟩ := reaches_of_lookup hf
    obtain ⟨l, listed, names⟩ := h.listing d.id d.inode j d.listing above stored hl content
    have hd' : s'.directory p = .ok ⟨d.id, j, l⟩ := directory_ok_iff.2 ⟨hj, dir'.trans dir, listed⟩
    by_cases cut : d.inode.contentId = contentId ∧ n = name
    · refine .inl ⟨(crosses_child hd).2 (.inr cut), fun ⟨id', i'⟩ found' => ?_⟩
      obtain ⟨d', hd'', hn', -⟩ := lookup_child_ok_iff.1 found'
      cases hd'.symm.trans hd''
      rw [names, if_pos cut] at hn'
      cases hn'
    · refine .inr ⟨fun crosses => ((crosses_child hd).1 crosses).elim free cut, ?_⟩
      obtain ⟨i', hi', dir'', content'⟩ := h.inode id i reached hi
      exact ⟨i', lookup_child_ok_iff.2 ⟨_, hd', by rw [names, if_neg cut, hn], hi'⟩,
        dir'', content'⟩

/-- A directory is not found any more exactly if the path to it crosses the name. -/
theorem directory {d : StoredDirectory} (hd : s.directory p = .ok d) :
    (∃ e, s'.directory p = .error e) ↔ s.Crosses p contentId name := by
  obtain ⟨hf, dir, hl⟩ := directory_ok_iff.1 hd
  rcases h.lookup hf with ⟨crosses, lost⟩ | ⟨free, i', hf', dir', content⟩
  · refine ⟨fun _ => crosses, fun _ => ?_⟩
    cases hd' : s'.directory p with
    | error e => exact ⟨e, rfl⟩
    | ok d' => exact absurd (directory_ok_iff.1 hd').1 (lost _)
  · obtain ⟨reached, stored⟩ := reaches_of_lookup hf
    obtain ⟨l, listed, -⟩ := h.listing d.id d.inode i' d.listing reached stored hl content
    have found : s'.directory p = .ok ⟨d.id, i', l⟩ :=
      directory_ok_iff.2 ⟨hf', dir'.trans dir, listed⟩
    refine ⟨fun ⟨e, failed⟩ => ?_, fun crosses => absurd crosses free⟩
    cases found.symm.trans failed

end Withdraws

end RecordStore

namespace RecordTree

variable {t : Transaction} {source target : Path}

/-- Taking an entry out withdraws its name, if no inode is a content. -/
theorem withdraws_of_planMove (apart : t.store.Apart) {m : Move}
    (planned : planMove t.store source target = .ok m) :
    t.store.Withdraws (m.withdraw.runOn t).2.store m.dir.inode.contentId m.name := by
  obtain ⟨-, hd, -⟩ := planMove_ok planned
  obtain ⟨hf, dir, hl⟩ := RecordStore.directory_ok_iff.1 hd
  obtain ⟨reached, stored⟩ := RecordStore.reaches_of_lookup hf
  -- The directory that is left is written as any directory with an inode and a listing of its own.
  let x : Slot := ⟨m.dir.id, m.dir.inode, .directory m.dir.listing⟩
  have own : m.dir.id ≠ m.dir.inode.contentId := fun e => apart _ _ _ reached reached stored e.symm
  have fits : x.Fits := ⟨eq_of_beq dir, Inode.isTagged_of_isDir dir, nofun⟩
  obtain ⟨d, t', hr, hd, rewritten⟩ :=
    runOn_writeListing (x := x) (m.dir.listing.erase m.name.text) fits rfl
    (RecordStore.inode_ok_iff.1 stored) own
  have withdrawn : m.withdraw.runOn t = (.ok (), t') := hr
  have other : ∀ {k}, k ≠ m.dir.id → k ≠ m.dir.inode.contentId → t'.store.get? k = t.store.get? k :=
    fun ne ne' => rewritten.other _ fun | .inode => ne | .content => ne'
  rw [withdrawn]
  constructor
  · intro id i hid hi
    by_cases same : id = m.dir.id
    · subst same
      cases stored.symm.trans hi
      have record : t'.store.get? m.dir.id = some d.inode.encode := rewritten.own .inode
      exact ⟨d.inode, RecordStore.inode_ok_iff.2 record,
        (hd.fits.isDir_of_directory hd.body).trans dir.symm, hd.contentId⟩
    · refine ⟨i, RecordStore.inode_ok_iff.2 ?_, rfl, rfl⟩
      rw [other same fun e => apart _ _ _ reached hid stored e.symm]
      exact RecordStore.inode_ok_iff.1 hi
  · intro id i i' l hid hi hl' content
    by_cases same : i.contentId = m.dir.inode.contentId
    · have record : t'.store.get? i'.contentId =
          some (Listing.encode (m.dir.listing.erase m.name.text)) := by
        rw [content, same, show t'.store.get? m.dir.inode.contentId = _ from rewritten.own .content,
          Slot.record, hd.body]
        rfl
      have shared : t.store.listing i = t.store.listing m.dir.inode :=
        RecordStore.listing_congr same rfl
      have listed : l = m.dir.listing := Except.ok.inj (hl'.symm.trans (shared.trans hl))
      refine ⟨_, RecordStore.listing_of_record record, fun n => ?_⟩
      rw [SortedMap.get?_erase, listed]
      by_cases gone : n = m.name
      · rw [if_pos (congrArg Segment.text gone), if_pos ⟨same, gone⟩]
      · rw [if_neg fun e => gone (Segment.ext_text e), if_neg fun h => gone h.2]
    · refine ⟨l, ?_, fun n => by rw [if_neg fun h => same h.1]⟩
      rw [RecordStore.listing_congr content (other (apart _ _ _ hid reached hi) same), hl']

/-- Where no inode is a content, a move is torn exactly if the path to the directory to enter goes
by the name of the entry from a directory with the listing that the entry leaves. -/
theorem rename_torn_iff_crosses (apart : t.store.Apart) :
    (∃ e t', (rename source target).runOn t = (.error e, t') ∧
      t'.store.records ≠ t.store.records) ↔
    ∃ m, planMove t.store source target = .ok m ∧
      t.store.Crosses target.parent m.dir.inode.contentId m.name := by
  refine rename_torn_iff.trans (exists_congr fun m => and_congr_right fun planned => ?_)
  obtain ⟨-, -, d, found⟩ := planMove_ok planned
  exact (withdraws_of_planMove apart planned).directory found

end RecordTree

namespace System

open RecordTree

variable {s : System} {b : BackendId} {store : Nat} {readOnly : Bool}

/-- A call that moves an entry keeps all records if it fails, unless the store may be changed
and the move is torn. -/
theorem rename_kept_iff (there : s.backends[b]? = some (.keyValue store readOnly))
    (source target : Path) : s.KeptOnFailure store (s.rename b source target) ↔ ¬(readOnly = false ∧
      ∃ e t, (RecordTree.rename source target).runOn (s.volumes.transaction store) = (.error e, t) ∧
        t.store.records ≠ (s.volumes.stores store).records) := by
  have backend : s.fileSystems (source ++ target) b = .keyValue b store readOnly :=
    fileSystem_keyValue there _
  rw [rename, backend]
  cases readOnly with
  | true => exact ⟨fun _ torn => Bool.noConfusion torn.1, fun _ _ => rfl⟩
  | false =>
    have run_eq : s.run ((FileSystem.keyValue b store false).rename source target) =
        s.run (Volumes.withStore store (RecordTree.rename source target)) := rfl
    rw [run_eq, run, Volumes.runOn_withStore, KeptOnFailure, Volumes.stores_committed]
    rcases (RecordTree.rename source target).runOn (s.volumes.transaction store) with ⟨e | ⟨⟩, t⟩
    · constructor
      · rintro kept ⟨-, e', t', failed, changed⟩
        cases failed
        exact changed (kept rfl)
      · intro whole _
        exact Classical.byContradiction fun changed => whole ⟨rfl, e, t, rfl, changed⟩
    · constructor
      · rintro - ⟨-, e, t', no, -⟩
        cases no
      · intro _ failed
        cases failed

/-- **Failing to move an entry**: whatever a store holds, a call to a backend over it that moves an
entry and fails keeps all records, unless it finds at first all that it needs, and then, having
taken the entry out of the one directory, does not find the other one any more. If no inode is also
a content, that is exactly where the path to the other directory goes by the name of the entry from
a directory that has the listing which the entry leaves. -/
theorem rename_keptOnFailure_iff (there : s.backends[b]? = some (.keyValue store readOnly))
    (source target : Path) :
    (s.KeptOnFailure store (s.rename b source target) ↔ ¬(readOnly = false ∧
      ∃ m, planMove (s.volumes.stores store) source target = .ok m ∧
        ∃ e, (m.withdraw.runOn (s.volumes.transaction store)).2.store.directory target.parent =
          .error e)) ∧
    ((s.volumes.stores store).Apart →
      (s.KeptOnFailure store (s.rename b source target) ↔ ¬(readOnly = false ∧
        ∃ m, planMove (s.volumes.stores store) source target = .ok m ∧
          (s.volumes.stores store).Crosses target.parent m.dir.inode.contentId m.name))) := by
  let t := s.volumes.transaction store
  refine ⟨(rename_kept_iff there source target).trans ?_, fun apart =>
    (rename_kept_iff there source target).trans ?_⟩
  · exact not_congr (and_congr_right fun _ => rename_torn_iff (t := t))
  · exact not_congr (and_congr_right fun _ => rename_torn_iff_crosses (t := t) apart)

/-- A directory that the root has two names for, and a directory in it. -/
def twoNames : RecordStore :=
  .rooted [("a", "i1"), ("b", "i1")] [("i1", Inode.bare "c1" 0o40755),
    ("c1", Listing.encode (.ofList [("x", "i2")])), ("i2", Inode.bare "c2" 0o40755),
    ("c2", Listing.encode ∅)]

/-- With two names for one directory a move that misses a directory fails and keeps all records. So
does any move in a fresh store, where there is nothing to move. -/
theorem rename_keptOnFailure_iff_missing :
    (∃ s, (System.empty .counting).addKeyValue twoNames false = .ok s ∧
      (s.rename 0 (.ofText "/a/x") (.ofText "/b/y/z")).1 = .error (.notFound "/b/y") ∧
      s.KeptOnFailure 0 (s.rename 0 (.ofText "/a/x") (.ofText "/b/y/z"))) ∧
    ∃ s, (System.empty .counting).addKeyValue (.ofRecords ∅) false = .ok s ∧
      s.KeptOnFailure 0 (s.rename 0 (.ofText "/x") (.ofText "/y")) := by
  constructor
  · obtain ⟨s, made, failed, unplanned⟩ := Except.exists_ok
      (x := (System.empty .counting).addKeyValue twoNames false) (P := fun s =>
        (s.rename 0 (.ofText "/a/x") (.ofText "/b/y/z")).1 = .error (.notFound "/b/y") ∧
        (planMove (s.volumes.stores 0) (.ofText "/a/x") (.ofText "/b/y/z")).isOk = false)
      (by decide +kernel) (by decide +kernel)
    obtain ⟨-, -, backends⟩ := addKeyValue_rooted (by decide +kernel) made
    have there : s.backends[0]? = some (.keyValue 0 false) := by rw [backends]; rfl
    refine ⟨s, made, failed, (rename_keptOnFailure_iff there _ _).1.2 ?_⟩
    rintro ⟨-, m, planned, -⟩
    rw [planned] at unplanned
    cases unplanned
  · obtain ⟨s, made, unplanned⟩ := Except.exists_ok
      (x := (System.empty .counting).addKeyValue (.ofRecords ∅) false) (P := fun s =>
        (planMove (s.volumes.stores 0) (.ofText "/x") (.ofText "/y")).isOk = false)
      (by decide +kernel) (by decide +kernel)
    have reached := (Reached.empty .counting).addKeyValue rfl made
    have there : s.backends[0]? = some (.keyValue 0 false) := reached.at' rfl
    -- A store that calls have filled is in order, so that its inodes are no contents.
    obtain ⟨F, h⟩ : s.volumes.SoundAt (.store 0) :=
      reached.reachable.inOrder.volumes.sound 0 _ _ there rfl
    have apart : (s.volumes.stores 0).Apart := h.intact.apart
    refine ⟨s, made, ((rename_keptOnFailure_iff there _ _).2 apart).2 ?_⟩
    rintro ⟨-, m, planned, -⟩
    rw [planned] at unplanned
    cases unplanned

/-- An entry that is to be moved below itself, by way of the other name of its directory, is taken
out and then not put in anywhere. -/
theorem rename_loses_entry :
    ∃ s, (System.empty .counting).addKeyValue twoNames false = .ok s ∧
    (s.volumes.stores 0).Accepted ∧
      (s.rename 0 (.ofText "/a/x") (.ofText "/b/x/y")).1 = .error (.notFound "/b/x") ∧
      ((s.rename 0 (.ofText "/a/x") (.ofText "/b/x/y")).2.volumes.stores 0).records ≠
        (s.volumes.stores 0).records ∧
      s.readdir 0 (.ofText "/a") = .ok [⟨"x", .directory⟩] ∧
      (s.rename 0 (.ofText "/a/x") (.ofText "/b/x/y")).2.readdir 0 (.ofText "/a") = .ok [] := by
  obtain ⟨s, made, failed, changed, before, after⟩ := Except.exists_ok
    (x := (System.empty .counting).addKeyValue twoNames false) (P := fun s =>
      (s.rename 0 (.ofText "/a/x") (.ofText "/b/x/y")).1 = .error (.notFound "/b/x") ∧
      ((s.rename 0 (.ofText "/a/x") (.ofText "/b/x/y")).2.volumes.stores 0).records ≠
        (s.volumes.stores 0).records ∧
      s.readdir 0 (.ofText "/a") = .ok [⟨"x", .directory⟩] ∧
      (s.rename 0 (.ofText "/a/x") (.ofText "/b/x/y")).2.readdir 0 (.ofText "/a") = .ok [])
    (by decide +kernel) (by decide +kernel)
  obtain ⟨accepted, stored, -⟩ := addKeyValue_rooted (by decide +kernel) made
  exact ⟨s, made, stored ▸ accepted, failed, changed, before, after⟩

end System

end MountSpace
