import MountSpace.Proofs.Integrity

/-!
# Stores of any records

A backend can be made over records that no call has written, as long as the root is a directory.
What is found in such a store is told here by the records alone.

- `inode_ok_iff`, `directory_ok_iff`, `lookup_child_ok_iff`: what is found, step by step.
- `reaches_of_lookup`: what a path leads to is reached.
- `RecordStore.PartOf`: a store has some of the records of another one; what it answers,
  the other answers too.
- `RecordStore.Accepted`, `addKeyValue_rooted`: stores that a backend can be made over as they are.
-/

namespace MountSpace

namespace RecordStore

variable {s s' s'' : RecordStore} {p : Path} {name : Segment}

/-! ## What is found -/

theorem inode_ok_iff {id : String} {i : Inode} :
    s.inode id = .ok i ↔ s.get? id = some i.encode := by
  rw [inode]
  cases s.get? id with
  | none =>
    constructor <;> intro no <;> cases no
  | some bytes =>
    dsimp only
    constructor
    · intro hi
      cases hd : Inode.decode bytes with
      | error e =>
        rw [hd] at hi
        cases hi
      | ok j =>
        rw [hd] at hi
        cases hi
        rw [Inode.encode_of_decode hd]
    · intro hb
      cases hb
      rw [Inode.decode_encode]
      rfl

theorem content_ok_iff {i : Inode} {bytes : Bytes} :
    s.content i = .ok bytes ↔ s.get? i.contentId = some bytes := by
  rw [content]
  cases s.get? i.contentId with
  | none =>
    constructor <;> intro no <;> cases no
  | some bytes' =>
    constructor <;> intro same <;> cases same <;> rfl

theorem listing_of_record {i : Inode} {l : Listing} (record : s.get? i.contentId = some l.encode) :
    s.listing i = .ok l := by
  rw [listing, content_ok_iff.2 record, Except.ok_bind, Listing.decode_encode]
  rfl

/-- What is listed depends on the content alone. -/
theorem listing_congr {i i' : Inode} (content : i'.contentId = i.contentId)
    (same : s'.get? i.contentId = s.get? i.contentId) : s'.listing i' = s.listing i := by
  rw [listing, listing, RecordStore.content, RecordStore.content, content, same]

theorem directory_ok_iff {d : StoredDirectory} : s.directory p = .ok d ↔
    s.lookup p = .ok (d.id, d.inode) ∧ d.inode.isDir = true ∧
    s.listing d.inode = .ok d.listing := by
  constructor
  · intro hd
    obtain ⟨⟨id, i⟩, hf, hd⟩ := Except.bind_eq_ok.1 hd
    dsimp only at hd
    by_cases dir : i.isDir = true
    · rw [if_pos dir] at hd
      obtain ⟨l, hl, hd⟩ := Except.bind_eq_ok.1 hd
      cases hd
      exact ⟨hf, dir, hl⟩
    · rw [if_neg dir] at hd
      cases hd
  · rintro ⟨hf, dir, hl⟩
    refine Except.bind_eq_ok.2 ⟨(d.id, d.inode), hf, ?_⟩
    dsimp only
    rw [if_pos dir]
    exact Except.bind_eq_ok.2 ⟨d.listing, hl, rfl⟩

/-- A path leads on from a directory by a name in its listing. -/
theorem lookup_child_ok_iff {id : String} {i : Inode} : s.lookup (p.child name) = .ok (id, i) ↔
    ∃ d, s.directory p = .ok d ∧ d.listing.get? name.text = some id ∧ s.inode id = .ok i := by
  rw [lookup_child]
  constructor
  · intro found
    obtain ⟨⟨id', j⟩, hf, found⟩ := Except.bind_eq_ok.1 found
    rw [follow_cons] at found
    by_cases dir : j.isDir = true
    · rw [if_pos dir] at found
      obtain ⟨l, hl, found⟩ := Except.bind_eq_ok.1 found
      cases hn : l.get? name.text with
      | none =>
        rw [hn] at found
        cases found
      | some id'' =>
        rw [hn] at found
        obtain ⟨i', hi, found⟩ := Except.bind_eq_ok.1 found
        cases found
        exact ⟨⟨id', j, l⟩, directory_ok_iff.2 ⟨hf, dir, hl⟩, hn, hi⟩
    · rw [if_neg dir] at found
      cases found
  · rintro ⟨d, hd, hn, hi⟩
    obtain ⟨hf, dir, hl⟩ := directory_ok_iff.1 hd
    refine Except.bind_eq_ok.2 ⟨(d.id, d.inode), hf, ?_⟩
    rw [follow_cons, if_pos dir, hl]
    simp only [Except.bind, hn, hi]
    rfl

/-- What a path leads to is reached, and its inode is stored. -/
theorem reaches_of_lookup {id : String} {i : Inode} (found : s.lookup p = .ok (id, i)) :
    s.Reaches id ∧ s.inode id = .ok i := by
  induction p using Path.childInduction generalizing id i with
  | atRoot =>
    obtain ⟨root, hi, found⟩ := Except.bind_eq_ok.1 found
    cases found
    exact ⟨.root, hi⟩
  | atChild p name ih =>
    obtain ⟨d, hd, hn, hi⟩ := lookup_child_ok_iff.1 found
    obtain ⟨hf, dir, hl⟩ := directory_ok_iff.1 hd
    obtain ⟨reached, stored⟩ := ih hf
    exact ⟨.entry reached ⟨d.inode, d.listing, stored, dir, hl, hn⟩, hi⟩

/-! ## Parts of a store -/

/-- Every record of the store is one of another store. -/
def PartOf (s' s : RecordStore) : Prop := ∀ k bytes, s'.get? k = some bytes → s.get? k = some bytes

namespace PartOf

theorem refl (s : RecordStore) : s.PartOf s := fun _ _ h => h

theorem trans (h : s''.PartOf s') (h' : s'.PartOf s) : s''.PartOf s := fun k bytes hk =>
  h' k bytes (h k bytes hk)

theorem delete (s : RecordStore) (key : String) : (s.delete key).PartOf s := by
  intro k bytes hk
  rw [get?_delete] at hk
  split at hk
  · cases hk
  · exact hk

theorem size_le (h : s'.PartOf s) : s'.size ≤ s.size := SortedMap.size_le h

/-- A part that is as large as the whole has the same records. -/
theorem records_eq (h : s'.PartOf s) (le : s.size ≤ s'.size) : s'.records = s.records :=
  SortedMap.eq_of_size_le h le

theorem inode (h : s'.PartOf s) {id : String} {i : Inode} (hi : s'.inode id = .ok i) :
    s.inode id = .ok i :=
  inode_ok_iff.2 (h id _ (inode_ok_iff.1 hi))

theorem content (h : s'.PartOf s) {i : Inode} {bytes : Bytes} (hc : s'.content i = .ok bytes) :
    s.content i = .ok bytes := content_ok_iff.2 (h i.contentId bytes (content_ok_iff.1 hc))

theorem listing (h : s'.PartOf s) {i : Inode} {l : Listing} (hl : s'.listing i = .ok l) :
    s.listing i = .ok l := by
  obtain ⟨bytes, hc, hl⟩ := Except.bind_eq_ok.1 hl
  exact Except.bind_eq_ok.2 ⟨bytes, h.content hc, hl⟩

theorem lookup (h : s'.PartOf s) {found : String × Inode} (hf : s'.lookup p = .ok found) :
    s.lookup p = .ok found := by
  obtain ⟨id, i⟩ := found
  induction p using Path.childInduction generalizing id i with
  | atRoot =>
    obtain ⟨root, hi, hf⟩ := Except.bind_eq_ok.1 hf
    exact Except.bind_eq_ok.2 ⟨root, h.inode hi, hf⟩
  | atChild p name ih =>
    obtain ⟨d, hd, hn, hi⟩ := lookup_child_ok_iff.1 hf
    obtain ⟨hf, dir, hl⟩ := directory_ok_iff.1 hd
    exact lookup_child_ok_iff.2 ⟨d, directory_ok_iff.2 ⟨ih d.id d.inode hf, dir, h.listing hl⟩,
      hn, h.inode hi⟩

theorem directory (h : s'.PartOf s) {d : StoredDirectory} (hd : s'.directory p = .ok d) :
    s.directory p = .ok d := by
  obtain ⟨hf, dir, hl⟩ := directory_ok_iff.1 hd
  exact directory_ok_iff.2 ⟨h.lookup hf, dir, h.listing hl⟩

/-- What can be read of a part can be read of the whole. -/
theorem readAll (h : s'.PartOf s) {data : Bytes} (hr : RecordTree.readAll s' p = .ok data) :
    RecordTree.readAll s p = .ok data := by
  obtain ⟨⟨id, i⟩, hf, hr⟩ := Except.bind_eq_ok.1 hr
  refine Except.bind_eq_ok.2 ⟨(id, i), h.lookup hf, ?_⟩
  dsimp only at hr ⊢
  by_cases dir : i.isDir = true
  · rw [if_pos dir] at hr
    cases hr
  · rw [if_neg dir] at hr ⊢
    exact h.content hr

end PartOf

/-! ## Stores with a root -/

/-- The id is that of a directory. -/
def IsDirectory (s : RecordStore) (id : String) : Prop := ∃ i, s.inode id = .ok i ∧ i.isDir = true

/-- A store that a backend can be made over as it is: the record of the root is the
inode of a directory. -/
def Accepted (s : RecordStore) : Prop := s.IsDirectory rootKey

end RecordStore

namespace RecordTree

open RecordStore

variable {t : Transaction}

/-- A root that is there already is looked at and nothing is changed; a directory will do. -/
theorem runOn_initialise {bytes : Bytes} (there : t.store.get? rootKey = some bytes) :
    t.store.Accepted ∧ initialise.runOn t = (.ok (), t) ∨
      ¬t.store.Accepted ∧ ∃ e, initialise.runOn t = (.error e, t) := by
  have root : t.store.inode rootKey = (Inode.decode bytes).mapError .ofInode := by
    rw [RecordStore.inode, there]
  rw [initialise, Action.runOn_get_bind, there]
  dsimp only
  rw [Action.runOn_ofExcept_bind, ← root, Accepted, IsDirectory]
  cases hi : t.store.inode rootKey with
  | error e =>
    refine .inr ⟨?_, e, rfl⟩
    rintro ⟨j, hj, -⟩
    cases hj
  | ok i =>
    dsimp only
    by_cases dir : i.isDir = true
    · rw [if_pos dir]
      exact .inl ⟨⟨i, rfl, dir⟩, rfl⟩
    · rw [if_neg dir]
      refine .inr ⟨?_, _, rfl⟩
      rintro ⟨j, hj, dir'⟩
      cases hj
      exact dir dir'

end RecordTree

namespace System

open RecordStore RecordTree

variable {s s' : System} {readOnly : Bool}

/-- A backend that is made over a store with a root leaves the store as it is, and accepts it. -/
theorem addKeyValue_rooted {records : RecordStore} (rooted : records.get? rootKey ≠ none)
    (made : s.addKeyValue records readOnly = .ok s') :
    records.Accepted ∧ s'.volumes.stores s.next = records ∧
      s'.backends = s.backends ++ [.keyValue s.next readOnly] := by
  obtain ⟨bytes, there⟩ := Option.ne_none_iff_exists'.1 rooted
  rw [addKeyValue_eq] at made
  rcases runOn_initialise (t := ⟨records, s.volumes.ambient⟩) there with ⟨accepted, hr⟩ | ⟨-, e, hr⟩
  · rw [hr] at made
    cases made
    let v := s.volumes.withRecords s.next records
    exact ⟨accepted, v.stores_committed s.next ⟨records, s.volumes.ambient⟩, rfl⟩
  · rw [hr] at made
    cases made

end System

end MountSpace
