import MountSpace.Proofs.Action
import MountSpace.Proofs.InodeFormat
import MountSpace.Proofs.Listing
import MountSpace.Proofs.Slots
import MountSpace.Proofs.Uuid

/-!
# Stores that hold slots

What a store answers when it holds the records of given slots, and what the steps of a
change do to its records.

- `RecordStore.Holds`: the records of the slots are there.
- `RecordStore.Represents`: they are, and nothing else is.
- `lookup_some`, `lookup_none`, `directory_some`: what a path leads to.
- `Transaction.Extends`: keys that are new come from ids that were drawn.
- `runOn_writeListing`, `runOn_addNew`: the steps that changes are made of.
-/

namespace MountSpace

namespace Slot

variable {x : Slot}

theorem Fits.isDir_of_directory (h : x.Fits) {l : Listing} (hl : x.body = .directory l) :
    x.inode.isDir = true := by
  rw [Inode.isDir, h.kind, hl]
  rfl

theorem Fits.isDir_of_file (h : x.Fits) {data : Bytes} (hd : x.body = .file data) :
    x.inode.isDir = false := by
  rw [Inode.isDir, h.kind, hd]
  rfl

end Slot

namespace RecordStore

/-- Both records of every slot are in the store. -/
def Holds (s : RecordStore) (F : Slots) : Prop :=
  ∀ p x, F p = some x → ∀ r : Role, s.get? (x.key r) = some (x.record r)

/-- The store holds a coherent tree of slots and nothing else. -/
structure Represents (s : RecordStore) (F : Slots) : Prop where
  coherent : F.Coherent
  rooted : F.Rooted
  holds : s.Holds F
  covered : ∀ k, s.get? k ≠ none → ∃ (p : Path) (r : Role), F.key p r = some k

variable {s : RecordStore} {F : Slots} {p : Path} {x : Slot}

theorem Represents.tree (h : s.Represents F) : F.space.IsTree := h.coherent.tree h.rooted

/-- What a store represents depends on its records alone. -/
theorem Represents.of_records {s' : RecordStore} (h : s.Represents F)
    (same : s'.records = s.records) : s'.Represents F := by
  have get : ∀ k, s'.get? k = s.get? k := fun k => by rw [get?, get?, same]
  exact ⟨h.coherent, h.rooted, fun p x hx r => (get _).trans (h.holds p x hx r),
    fun k hk => h.covered k (get k ▸ hk)⟩

/-- The records of grafted slots are in a store if those of each part are. -/
theorem Holds.graft {s' : RecordStore} {G : Slots} {name : Segment} {d : Slot}
    (part : s'.Holds G) (holder : ∀ r, s'.get? (d.key r) = some (d.record r))
    (rest : ∀ q y, F q = some y → ¬(p.child name).isPrefixOf q = true → q ≠ p →
      ∀ r, s'.get? (y.key r) = some (y.record r)) :
    s'.Holds (F.graft p name G d) := by
  intro q y hy r
  rcases Slots.graft_cases p q name with ⟨k, rfl⟩ | rfl | ⟨out, ne⟩
  · exact part k y ((Slots.graft_below k).symm.trans hy) r
  · cases Slots.graft_holder.symm.trans hy
    exact holder r
  · exact rest q y ((Slots.graft_other out ne).symm.trans hy) out ne r

/-- A store that has changed at one directory and below one entry of it represents the slots changed
there. -/
theorem Represents.graft (h : s.Represents F) {s' : RecordStore} {G : Slots} {name : Segment}
    {d : Slot} {l l' : Listing} (sub : G.Coherent) (hx : F p = some x) (hl : x.body = .directory l)
    (hd : x.Relists d l')
    (changed : ∀ n, l'.get? n = if n = name.text then G.key .root .inode else l.get? n)
    (apart : ∀ {k q : Path} {r r' : Role} {key : String}, G.key k r = some key →
      F.key q r' = some key → (p.child name).isPrefixOf q = true)
    (part : s'.Holds G) (holder : ∀ r, s'.get? (d.key r) = some (d.record r))
    (rest : ∀ q y, F q = some y → ¬(p.child name).isPrefixOf q = true → q ≠ p →
      ∀ r, s'.get? (y.key r) = s.get? (y.key r))
    (covered : ∀ k, s'.get? k ≠ none → (∃ r, k = d.key r) ∨ (∃ j r, G.key j r = some k) ∨
      s.get? k ≠ none ∧ ∀ j r, F.key (p.child name ++ j) r ≠ some k) :
    s'.Represents (F.graft p name G d) where
  coherent := h.coherent.graft sub hx hl hd changed apart
  rooted := h.rooted.graft hx hd
  holds := .graft part holder fun q y hy out ne r => (rest q y hy out ne r).trans (h.holds q y hy r)
  covered := by
    intro k hk
    rcases covered k hk with ⟨r, rfl⟩ | ⟨j, r, hj⟩ | ⟨old, outside⟩
    · exact ⟨p, r, Slots.key_some Slots.graft_holder r⟩
    · refine ⟨p.child name ++ j, r, ?_⟩
      rwa [Slots.key, Slots.graft_below]
    · obtain ⟨q, r, hq⟩ := h.covered k old
      refine ⟨q, r, ?_⟩
      rw [Slots.key_graft hx hd.key, if_neg]
      · exact hq
      · intro below
        rw [← Path.append_relativeTo below] at hq
        exact outside _ r hq

/-! ## What a path leads to -/

theorem Holds.inode (h : s.Holds F) (hx : F p = some x) : s.inode x.id = .ok x.inode := by
  have record : s.get? x.id = some x.inode.encode := h p x hx .inode
  simp only [RecordStore.inode, record, Inode.decode_encode]
  rfl

theorem Holds.content (h : s.Holds F) (hx : F p = some x) :
    s.content x.inode = .ok x.body.bytes := by
  have record : s.get? x.inode.contentId = some x.body.bytes := h p x hx .content
  rw [RecordStore.content, record]

theorem Holds.listing (h : s.Holds F) (hx : F p = some x) {l : Listing}
    (hl : x.body = .directory l) : s.listing x.inode = .ok l := by
  simp only [RecordStore.listing, h.content hx, hl, Body.bytes, Except.ok_bind,
    Listing.decode_encode]
  rfl

theorem follow_cons (s : RecordStore) (w : Path) (id : String) (i : Inode) (name : Segment)
    (rest : List Segment) : s.follow w (id, i) (name :: rest) =
      if i.isDir then
        (s.listing i).bind fun l =>
          match l.get? name.text with
          | none => .error (.notFound (w.child name).toText)
          | some id => (s.inode id).bind fun j => s.follow (w.child name) (id, j) rest
      else .error (.notADirectory w.toText) := by
  rw [follow]
  cases i.isDir <;> rfl

/-- Following segments goes on where following the first of them has led to. -/
theorem follow_append (s : RecordStore) (b : List Segment) : ∀ (a : List Segment) (w : Path)
    (found : String × Inode), s.follow w found (a ++ b) =
      (s.follow w found a).bind fun found => s.follow (w ++ ⟨a⟩) found b
  | [], w, found => by
    show _ = s.follow (w ++ Path.root) found b
    rw [Path.append_root]
    rfl
  | name :: a, w, (id, i) => by
    have steps : w ++ (⟨name :: a⟩ : Path) = w.child name ++ ⟨a⟩ :=
      (Path.child_append w ⟨a⟩ name).symm
    rw [List.cons_append, follow_cons, follow_cons, steps]
    by_cases dir : i.isDir = true
    · rw [if_pos dir, if_pos dir]
      cases s.listing i with
      | error e => rfl
      | ok l =>
        simp only [Except.bind]
        cases l.get? name.text with
        | none => rfl
        | some id =>
          dsimp only
          cases s.inode id with
          | error e => rfl
          | ok j => exact follow_append s b a (w.child name) (id, j)
    · rw [if_neg dir, if_neg dir]
      rfl

/-- A path is looked up by looking up its parent first. -/
theorem lookup_child (s : RecordStore) (p : Path) (name : Segment) :
    s.lookup (p.child name) = (s.lookup p).bind fun found => s.follow p found [name] := by
  rw [lookup, lookup]
  cases s.inode rootKey with
  | error e => rfl
  | ok i => exact follow_append s [name] p.segments .root (rootKey, i)

variable (ok : F.Coherent) (root : F.Rooted) (h : s.Holds F)
include ok root h

theorem lookup_some : ∀ {p : Path} {x : Slot}, F p = some x → s.lookup p = .ok (x.id, x.inode) := by
  intro p
  induction p using Path.childInduction with
  | atRoot =>
    intro x hx
    obtain ⟨y, l, hy, id, -⟩ := root
    cases hx.symm.trans hy
    have := h.inode hx
    rw [id] at this
    rw [lookup, this, id]
    rfl
  | atChild p name ih =>
    intro x hx
    obtain ⟨l, y, hy, hl⟩ := ok.held p name (by rw [hx]; exact Option.some_ne_none x)
    have listed := ok.listed p l ⟨y, hy, hl⟩ name
    rw [Slots.key_some hx] at listed
    rw [lookup_child, ih hy]
    simp only [Except.bind, follow_cons, (ok.fits p y hy).isDir_of_directory hl, h.listing hy hl,
      listed, Slot.key, h.inode hx, if_true]
    rfl

/-- Looking up a path that holds nothing fails, and in a directory the reason is just that. -/
theorem lookup_none : ∀ {p : Path}, F p = none →
    ∃ e, s.lookup p = .error e ∧ ((∃ l, F.HasListing p.parent l) → e.isNotFound = true) := by
  intro p
  induction p using Path.childInduction with
  | atRoot =>
    intro hn
    obtain ⟨y, -, hy, -, -⟩ := root
    cases hn.symm.trans hy
  | atChild p name ih =>
    intro hn
    rw [lookup_child, Path.parent_child]
    cases hp : F p with
    | none =>
      obtain ⟨e, he, -⟩ := ih hp
      rw [he]
      refine ⟨e, rfl, ?_⟩
      rintro ⟨l, dir⟩
      exact absurd hp dir.ne_none
    | some y =>
      rw [lookup_some ok root h hp]
      cases hl : y.body with
      | file data =>
        have notDir : ¬y.inode.isDir = true := by
          rw [(ok.fits p y hp).isDir_of_file hl]
          exact Bool.false_ne_true
        refine ⟨.notADirectory p.toText, ?_, ?_⟩
        · simp only [Except.bind, follow_cons, if_neg notDir]
        · rintro ⟨l, z, hz, hlz⟩
          cases hp.symm.trans hz
          cases hl.symm.trans hlz
      | directory l =>
        have listed := ok.listed p l ⟨y, hp, hl⟩ name
        rw [Slots.key_none hn] at listed
        refine ⟨.notFound (p.child name).toText, ?_, fun _ => rfl⟩
        simp only [Except.bind, follow_cons, (ok.fits p y hp).isDir_of_directory hl,
          h.listing hp hl, listed, if_true]

/-- What is found at a path is the slot there. -/
theorem slot_of_lookup {id : String} {i : Inode} (found : s.lookup p = .ok (id, i)) :
    ∃ x, F p = some x ∧ x.id = id ∧ x.inode = i := by
  cases hx : F p with
  | none =>
    obtain ⟨e, he, -⟩ := lookup_none ok root h hx
    cases he.symm.trans found
  | some x =>
    cases (lookup_some ok root h hx).symm.trans found
    exact ⟨x, rfl, rfl, rfl⟩

omit ok root h in
/-- Looking up what lies below a path fails as looking up the path does. -/
theorem lookup_below {p : Path} {e : FsError} (failed : s.lookup p = .error e) (k : Path) :
    s.lookup (p ++ k) = .error e := by
  induction k using Path.childInduction with
  | atRoot => rwa [Path.append_root]
  | atChild k name ih =>
    rw [Path.append_child, lookup_child, ih]
    rfl

theorem directory_some (hx : F p = some x) {l : Listing} (hl : x.body = .directory l) :
    s.directory p = .ok ⟨x.id, x.inode, l⟩ := by
  simp only [directory, lookup_some ok root h hx, Except.ok_bind,
    (ok.fits p x hx).isDir_of_directory hl, h.listing hx hl]
  rfl

theorem directory_error (hn : ¬∃ l, F.HasListing p l) : ∃ e, s.directory p = .error e := by
  cases hx : F p with
  | none =>
    obtain ⟨e, he, -⟩ := lookup_none ok root h hx
    exact ⟨e, by simp only [directory, he, Except.error_bind]⟩
  | some x =>
    cases hl : x.body with
    | file data =>
      refine ⟨.notADirectory p.toText, ?_⟩
      simp only [directory, lookup_some ok root h hx, Except.ok_bind,
        (ok.fits p x hx).isDir_of_file hl]
      rfl
    | directory l => exact absurd ⟨l, x, hx, hl⟩ hn

omit ok root h

/-- What is found at a path is the slot there. -/
theorem Represents.exists_of_lookup (h : s.Represents F) {p : Path} {id : String} {i : Inode}
    (found : s.lookup p = .ok (id, i)) : ∃ x, F p = some x ∧ x.id = id ∧ x.inode = i :=
  slot_of_lookup h.coherent h.rooted h.holds found

/-- A path holds a directory, which the store finds, or the store fails to find one. -/
theorem Represents.directory_cases (h : s.Represents F) (p : Path) :
    (∃ x l, F p = some x ∧ x.body = .directory l ∧ s.directory p = .ok ⟨x.id, x.inode, l⟩) ∨
      ¬F.space.IsDirectory p ∧ ∃ e, s.directory p = .error e := by
  by_cases dir : ∃ l, F.HasListing p l
  · obtain ⟨l, x, hx, hl⟩ := dir
    exact .inl ⟨x, l, hx, hl, directory_some h.coherent h.rooted h.holds hx hl⟩
  · exact .inr ⟨fun k => dir (Slots.isDirectory_iff.1 k),
      directory_error h.coherent h.rooted h.holds dir⟩

/-- A name in a listing is that of an entry, or there is no such entry. -/
theorem Represents.entry_cases (h : s.Represents F) {l : Listing} (hx : F p = some x)
    (hl : x.body = .directory l) (name : Segment) :
    (∃ y, F (p.child name) = some y ∧ l.get? name.text = some y.id) ∨
      F (p.child name) = none ∧ l.get? name.text = none := by
  have listed := h.coherent.listed p l ⟨x, hx, hl⟩ name
  cases hy : F (p.child name) with
  | none => exact .inr ⟨rfl, by rw [listed, Slots.key_none hy]⟩
  | some y => exact .inl ⟨y, rfl, by rw [listed, Slots.key_some hy]; rfl⟩

end RecordStore

/-! ## What single calls do to the records -/

namespace RecordStore

theorem get?_overwrite (s : RecordStore) (key : String) (value : Bytes) (k : String) :
    (s.overwrite key value).get? k = if k = key then some value else s.get? k :=
  SortedMap.get?_insert ..

theorem get?_delete (s : RecordStore) (key k : String) :
    (s.delete key).get? k = if k = key then none else s.get? k := SortedMap.get?_erase ..

/-- An addition that is accepted finds its key free. -/
theorem get?_of_accepts {s : RecordStore} {key : String} (h : s.accepts key = true) :
    s.get? key = none := by
  rw [accepts, Bool.and_eq_true, Bool.not_eq_true', Bool.not_eq_true'] at h
  exact SortedMap.contains_eq_false.1 h.2

theorem accepts_of_free {s : RecordStore} {key : String} (h : ∀ n, s.refuses n = false)
    (free : s.get? key = none) : s.accepts key = true := by
  rw [accepts, h, SortedMap.contains_eq_false.2 free]
  rfl

theorem get?_add_accepted {s : RecordStore} {key : String} (h : s.accepts key = true)
    (value : Bytes) (k : String) :
    (s.add key value).2.get? k = if k = key then some value else s.get? k := by
  simp only [add, h, if_true, get?]
  exact SortedMap.get?_insert ..

theorem records_add_refused {s : RecordStore} {key : String} (h : ¬s.accepts key = true)
    (value : Bytes) : (s.add key value).2.records = s.records := by
  rw [add]
  exact if_neg h

end RecordStore

namespace Transaction

/-- What a change may do to a transaction: it draws ids, and keys that are new are ids it drew. -/
structure Extends (t t' : Transaction) : Prop where
  ids : t'.ambient.ids = t.ambient.ids
  draws : t.ambient.draws ≤ t'.ambient.draws
  refuses : t'.store.refuses = t.store.refuses
  keys : ∀ k, t'.store.get? k ≠ none → t.store.get? k ≠ none ∨
    ∃ n, t.ambient.draws ≤ n ∧ n < t'.ambient.draws ∧ k = (t.ambient.ids n).toText

/-- The store refuses nothing, and the ids still to come up to a draw are new to the
store and to each other. -/
structure Fresh (t : Transaction) (bound : Nat) : Prop where
  accepts : ∀ n, t.store.refuses n = false
  distinct : ∀ m n, t.ambient.draws ≤ m → m < n → n < bound → t.ambient.ids m ≠ t.ambient.ids n
  unused : ∀ n, t.ambient.draws ≤ n → n < bound → t.store.get? (t.ambient.ids n).toText = none

/-- Nothing has come of a change. -/
structure Idle (t t' : Transaction) : Prop where
  records : t'.store.records = t.store.records
  extended : t.Extends t'

/-- A value has been added at a key that was free. -/
structure Adds (t t' : Transaction) (key : String) (value : Bytes) : Prop where
  drawn : ∃ u : Uuid, key = u.toText
  free : t.store.get? key = none
  get? : ∀ k, t'.store.get? k = if k = key then some value else t.store.get? k
  extended : t.Extends t'

variable {t t' t'' : Transaction}

theorem Extends.refl (t : Transaction) : t.Extends t :=
  ⟨rfl, Nat.le_refl _, rfl, fun _ h => .inl h⟩

theorem Extends.trans (h : t.Extends t') (h' : t'.Extends t'') : t.Extends t'' where
  ids := h'.ids.trans h.ids
  draws := Nat.le_trans h.draws h'.draws
  refuses := h'.refuses.trans h.refuses
  keys := by
    intro k hk
    rcases h'.keys k hk with old | ⟨n, lo, hi, e⟩
    · rcases h.keys k old with old | ⟨n, lo, hi, e⟩
      · exact .inl old
      · exact .inr ⟨n, lo, Nat.lt_of_lt_of_le hi h'.draws, e⟩
    · exact .inr ⟨n, Nat.le_trans h.draws lo, hi, h.ids ▸ e⟩

/-- A change that adds no key extends a transaction. -/
theorem Extends.of_keys (ids : t'.ambient.ids = t.ambient.ids)
    (draws : t.ambient.draws ≤ t'.ambient.draws) (refuses : t'.store.refuses = t.store.refuses)
    (keys : ∀ k, t'.store.get? k ≠ none → t.store.get? k ≠ none) : t.Extends t' :=
  ⟨ids, draws, refuses, fun k hk => .inl (keys k hk)⟩

/-- Ids that can still be drawn stay new. -/
theorem Fresh.extends {bound : Nat} (fresh : t.Fresh bound) (h : t.Extends t') :
    t'.Fresh bound where
  accepts := fun n => by rw [h.refuses]; exact fresh.accepts n
  distinct := fun m n hm lt bounded => by
    rw [h.ids]
    exact fresh.distinct m n (Nat.le_trans h.draws hm) lt bounded
  unused := by
    intro n hn bounded
    refine Classical.byContradiction fun taken => ?_
    rw [h.ids] at taken
    rcases h.keys _ taken with old | ⟨m, lo, hm, e⟩
    · exact old (fresh.unused n (Nat.le_trans h.draws hn) bounded)
    · exact fresh.distinct m n lo (Nat.lt_of_lt_of_le hm hn) bounded (Uuid.toText_injective e.symm)

theorem Fresh.mono {b b' : Nat} (fresh : t.Fresh b') (h : b ≤ b') : t.Fresh b where
  accepts := fresh.accepts
  distinct := fun m n hm lt bounded => fresh.distinct m n hm lt (Nat.lt_of_lt_of_le bounded h)
  unused := fun n hn bounded => fresh.unused n hn (Nat.lt_of_lt_of_le bounded h)

/-- A fresh transaction accepts the id it draws. -/
theorem Fresh.accepts_next {bound : Nat} (fresh : t.Fresh bound) (h : t.ambient.draws < bound) :
    t.store.accepts t.ambient.nextId.toText = true :=
  RecordStore.accepts_of_free fresh.accepts (fresh.unused _ (Nat.le_refl _) h)

theorem Idle.refl (t : Transaction) : t.Idle t := ⟨rfl, .refl t⟩

theorem Idle.trans (h : t.Idle t') (h' : t'.Idle t'') : t.Idle t'' :=
  ⟨h'.records.trans h.records, h.extended.trans h'.extended⟩

theorem Idle.get? (h : t.Idle t') (k : String) : t'.store.get? k = t.store.get? k := by
  rw [RecordStore.get?, RecordStore.get?, h.records]

theorem Idle.adds (h : t.Idle t') {key : String} {value : Bytes} (h' : t'.Adds t'' key value) :
    t.Adds t'' key value where
  drawn := h'.drawn
  free := (h.get? key).symm.trans h'.free
  get? := fun k => by rw [h'.get?, h.get?]
  extended := h.extended.trans h'.extended

/-- What was stored before an addition is stored after it. -/
theorem Adds.kept {key k : String} {value old : Bytes} (h : t.Adds t' key value)
    (there : t.store.get? k = some old) : t'.store.get? k = some old := by
  have ne : k ≠ key := fun e => by
    rw [e, h.free] at there
    cases there
  rw [h.get?, if_neg ne, there]

/-- An addition that is taken back, after another one was refused, leaves nothing. -/
theorem Adds.taken_back {key : String} {value : Bytes} (h : t.Adds t' key value)
    (refused : t'.Idle t'') : t.Idle { t'' with store := t''.store.delete key } where
  records := by
    refine SortedMap.ext_get? fun k => ?_
    refine (RecordStore.get?_delete ..).trans ?_
    show _ = t.store.get? k
    rw [refused.get?, h.get?]
    split
    next e => rw [e, h.free]
    next => rfl
  extended := by
    refine (h.extended.trans refused.extended).trans (.of_keys rfl (Nat.le_refl _) rfl ?_)
    intro k hk gone
    refine hk ((RecordStore.get?_delete ..).trans ?_)
    split
    · rfl
    · exact gone

end Transaction

namespace StoreAction

open Transaction

variable {α β : Type}

@[simp] theorem runOn_ask_bind (inquiry : RecordStore → Except FsError α) (f : α → StoreAction β)
    (t : Transaction) : (ask inquiry >>= f).runOn t =
      match inquiry t.store with
      | .ok a => (f a).runOn t
      | .error e => (.error e, t) := by
  rw [Action.runOn_bind, ask, Action.runOn_get_bind, Action.runOn_ofExcept]
  cases inquiry t.store <;> rfl

@[simp] theorem runOn_ask (inquiry : RecordStore → Except FsError α) (t : Transaction) :
    (ask inquiry).runOn t = (inquiry t.store, t) := by
  rw [ask, Action.runOn_get_bind, Action.runOn_ofExcept]

@[simp] theorem runOn_now_bind (f : Instant → StoreAction β) (t : Transaction) :
    (now >>= f).runOn t = (f t.ambient.now).runOn { t with ambient := t.ambient.tick } := rfl

@[simp] theorem runOn_drawId_bind (f : Uuid → StoreAction β) (t : Transaction) :
    (drawId >>= f).runOn t = (f t.ambient.nextId).runOn { t with ambient := t.ambient.drawn } := rfl

@[simp] theorem runOn_overwrite (key : String) (value : Bytes) (t : Transaction) :
    (overwrite key value).runOn t = (.ok (), { t with store := t.store.overwrite key value }) := rfl

@[simp] theorem runOn_overwrite_bind (key : String) (value : Bytes) (f : Unit → StoreAction β)
    (t : Transaction) : (overwrite key value >>= f).runOn t =
      (f ()).runOn { t with store := t.store.overwrite key value } := rfl

@[simp] theorem runOn_add_bind (key : String) (value : Bytes) (f : Bool → StoreAction β)
    (t : Transaction) : (add key value >>= f).runOn t =
      (f (t.store.accepts key)).runOn { t with store := (t.store.add key value).2 } := rfl

/-- An id is drawn, and a value is offered to the store under it. -/
theorem adds_of_accepts {t t' : Transaction} {value : Bytes}
    (accepted : t.store.accepts t.ambient.nextId.toText = true)
    (store : t'.store = (t.store.add t.ambient.nextId.toText value).2)
    (ids : t'.ambient.ids = t.ambient.ids) (draws : t'.ambient.draws = t.ambient.draws + 1) :
    t.Adds t' t.ambient.nextId.toText value where
  drawn := ⟨_, rfl⟩
  free := RecordStore.get?_of_accepts accepted
  get? := fun k => by rw [store, RecordStore.get?_add_accepted accepted]
  extended := by
    refine ⟨ids, by omega, by rw [store]; rfl, fun k hk => ?_⟩
    rw [store, RecordStore.get?_add_accepted accepted] at hk
    split at hk
    next e => exact .inr ⟨t.ambient.draws, Nat.le_refl _, by omega, e⟩
    next => exact .inl hk

theorem idle_of_refused {t t' : Transaction} {key : String} {value : Bytes}
    (refused : ¬t.store.accepts key = true) (store : t'.store = (t.store.add key value).2)
    (ids : t'.ambient.ids = t.ambient.ids) (draws : t.ambient.draws ≤ t'.ambient.draws) :
    t.Idle t' := by
  have records : t'.store.records = t.store.records := by
    rw [store, RecordStore.records_add_refused refused]
  refine ⟨records, .of_keys ids draws (by rw [store]; rfl) fun k hk => ?_⟩
  rwa [RecordStore.get?, records] at hk

/-- A value is added under some id, or the first id that was drawn was refused. -/
theorem runOn_addNewWithin (value : Bytes) : ∀ (n : Nat) (t : Transaction),
    ∃ t', (∃ key, (addNewWithin value n).runOn t = (.ok key, t') ∧ t.Adds t' key value) ∨
      (∃ e, (addNewWithin value n).runOn t = (.error e, t') ∧ t.Idle t' ∧
        (n ≠ 0 → t.ambient.draws < t'.ambient.draws ∧
          ¬t.store.accepts t.ambient.nextId.toText = true))
  | 0, t => ⟨t, .inr ⟨_, rfl, .refl t, fun no => absurd rfl no⟩⟩
  | n + 1, t => by
    rw [addNewWithin, runOn_drawId_bind, runOn_add_bind]
    dsimp only
    let t₁ : Transaction :=
      ⟨(t.store.add t.ambient.nextId.toText value).2, t.ambient.drawn⟩
    by_cases accepted : t.store.accepts t.ambient.nextId.toText = true
    · rw [if_pos accepted]
      exact ⟨t₁, .inl ⟨_, rfl, adds_of_accepts accepted rfl rfl rfl⟩⟩
    · rw [if_neg accepted]
      -- A refusal leaves the store as it was, and the next id is tried.
      have idle : t.Idle t₁ := idle_of_refused accepted rfl rfl (Nat.le_succ _)
      obtain ⟨t', ⟨key, hr, added⟩ | ⟨e, hr, idle', -⟩⟩ := runOn_addNewWithin value n t₁
      · exact ⟨t', .inl ⟨key, hr, idle.adds added⟩⟩
      · exact ⟨t', .inr ⟨e, hr, idle.trans idle', fun _ => ⟨idle'.extended.draws, accepted⟩⟩⟩

/-- A value is added under some id, or the first id that was drawn was refused. -/
theorem runOn_addNew (value : Bytes) (t : Transaction) :
    ∃ t', (∃ key, (addNew value).runOn t = (.ok key, t') ∧ t.Adds t' key value) ∨
      (∃ e, (addNew value).runOn t = (.error e, t') ∧ t.Idle t' ∧
        t.ambient.draws < t'.ambient.draws ∧ ¬t.store.accepts t.ambient.nextId.toText = true) := by
  obtain ⟨t', h | ⟨e, hr, idle, refused⟩⟩ := runOn_addNewWithin value idAttempts t
  · exact ⟨t', .inl h⟩
  · exact ⟨t', .inr ⟨e, hr, idle, refused (by decide)⟩⟩

/-! ## Writing a listing, removing an entry -/

/-- The records of a slot, and nothing else, have changed to those of another one. -/
structure Rewrites (t t' : Transaction) (x d : Slot) : Prop where
  own : ∀ r, t'.store.get? (x.key r) = some (d.record r)
  other : ∀ k, (∀ r, k ≠ x.key r) → t'.store.get? k = t.store.get? k
  refuses : t'.store.refuses = t.store.refuses
  ids : t'.ambient.ids = t.ambient.ids
  draws : t'.ambient.draws = t.ambient.draws

theorem Rewrites.extends {t t' : Transaction} {x d : Slot} (h : Rewrites t t' x d)
    (there : ∀ r, t.store.get? (x.key r) ≠ none) : t.Extends t' := by
  refine .of_keys h.ids (Nat.le_of_eq h.draws.symm) h.refuses fun k hk => ?_
  by_cases own : ∃ r, k = x.key r
  · obtain ⟨r, rfl⟩ := own
    exact there r
  · rwa [h.other k fun r e => own ⟨r, e⟩] at hk

/-- The inode is written only where it changes, and is then in the store what it should be. -/
theorem runOn_update {t : Transaction} {x : Slot} (a : FileAttr) (body : Body)
    (inode : t.store.get? x.id = some x.inode.encode) (apart : x.id ≠ x.inode.contentId) :
    ∃ t', (do
        overwrite x.inode.contentId body.bytes
        if (x.inode.update a).1 then overwrite x.id (x.inode.update a).2.encode :
          StoreAction Unit).runOn t = (.ok (), t') ∧
      Rewrites t t' x ⟨x.id, (x.inode.update a).2, body⟩ := by
  rw [runOn_overwrite_bind]
  by_cases changed : (x.inode.update a).1 = true
  · rw [if_pos changed]
    refine ⟨_, rfl, ?_, fun k ne => ?_, rfl, rfl, rfl⟩
    · rintro (_ | _)
      · exact (RecordStore.get?_overwrite ..).trans (if_pos rfl)
      · refine (RecordStore.get?_overwrite ..).trans ((if_neg (Ne.symm apart)).trans ?_)
        exact (RecordStore.get?_overwrite ..).trans (if_pos rfl)
    · refine (RecordStore.get?_overwrite ..).trans ((if_neg (ne .inode)).trans ?_)
      exact (RecordStore.get?_overwrite ..).trans (if_neg (ne .content))
  · rw [if_neg changed]
    have same := Inode.update_unchanged (Bool.eq_false_iff.2 changed)
    refine ⟨_, rfl, ?_, fun k ne => ?_, rfl, rfl, rfl⟩
    · rintro (_ | _)
      · refine (RecordStore.get?_overwrite ..).trans ((if_neg apart).trans (inode.trans ?_))
        show _ = some (x.inode.update a).2.encode
        rw [same]
      · exact (RecordStore.get?_overwrite ..).trans (if_pos rfl)
    · exact (RecordStore.get?_overwrite ..).trans (if_neg (ne .content))

/-- Writing a listing changes the records of the directory, and nothing else. -/
theorem runOn_writeListing {t : Transaction} {x : Slot} {l : Listing} (l' : Listing) (fits : x.Fits)
    (hl : x.body = .directory l) (inode : t.store.get? x.id = some x.inode.encode)
    (apart : x.id ≠ x.inode.contentId) :
    ∃ d t', (writeListing x.id x.inode l').runOn t = (.ok (), t') ∧ x.Relists d l' ∧
      Rewrites t t' x d := by
  let a : FileAttr :=
    { x.inode.toAttr with size := l'.encode.length.toUInt64 }.touch t.ambient.now
  obtain ⟨t', hr, h⟩ := runOn_update (t := { t with ambient := t.ambient.tick }) a (.directory l')
    inode apart
  refine ⟨⟨x.id, (x.inode.update a).2, .directory l'⟩, t', ?_, ⟨rfl, rfl, ?_, ⟨rfl, rfl⟩,
    ⟨?_, Inode.isTagged_update _ a, ?_⟩, rfl⟩,
    h.own, h.other, h.refuses, h.ids, h.draws⟩
  · rw [writeListing, runOn_now_bind]
    exact hr
  · rw [Inode.perm_update]
    show x.inode.toAttr.perm &&& permMask = _
    rw [Inode.perm_toAttr, Inode.perm_masked]
  · rw [Inode.kind_update]
    show x.inode.toAttr.kind = _
    rw [Inode.kind_toAttr, fits.kind, hl]
    rfl
  · intro data h
    cases h

/-- The records of a slot, and nothing else, are gone. -/
structure Deletes (t t' : Transaction) (x : Slot) : Prop where
  own : ∀ r, t'.store.get? (x.key r) = none
  other : ∀ k, (∀ r, k ≠ x.key r) → t'.store.get? k = t.store.get? k
  extended : t.Extends t'

theorem runOn_deleteBoth (x : Slot) (t : Transaction) :
    ∃ t', (deleteBoth x.id x.inode).runOn t = (.ok (), t') ∧ Deletes t t' x := by
  have get : ∀ k, ((t.store.delete x.inode.contentId).delete x.id).get? k =
      if k = x.id then none else if k = x.inode.contentId then none
          else t.store.get? k := fun k => by
    rw [RecordStore.get?_delete, RecordStore.get?_delete]
  refine ⟨_, rfl, ?_, fun k ne => ?_, .of_keys rfl (Nat.le_refl _) rfl fun k hk => ?_⟩
  · rintro (_ | _)
    · exact (get _).trans (if_pos rfl)
    · refine (get _).trans ?_
      split
      · rfl
      · exact if_pos rfl
  · exact (get k).trans ((if_neg (ne .inode)).trans (if_neg (ne .content)))
  · rw [get] at hk
    split at hk
    · exact absurd rfl hk
    · split at hk
      · exact absurd rfl hk
      · exact hk

end StoreAction

end MountSpace
