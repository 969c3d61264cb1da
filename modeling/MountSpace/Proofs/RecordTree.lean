import MountSpace.KeyValue.Tree
import MountSpace.Proofs.Records

/-!
# Trees of records as spaces

What each operation on a store of records does to the space that the records stand for, and that the
store represents a tree of slots again afterwards.

- `RecordTree.Performs`: what may come of a change. One that fails leaves all records alone.
- `runOn_addRecords`: the records of a new entry are added, or none is.
- `runOn_addEntry`, `remove_performs`, `rename_performs`, `sync_performs`: the changes.
- `Shifts`, `rename_moves`: what becomes of each slot when an entry is moved.
-/

namespace MountSpace

/-- A change needs new ids. -/
def Change.drawsIds : Change → Bool
  | .mkdir _ _ => true
  | _ => false

namespace RecordTree

open StoreAction Transaction

/-- What came of a change of a store: it was allowed and took place, or no record has changed. It
fails without reason only where an id that it drew was not fresh. -/
def Performs (F : Slots) (c : Change) (t : Transaction) : Except FsError Unit × Transaction → Prop
  | (.ok _, t') => F.space.Allows c ∧ t.Extends t' ∧
      ∃ F', t'.store.Represents F' ∧ F'.space = F.space.after c
  | (.error _, t') => t.Idle t' ∧
      (t.Fresh t'.ambient.draws ∨ c.drawsIds = false → ¬F.space.Allows c)

variable {F : Slots} {t : Transaction}

/-! ## Adding an entry -/

/-- Two records added under new keys, and a directory rewritten, make one more entry. -/
theorem represents_added (h : t.store.Represents F) {p : Path} {name : Segment} {x y d : Slot}
    {l : Listing} {t₁ t₂ t₃ : Transaction} (hx : F p = some x) (hl : x.body = .directory l)
    (below : ∀ j : Path, F (p.child name ++ j) = none) (fits : y.Fits)
    (empty : ∀ l, y.body = .directory l → l = ∅)
    (content : t.Adds t₁ y.inode.contentId y.body.bytes) (inode : t₁.Adds t₂ y.id y.inode.encode)
    (hd : x.Relists d (l.insert name.text y.id)) (rewritten : Rewrites t₂ t₃ x d) :
    t₃.store.Represents (F.graft p name (Slots.only y) d) := by
  have apart : y.id ≠ y.inode.contentId := fun e => by
    have := inode.free
    rw [content.get?, if_pos e] at this
    cases this
  have new : ∀ r, t.store.get? (y.key r) = none := by
    rintro (_ | _)
    · have := inode.free
      rwa [content.get?, if_neg apart] at this
    · exact content.free
  -- No key that was in use is one of the new ones.
  have used : ∀ {q z}, F q = some z → ∀ r r', z.key r ≠ y.key r' := by
    intro q z hz r r' e
    have := h.holds q z hz r
    rw [e, new] at this
    cases this
  have kept : ∀ k, (∀ r, k ≠ y.key r) → t₂.store.get? k = t.store.get? k := fun k ne =>
    (inode.get? k).trans
      ((if_neg (ne .inode)).trans ((content.get? k).trans (if_neg (ne .content))))
  have put : ∀ r, t₂.store.get? (y.key r) = some (y.record r) := by
    rintro (_ | _)
    · exact (inode.get? _).trans (if_pos rfl)
    · refine (inode.get? _).trans ((if_neg (Ne.symm apart)).trans ?_)
      exact (content.get? _).trans (if_pos rfl)
  refine h.graft (Slots.coherent_only fits apart empty) hx hl hd (fun n => ?_) ?_ ?_ ?_ ?_ ?_
  · rw [SortedMap.get?_insert, Slots.key_some Slots.only_root]
    rfl
  · intro k q r r' key hk hq
    obtain ⟨z, hz, rfl⟩ := Slots.exists_of_key hk
    obtain ⟨w, hw, e⟩ := Slots.exists_of_key hq
    rw [(Slots.eq_root_of_only hz).2] at e
    exact absurd e (used hw r' r)
  · intro k z hz r
    rw [(Slots.eq_root_of_only hz).2, rewritten.other _ fun r' e => used hx r' r e.symm]
    exact put r
  · intro r
    rw [hd.key]
    exact rewritten.own r
  · intro q z hz _ ne r
    rw [rewritten.other _ fun r' e => ne (h.coherent.owned_eq hz e (Slots.key_some hx r')).1,
      kept _ (used hz r)]
  · intro k hk
    by_cases own : ∃ r, k = x.key r
    · obtain ⟨r, rfl⟩ := own
      exact .inl ⟨r, (hd.key r).symm⟩
    · rw [rewritten.other k fun r e => own ⟨r, e⟩] at hk
      by_cases mine : ∃ r, k = y.key r
      · obtain ⟨r, rfl⟩ := mine
        exact .inr (.inl ⟨.root, r, Slots.key_some Slots.only_root r⟩)
      · rw [kept k fun r e => mine ⟨r, e⟩] at hk
        exact .inr (.inr ⟨hk, fun j r e => by rw [Slots.key_none (below j)] at e; cases e⟩)

/-- Grafting a lone slot puts its entry into the space. -/
theorem space_added {p : Path} {name : Segment} {x y d : Slot} {l l' : Listing} (hx : F p = some x)
    (hl : x.body = .directory l) (hd : x.Relists d l')
    (below : ∀ k : Path, k ≠ .root → F (p.child name ++ k) = none) :
    (F.graft p name (Slots.only y) d).space = F.space.put (p.child name) y.entry := by
  funext q
  rw [Slots.space_graft hx (hd.entry hl), Space.put]
  by_cases h : (p.child name).isPrefixOf q = true
  · obtain ⟨k, rfl⟩ := Path.isPrefixOf_iff.1 h
    rw [if_pos h, Path.relativeTo_append]
    by_cases hk : k = .root
    · rw [hk, Path.append_root, if_pos rfl, Slots.space_some Slots.only_root]
    · rw [if_neg fun e => hk (Path.append_eq_left.1 e), Slots.space_none (if_neg hk),
        Slots.space_none (below k hk)]
  · rw [if_neg h, if_neg fun e : q = p.child name => h (e ▸ Path.isPrefixOf_self _)]

/-- The kind, the content and the permissions of an entry that is added. -/
structure IsNew (y : Slot) (body : Body) (perm : UInt32) : Prop where
  body : y.body = body
  perm : y.inode.perm = perm &&& permMask
  fits : y.Fits

/-- What is added at first: an empty file or an empty directory. -/
def IsInitial (body : Body) : Prop := body = .file [] ∨ body = .directory ∅

/-- The part of adding an entry that can be refused: its content and its inode are added. If the id
of the inode is taken, the content is removed again. -/
def addRecords (kind : FileKind) (perm : UInt32) (content : Bytes) :
    StoreAction (String × Inode) := do
  let contentId ← addNew content
  let id ← drawId
  let stamp := (← now).toMillis
  let inode ← Action.ofExcept <| Except.mapError .ofInode <|
    Inode.make contentId 0 id.low content.length.toUInt32 (kind.mode perm).toUInt16
      stamp stamp stamp
  unless ← add id.toText inode.encode do
    delete inode.contentId
    throw (.other "inode id collision")
  return (id.toText, inode)

/-- An entry is added by looking at its directory, adding its records and writing the listing. -/
theorem addEntry_eq (p : Path) (kind : FileKind) (perm : UInt32) (content : Bytes) :
    addEntry p kind perm content = (do
      let some name := p.name? | throw (.alreadyExists p.toText)
      let dir ← ask (·.directory p.parent)
      if dir.listing.contains name.text then
        throw (.alreadyExists p.toText)
      let (id, inode) ← addRecords kind perm content
      writeListing dir.id dir.inode (dir.listing.insert name.text id)
      return inode) := by
  unfold addEntry
  cases p.name? with
  | none => rfl
  | some name =>
    refine bind_congr fun dir => ?_
    by_cases taken : dir.listing.contains name.text = true
    · simp only [if_pos taken]
      rfl
    · simp only [if_neg taken, addRecords, bind_assoc]
      -- The two differ only in where they go on once the inode is stored.
      refine bind_congr fun contentId => bind_congr fun id => bind_congr fun now => ?_
      refine bind_congr fun inode => bind_congr fun accepted => ?_
      cases accepted <;> rfl

/-- Both records of an entry are added under new ids, or an id was not fresh
and nothing is added. -/
theorem runOn_addRecords (kind : FileKind) (perm : UInt32) (content : Bytes)
    (t : Transaction) : ∃ t',
    (∃ id i t₁, (addRecords kind perm content).runOn t = (.ok (id, i), t') ∧
      t.Adds t₁ i.contentId content ∧ t₁.Adds t' id i.encode ∧
      i.size = content.length.toUInt32 ∧ i.kind = kind ∧ i.perm = perm &&& permMask ∧ i.IsTagged) ∨
    (∃ e, (addRecords kind perm content).runOn t = (.error e, t') ∧ t.Idle t' ∧
      ¬t.Fresh t'.ambient.draws) := by
  unfold addRecords
  obtain ⟨t₁, ⟨c, hr, added⟩ | ⟨e, hr, idle, drew, refused⟩⟩ := runOn_addNew content t
  case inr =>
    rw [Action.runOn_bind_error hr]
    exact ⟨t₁, .inr ⟨e, rfl, idle, fun fresh => refused (fresh.accepts_next drew)⟩⟩
  rw [Action.runOn_bind_ok hr]
  simp only [runOn_drawId_bind, runOn_now_bind]
  have ascii : IsAscii c := by
    obtain ⟨u, rfl⟩ := added.drawn
    exact Uuid.isAscii_toText u
  let stamp := t₁.ambient.drawn.now.toMillis
  obtain ⟨i, hi, hc, size, kinds, perms⟩ := Inode.make_ok ascii 0 t₁.ambient.nextId.low
    content.length.toUInt32 kind perm stamp stamp stamp
  have made : (Inode.make c 0 t₁.ambient.nextId.low content.length.toUInt32
    (kind.mode perm).toUInt16 stamp stamp stamp).mapError FsError.ofInode = .ok i := by
    rw [hi]
    rfl
  rw [made, Action.runOn_ofExcept_bind]
  dsimp only
  rw [runOn_add_bind]
  subst hc
  let t₂ : Transaction :=
    ⟨(t₁.store.add t₁.ambient.nextId.toText i.encode).2, t₁.ambient.drawn.tick⟩
  by_cases accepted : t₁.store.accepts t₁.ambient.nextId.toText = true
  · rw [if_pos accepted]
    have inode : t₁.Adds t₂ t₁.ambient.nextId.toText i.encode :=
      adds_of_accepts accepted rfl rfl rfl
    exact ⟨t₂, .inl ⟨_, i, t₁, rfl, added, inode, size, kinds, perms⟩⟩
  · rw [if_neg accepted]
    have refused : t₁.Idle t₂ := idle_of_refused accepted rfl rfl (Nat.le_succ _)
    -- The content that was added is removed again, and nothing else was added.
    refine ⟨_, .inr ⟨_, rfl, added.taken_back refused, fun fresh => accepted ?_⟩⟩
    exact Fresh.accepts_next (fresh.extends added.extended) (Nat.lt_succ_self _)

/-- An entry is added where a path is free. Otherwise, and where an id is
refused, nothing changes. -/
theorem runOn_addEntry (h : t.store.Represents F) (p : Path) (body : Body)
    (initial : IsInitial body) (perm : UInt32) : ∃ t',
      (∃ y, (addEntry p body.kind perm body.bytes).runOn t = (.ok y.inode, t') ∧ IsNew y body perm ∧
        F.space.IsFree p ∧ t.Extends t' ∧
        ∃ F', t'.store.Represents F' ∧ F'.space = F.space.put p y.entry ∧ F.Grows F') ∨
      (∃ e, (addEntry p body.kind perm body.bytes).runOn t = (.error e, t') ∧ t.Idle t' ∧
        (t.Fresh t'.ambient.draws → ¬F.space.IsFree p)) := by
  rcases Path.root_or_child p with rfl | ⟨p, name, rfl⟩
  · exact ⟨t, .inr ⟨_, rfl, .refl t, fun _ free => h.tree.free_ne_root free rfl⟩⟩
  rw [addEntry_eq, Path.name?_child, Path.parent_child]
  simp only [runOn_ask_bind]
  rcases h.directory_cases p with ⟨x, l, hx, hl, found⟩ | ⟨notDir, e, he⟩
  case inr =>
    rw [he]
    refine ⟨t, .inr ⟨e, rfl, .refl t, fun _ free => notDir ?_⟩⟩
    rw [← Path.parent_child p name]
    exact free.2
  rw [found]
  rcases h.entry_cases hx hl name with ⟨z, hz, listed⟩ | ⟨free, listed⟩
  case inl =>
    have taken : l.contains name.text = true := SortedMap.contains_iff.2 ⟨_, listed⟩
    simp only [taken, if_true]
    refine ⟨t, .inr ⟨_, rfl, .refl t, fun _ free => ?_⟩⟩
    rw [Space.IsFree, Slots.space_some hz] at free
    exact Option.some_ne_none _ free.1
  have notTaken : l.contains name.text = false := SortedMap.contains_eq_false.2 listed
  simp only [notTaken, Bool.false_eq_true, if_false]
  have isFree : F.space.IsFree (p.child name) := by
    refine ⟨Slots.space_none free, ?_⟩
    rw [Path.parent_child]
    exact Slots.isDirectory_iff.2 ⟨l, x, hx, hl⟩
  have below : ∀ k : Path, F (p.child name ++ k) = none := fun k =>
    Slots.space_eq_none_iff.1 (h.tree.free_below isFree k)
  obtain ⟨t₂, ⟨id, i, t₁, hr, content, inode, size, kind, perms,
      tagged⟩ | ⟨e, hr, idle, notFresh⟩⟩ :=
    runOn_addRecords body.kind perm body.bytes t
  case inr =>
    rw [Action.runOn_bind_error hr]
    exact ⟨t₂, .inr ⟨e, rfl, idle, fun fresh => absurd fresh notFresh⟩⟩
  rw [Action.runOn_bind_ok hr]
  let y : Slot := ⟨id, i, body⟩
  have new : IsNew y body perm := by
    refine ⟨rfl, perms, kind, tagged, fun data hd => size.trans ?_⟩
    have hd : body = .file data := hd
    rcases initial with rfl | rfl <;> cases hd
    rfl
  have empty : ∀ l, y.body = .directory l → l = ∅ := fun l hl => by
    have hl : body = .directory l := hl
    rcases initial with rfl | rfl <;> cases hl
    rfl
  have extended := content.extended.trans inode.extended
  have there : ∀ r, t₂.store.get? (x.key r) = some (x.record r) := fun r =>
    inode.kept (content.kept (h.holds p x hx r))
  obtain ⟨d, t₃, hw, hd, rewritten⟩ := runOn_writeListing (t := t₂) (l.insert name.text y.id)
    (h.coherent.fits p x hx) hl (there .inode) (h.coherent.id_ne_contentId hx)
  have represents := represents_added h hx hl below new.fits empty content inode hd rewritten
  refine ⟨t₃, .inl ⟨y, ?_, new, isFree, extended.trans (rewritten.extends fun r => ?_), _,
    represents, space_added hx hl hd fun k _ => below k, Slots.grows_graft hx hl hd below⟩⟩
  · dsimp only
    rw [Action.runOn_bind_ok hw]
    rfl
  · rw [there]
    exact Option.some_ne_none _

/-- A new directory is one entry more. -/
theorem mkdir_performs (h : t.store.Represents F) (p : Path) (mode : UInt32) :
    Performs F (.mkdir p mode) t ((mkdir p mode).runOn t) := by
  unfold mkdir
  rw [Action.runOn_discard]
  obtain ⟨t', ⟨y, hr, new, free, extended, F', hF, space, -⟩ | ⟨e, hr, idle, taken⟩⟩ :=
    runOn_addEntry h p (.directory ∅) (.inr rfl) mode
  · rw [show (addEntry p .directory mode (Listing.encode ∅)).runOn t = _ from hr]
    refine ⟨free, extended, F', hF, space.trans ?_⟩
    rw [Slot.entry_directory new.body, new.perm]
    rfl
  · rw [show (addEntry p .directory mode (Listing.encode ∅)).runOn t = _ from hr]
    refine ⟨idle, fun fresh => taken (fresh.resolve_right ?_)⟩
    exact fun no => Bool.noConfusion no

/-- A new directory takes nothing away, and nothing changes where none is made. -/
theorem mkdir_grows (h : t.store.Represents F) (p : Path) (mode : UInt32) :
    ∃ F', ((mkdir p mode).runOn t).2.store.Represents F' ∧ F.Grows F' := by
  unfold mkdir
  rw [Action.runOn_discard]
  obtain ⟨t', ⟨y, hr, -, -, -, F', hF, -, grows⟩ | ⟨e, hr, idle, -⟩⟩ :=
    runOn_addEntry h p (.directory ∅) (.inr rfl) mode
  · rw [show (addEntry p .directory mode (Listing.encode ∅)).runOn t = _ from hr]
    exact ⟨F', hF, grows⟩
  · rw [show (addEntry p .directory mode (Listing.encode ∅)).runOn t = _ from hr]
    exact ⟨F, h.of_records idle.records, fun q x hx => ⟨x, hx, .inl rfl⟩⟩

/-! ## Removing an entry -/

/-- The change that removes an entry of a kind. -/
def removal (p : Path) : FileKind → Change
  | .file => .unlink p
  | .directory => .rmdir p

theorem after_removal (S : Space) (p : Path) (kind : FileKind) :
    S.after (removal p kind) = S.remove p := by
  cases kind <;> rfl

/-- What may be removed is an entry of the kind that is meant, and has no entries itself. -/
theorem allows_removal {S : Space} (tree : S.IsTree) {p : Path} {kind : FileKind} :
    S.Allows (removal p kind) ↔
      p ≠ .root ∧ (∃ e, S p = some e ∧ e.kind = kind) ∧ ¬S.HasEntries p := by
  cases kind with
  | file =>
    constructor
    · intro file
      refine ⟨tree.file_ne_root file, ?_, tree.file_no_entries file⟩
      obtain ⟨perm, data, h⟩ := file
      exact ⟨_, h, rfl⟩
    · rintro ⟨-, ⟨e, he, kind⟩, -⟩
      exact Space.isFile_of_kind he kind
  | directory =>
    constructor
    · rintro ⟨nonroot, ⟨perm, h⟩, empty⟩
      exact ⟨nonroot, ⟨_, h, rfl⟩, empty⟩
    · rintro ⟨nonroot, ⟨e, he, kind⟩, empty⟩
      exact ⟨nonroot, Space.isDirectory_of_kind he kind, empty⟩

/-- A directory rewritten, and both records of a childless entry deleted, make one entry less. -/
theorem represents_removed (h : t.store.Represents F) {p : Path} {name : Segment} {x y d : Slot}
    {l : Listing} {t₁ t₂ : Transaction} (hx : F p = some x) (hl : x.body = .directory l)
    (hy : F (p.child name) = some y) (below : ∀ k : Path, k ≠ .root → F (p.child name ++ k) = none)
    (hd : x.Relists d (l.erase name.text)) (rewritten : Rewrites t t₁ x d)
    (deleted : Deletes t₁ t₂ y) : t₂.store.Represents (F.graft p name (fun _ => none) d) := by
  have apart : ∀ r r', x.key r ≠ y.key r' := fun r r' e =>
    Path.child_ne_self p name (h.coherent.owned_eq hy e.symm (Slots.key_some hx r)).1
  refine h.graft Slots.coherent_none hx hl hd (fun n => ?_) (fun hk _ => by cases hk)
    (fun k z hz => by cases hz) ?_ ?_ ?_
  · rw [SortedMap.get?_erase]
    rfl
  · intro r
    rw [hd.key, deleted.other _ (apart r)]
    exact rewritten.own r
  · intro q z hz out ne r
    rw [deleted.other, rewritten.other]
    · exact fun r' e => ne (h.coherent.owned_eq hz e (Slots.key_some hx r')).1
    · intro r' e
      have := (h.coherent.owned_eq hz e (Slots.key_some hy r')).1
      exact out (this ▸ Path.isPrefixOf_self _)
  · intro k hk
    have kept : ∀ r, k ≠ y.key r := fun r e => hk (e ▸ deleted.own r)
    rw [deleted.other k kept] at hk
    by_cases own : ∃ r, k = x.key r
    · obtain ⟨r, rfl⟩ := own
      exact .inl ⟨r, (hd.key r).symm⟩
    · rw [rewritten.other k fun r e => own ⟨r, e⟩] at hk
      refine .inr (.inr ⟨hk, fun j r e => ?_⟩)
      by_cases hj : j = .root
      · rw [hj, Path.append_root, Slots.key_some hy] at e
        exact kept r (Option.some.inj e).symm
      · rw [Slots.key_none (below j hj)] at e
        cases e

/-- Grafting nothing in the place of a childless entry removes it from the space. -/
theorem space_removed {p : Path} {name : Segment} {x d : Slot} {l l' : Listing} (hx : F p = some x)
    (hl : x.body = .directory l) (hd : x.Relists d l')
    (below : ∀ k : Path, k ≠ .root → F (p.child name ++ k) = none) :
    (F.graft p name (fun _ => none) d).space = F.space.remove (p.child name) := by
  funext q
  rw [Slots.space_graft hx (hd.entry hl), Space.remove]
  by_cases h : (p.child name).isPrefixOf q = true
  · obtain ⟨k, rfl⟩ := Path.isPrefixOf_iff.1 h
    rw [if_pos h]
    by_cases hk : k = .root
    · rw [hk, Path.append_root, if_pos rfl]
      rfl
    · rw [if_neg fun e => hk (Path.append_eq_left.1 e), Slots.space_none (below k hk)]
      rfl
  · rw [if_neg h, if_neg fun e : q = p.child name => h (e ▸ Path.isPrefixOf_self _)]

/-- A childless entry is taken out of the listing, then deleted. -/
theorem runOn_unlist (h : t.store.Represents F) {p : Path} {name : Segment} {x y : Slot}
    {l : Listing} (hx : F p = some x) (hl : x.body = .directory l) (hy : F (p.child name) = some y)
    (leaf : ¬F.space.HasEntries (p.child name)) :
    ∃ t', (do
        writeListing x.id x.inode (l.erase name.text)
        deleteBoth y.id y.inode : StoreAction Unit).runOn t = (.ok (), t') ∧ t.Extends t' ∧
      ∃ F', t'.store.Represents F' ∧ F'.space = F.space.remove (p.child name) := by
  have below : ∀ k : Path, k ≠ .root → F (p.child name ++ k) = none := fun k hk =>
    Slots.space_eq_none_iff.1 (h.tree.nothing_below leaf hk)
  obtain ⟨d, t₁, hw, hd, rewritten⟩ := runOn_writeListing (l.erase name.text)
    (h.coherent.fits p x hx) hl (h.holds p x hx .inode) (h.coherent.id_ne_contentId hx)
  obtain ⟨t₂, hr, deleted⟩ := runOn_deleteBoth y t₁
  refine ⟨t₂, ?_, .trans (rewritten.extends fun r => ?_) deleted.extended, _,
    represents_removed h hx hl hy below hd rewritten deleted, space_removed hx hl hd below⟩
  · rw [Action.runOn_bind_ok hw]
    exact hr
  · rw [h.holds p x hx r]
    exact Option.some_ne_none _

/-- An entry is removed where it is of the kind that is meant and has no entries itself. -/
theorem remove_performs (h : t.store.Represents F) (p : Path) (wanted : FileKind) :
    Performs F (removal p wanted) t ((remove p wanted).runOn t) := by
  rcases Path.root_or_child p with rfl | ⟨p, name, rfl⟩
  · exact ⟨.refl t, fun _ allowed => ((allows_removal h.tree).1 allowed).1 rfl⟩
  unfold remove
  rw [Path.name?_child, Path.parent_child]
  simp only [runOn_ask_bind]
  rcases h.directory_cases p with ⟨x, l, hx, hl, found⟩ | ⟨notDir, e, he⟩
  case inr =>
    rw [he]
    refine ⟨.refl t, fun _ allowed => notDir ?_⟩
    obtain ⟨-, ⟨e, he, -⟩, -⟩ := (allows_removal h.tree).1 allowed
    exact h.tree.parent p name (by rw [he]; exact Option.some_ne_none e)
  rw [found]
  rcases h.entry_cases hx hl name with ⟨y, hy, listed⟩ | ⟨free, listed⟩
  case inr =>
    simp only [listed]
    refine ⟨.refl t, fun _ allowed => ?_⟩
    obtain ⟨-, ⟨e, he, -⟩, -⟩ := (allows_removal h.tree).1 allowed
    cases (Slots.space_none free).symm.trans he
  -- What is left to check is the kind of the entry and, for a directory, that it is empty.
  have allows : F.space.Allows (removal (p.child name) wanted) ↔
      y.body.kind = wanted ∧ ¬F.space.HasEntries (p.child name) := by
    rw [allows_removal h.tree, Slots.space_some hy]
    constructor
    · rintro ⟨-, ⟨e, he, kind⟩, leaf⟩
      cases he
      exact ⟨(Slot.kind_entry y).symm.trans kind, leaf⟩
    · rintro ⟨kind, leaf⟩
      exact ⟨Path.child_ne_root p name, ⟨_, rfl, (Slot.kind_entry y).trans kind⟩, leaf⟩
  have done : ∀ leaf : ¬F.space.HasEntries (p.child name), y.body.kind = wanted →
      Performs F (removal (p.child name) wanted) t ((do
        writeListing x.id x.inode (l.erase name.text)
        deleteBoth y.id y.inode : StoreAction Unit).runOn t) := by
    intro leaf kind
    obtain ⟨t', hr, extended, F', hF, space⟩ := runOn_unlist h hx hl hy leaf
    rw [hr]
    exact ⟨allows.2 ⟨kind, leaf⟩, extended, F', hF, space.trans (after_removal ..).symm⟩
  simp only [listed, runOn_ask_bind, h.holds.inode hy, (h.coherent.fits _ y hy).kind]
  cases hb : y.body with
  | file data =>
    rw [hb] at allows done
    cases wanted with
    | file => exact done (h.tree.file_no_entries (Slots.isFile_iff.2 ⟨y, data, hy, hb⟩)) rfl
    | directory => exact ⟨.refl t, fun _ allowed => by cases (allows.1 allowed).1⟩
  | directory m =>
    rw [hb] at allows done
    cases wanted with
    | file => exact ⟨.refl t, fun _ allowed => by cases (allows.1 allowed).1⟩
    | directory =>
      have entries := h.coherent.hasEntries_iff ⟨y, hy, hb⟩
      simp only [Body.kind, runOn_ask_bind, h.holds.listing hy hb]
      by_cases empty : m.isEmpty = true
      · rw [if_pos empty]
        exact done (fun full => by rw [entries.1 full] at empty; cases empty) rfl
      · rw [if_neg empty]
        exact ⟨.refl t, fun _ allowed =>
          (allows.1 allowed).2 (entries.2 (Bool.eq_false_iff.2 empty))⟩

/-! ## Changing a file -/

/-- Both records of a file rewritten under their keys make another file of it. -/
theorem represents_changed (h : t.store.Represents F) {p : Path} {name : Segment} {y z : Slot}
    {data : Bytes} {t' : Transaction} (hy : F (p.child name) = some y)
    (leaf : ∀ k : Path, k ≠ .root → F (p.child name ++ k) = none) (keys : ∀ r, z.key r = y.key r)
    (fits : z.Fits) (hz : z.body = .file data) (rewritten : Rewrites t t' y z) :
    ∃ F', t'.store.Represents F' ∧ F' (p.child name) = some z ∧
      F'.space = F.space.put (p.child name) z.entry := by
  obtain ⟨l, x, hx, hl⟩ := h.coherent.held p name (by rw [hy]; exact Option.some_ne_none y)
  have listed := h.coherent.listed p l ⟨x, hx, hl⟩ name
  rw [Slots.key_some hy] at listed
  have hd : x.Relists x l := ⟨rfl, rfl, rfl, ⟨rfl, rfl⟩, h.coherent.fits p x hx, hl⟩
  -- The slot keeps its keys, so the directory needs no new listing and no other slot is touched.
  have other : ∀ {q w}, F q = some w → q ≠ p.child name → ∀ r, t'.store.get? (w.key r) =
      t.store.get? (w.key r) := fun hw ne r =>
    rewritten.other _ fun r' e => ne (h.coherent.owned_eq hw e (Slots.key_some hy r')).1
  have there : F.graft p name (Slots.only z) x (p.child name) = some z := by
    have grafted := Slots.graft_below (F := F) (p := p) (s := name) (G := Slots.only z)
        (d := x) .root
    rwa [Path.append_root, Slots.only_root] at grafted
  refine ⟨F.graft p name (Slots.only z) x, ?_, there, space_added hx hl hd leaf⟩
  have apart : z.id ≠ z.inode.contentId := fun e => by
    refine h.coherent.id_ne_contentId hy ?_
    exact (keys .inode).symm.trans (Eq.trans e (keys .content))
  refine h.graft (Slots.coherent_only fits apart fun m hm => ?_) hx hl hd (fun n => ?_)
    ?_ ?_ ?_ ?_ ?_
  · cases hz.symm.trans hm
  · split
    next e =>
      rw [e, listed, Slots.key_some Slots.only_root]
      exact congrArg some (keys .inode).symm
    next => rfl
  · intro k q r r' key hk hq
    obtain ⟨w, hw, rfl⟩ := Slots.exists_of_key hk
    rw [(Slots.eq_root_of_only hw).2, keys] at hq
    rw [(h.coherent.owned_eq hy rfl hq).1]
    exact Path.isPrefixOf_self q
  · intro k w hw r
    rw [(Slots.eq_root_of_only hw).2, keys]
    exact rewritten.own r
  · intro r
    rw [other hx (Ne.symm (Path.child_ne_self p name)), h.holds p x hx]
  · intro q w hw out _ r
    exact other hw (fun e => out (e ▸ Path.isPrefixOf_self _)) r
  · intro k hk
    by_cases own : ∃ r, k = y.key r
    · obtain ⟨r, rfl⟩ := own
      refine .inr (.inl ⟨.root, r, ?_⟩)
      rw [Slots.key_some Slots.only_root, keys]
    · rw [rewritten.other k fun r e => own ⟨r, e⟩] at hk
      refine .inr (.inr ⟨hk, fun j r e => ?_⟩)
      by_cases hj : j = .root
      · rw [hj, Path.append_root, Slots.key_some hy] at e
        exact own ⟨r, (Option.some.inj e).symm⟩
      · rw [Slots.key_none (leaf j hj)] at e
        cases e

/-- What is kept about a file once content and attributes have been stored. -/
def synced (y : Slot) (data : Bytes) (attr : FileAttr) : Slot where
  id := y.id
  inode := (y.inode.update { attr with kind := .file, size := data.length.toUInt64 }).2
  body := .file data

theorem entry_synced (y : Slot) (data : Bytes) (attr : FileAttr) :
    (synced y data attr).entry = .file (attr.perm &&& permMask) data := by
  rw [Slot.entry_file (x := synced y data attr) rfl, show (synced y data attr).inode.perm = _ from
    Inode.perm_update ..]

/-- Content and attributes of a file are stored, and nothing else is. -/
theorem runOn_sync (h : t.store.Represents F) {p : Path} {y : Slot} {old : Bytes}
    (hy : F p = some y) (hb : y.body = .file old) (data : Bytes) (attr : FileAttr) :
    ∃ t' F', (sync p data attr).runOn t = (.ok (), t') ∧ Rewrites t t' y (synced y data attr) ∧
      t'.store.Represents F' ∧ F' p = some (synced y data attr) ∧
      F'.space = F.space.put p (synced y data attr).entry := by
  have file : F.space.IsFile p := Slots.isFile_iff.2 ⟨y, old, hy, hb⟩
  obtain ⟨p, name, rfl⟩ := (Path.root_or_child p).resolve_left (h.tree.file_ne_root file)
  have leaf : ∀ k : Path, k ≠ .root → F (p.child name ++ k) = none := fun k hk =>
    Slots.space_eq_none_iff.1 (h.tree.nothing_below (h.tree.file_no_entries file) hk)
  let a : FileAttr := { attr with kind := .file, size := data.length.toUInt64 }
  obtain ⟨t', hr, rewritten⟩ := runOn_update (x := y) a (.file data) (h.holds _ y hy .inode)
    (h.coherent.id_ne_contentId hy)
  have keys : ∀ r, (synced y data attr).key r = y.key r := fun r => by cases r <;> rfl
  have fits : (synced y data attr).Fits := by
    refine ⟨Inode.kind_update .., Inode.isTagged_update .., fun data' hd => ?_⟩
    cases hd
    exact Inode.size_update ..
  obtain ⟨F', hF, there, space⟩ := represents_changed h hy leaf keys fits rfl rewritten
  refine ⟨t', F', ?_, rewritten, hF, there, space⟩
  unfold sync
  rw [runOn_ask_bind, RecordStore.lookup_some h.coherent h.rooted h.holds hy]
  -- Where the inode stays as it is, storing it once more would make no difference.
  simp only [(h.coherent.fits _ y hy).isDir_of_file hb, Bool.false_eq_true, if_false]
  exact hr

/-- Content and attributes of a file are stored, whatever they are. -/
theorem sync_performs (h : t.store.Represents F) (p : Path) (data : Bytes) (attr : FileAttr) :
    Performs F (.sync p data attr) t ((sync p data attr).runOn t) := by
  cases hy : F p with
  | none =>
    obtain ⟨e, he, -⟩ := RecordStore.lookup_none h.coherent h.rooted h.holds hy
    rw [sync, runOn_ask_bind, he]
    exact ⟨.refl t, fun _ file => file.ne_none (Slots.space_none hy)⟩
  | some y =>
    cases hb : y.body with
    | directory l =>
      rw [sync, runOn_ask_bind, RecordStore.lookup_some h.coherent h.rooted h.holds hy]
      simp only [(h.coherent.fits p y hy).isDir_of_directory hb, if_true]
      exact ⟨.refl t, fun _ file => file.not_isDirectory (Slots.isDirectory_iff.2 ⟨l, y, hy, hb⟩)⟩
    | file old =>
      obtain ⟨t', F', hr, rewritten, hF, -, space⟩ := runOn_sync h hy hb data attr
      rw [hr]
      refine ⟨Slots.isFile_iff.2 ⟨y, old, hy, hb⟩, rewritten.extends fun r => ?_, F', hF, ?_⟩
      · rw [h.holds _ y hy r]
        exact Option.some_ne_none _
      · rw [space, entry_synced]
        rfl

/-! ## Moving an entry -/

/-- The slots after an entry has left one directory and entered another, each with a new slot. -/
def moved (F : Slots) (source target : Path × Segment) (d d' : Slot) : Slots :=
  (F.graft source.1 source.2 (fun _ => none) d).graft target.1 target.2
    (F.below (source.1.child source.2)) d'

/-- The slots at and below a target are those that were at and below a source, where nothing is
left. All others stay, but for directories that have other listings. -/
structure Shifts (F F' : Slots) (source target : Path) : Prop where
  entered : ∀ k, F' (target ++ k) = F (source ++ k)
  left : ∀ k, F' (source ++ k) = none
  other : ∀ q, ¬source.isPrefixOf q = true → ¬target.isPrefixOf q = true → F' q = F q ∨
    ∃ x d l l', F q = some x ∧ x.body = .directory l ∧ F' q = some d ∧ x.Relists d l'

section Moved

variable {sp tp : Path} {sn tn : Segment} {x d z d' : Slot} {l l' m m' : Listing}
variable (hx : F sp = some x) (hl : x.body = .directory l) (hd : x.Relists d l')
variable (hz : (F.graft sp sn (fun _ => none) d) tp = some z) (hm : z.body = .directory m)
variable (hd' : z.Relists d' m')

include hx hd hz hd' in
/-- The keys below the source are those below the target afterwards; all others stay. -/
theorem key_moved (q : Path) (r : Role) : (moved F (sp, sn) (tp, tn) d d').key q r =
    if (tp.child tn).isPrefixOf q then F.key (sp.child sn ++ q.relativeTo (tp.child tn)) r
    else if (sp.child sn).isPrefixOf q then none
    else F.key q r := by
  rw [moved, Slots.key_graft hz hd'.key, Slots.key_graft hx hd.key]
  rfl

include hx hl hd hz hm hd' in
theorem space_moved : (moved F (sp, sn) (tp, tn) d d').space =
    F.space.relocate (sp.child sn) (tp.child tn) := by
  funext q
  rw [moved, Slots.space_graft hz (hd'.entry hm), Slots.space_graft hx (hd.entry hl),
    Space.relocate]
  rfl

include hx hl hd hz hm hd' in
theorem coherent_moved (ok : F.Coherent) {y : Slot} (hy : F (sp.child sn) = some y)
    (left : ∀ n, l'.get? n = if n = sn.text then none else l.get? n)
    (entered : ∀ n, m'.get? n = if n = tn.text then some y.id else m.get? n) :
    (moved F (sp, sn) (tp, tn) d d').Coherent := by
  have out := ok.graft Slots.coherent_none hx hl hd left fun hk _ => by cases hk
  refine out.graft (ok.below _) hz hm hd' (fun n => ?_) ?_
  · rw [entered n, Slots.key_some (show F.below (sp.child sn) .root = some y by
      rwa [Slots.below, Path.append_root])]
    rfl
  · intro k q r r' key hk hq
    -- Below the source the key is not to be found any more.
    rw [Slots.key_graft hx hd.key] at hq
    have hk : F.key (sp.child sn ++ k) r = some key := hk
    split at hq
    next => cases hq
    next h =>
      have := (ok.owned hk hq).1
      exact absurd (this ▸ Path.isPrefixOf_append ..) h

include hx hl hd hz hm hd' in
theorem moved_shifts (tree : F.space.IsTree) (allowed : F.space.Movable (sp.child sn) (tp.child tn))
    (different : sp.child sn ≠ tp.child tn) (outside : ¬(sp.child sn).isPrefixOf tp = true) :
    Shifts F (moved F (sp, sn) (tp, tn) d d') (sp.child sn) (tp.child tn) where
  entered := fun k => Slots.graft_below k
  left := fun k => by
    have holder : sp.child sn ++ k ≠ tp := fun e => outside (Path.isPrefixOf_iff.2 ⟨k, e.symm⟩)
    rw [moved, Slots.graft_other (tree.not_below_target allowed different k) holder,
      Slots.graft_below]
  other := fun q out out' => by
    by_cases ht : q = tp
    · subst ht
      have relists : Slots.graft F sp sn (fun _ => none) d q = some z := hz
      by_cases hs : q = sp
      · subst hs
        cases Slots.graft_holder.symm.trans relists
        exact .inr ⟨x, d', l, m', hx, hl, Slots.graft_holder, hd.trans hd'⟩
      · exact .inr ⟨z, d', m, m', (Slots.graft_other out hs).symm.trans relists, hm,
          Slots.graft_holder, hd'⟩
    · rw [moved, Slots.graft_other out' ht]
      by_cases hs : q = sp
      · subst hs
        exact .inr ⟨x, d, l, l', hx, hl, Slots.graft_holder, hd⟩
      · exact .inl (Slots.graft_other out hs)

end Moved

/-- What was replaced, if anything, has lost its records. -/
structure Cleared (t t' : Transaction) (w : Option Slot) : Prop where
  own : ∀ y, w = some y → ∀ r, t'.store.get? (y.key r) = none
  other : ∀ k, (∀ y, w = some y → ∀ r, k ≠ y.key r) → t'.store.get? k = t.store.get? k
  extended : t.Extends t'

/-- Both records of what was replaced, if anything, are deleted. -/
theorem runOn_clear (w : Option Slot) (t : Transaction) :
    ∃ t', (do
        if let some (id, inode) := w.map fun y => (y.id, y.inode) then deleteBoth id inode :
          StoreAction Unit).runOn t = (.ok (), t') ∧ Cleared t t' w := by
  cases w with
  | none => exact ⟨t, rfl, ⟨fun _ hy => (by cases hy), fun _ _ => rfl, .refl t⟩⟩
  | some y =>
    obtain ⟨t', hr, deleted⟩ := runOn_deleteBoth y t
    refine ⟨t', hr, ⟨?_, fun k ne => deleted.other k (ne y rfl), deleted.extended⟩⟩
    intro y' e
    cases e
    exact deleted.own

/-- A store whose listing of a directory has lost a name holds the tree without that entry. -/
theorem unlisted_holds (ok : F.Coherent) (root : F.Rooted) (h : t.store.Holds F) {p : Path}
    {name : Segment} {x d : Slot} {l : Listing} {t₁ : Transaction} (hx : F p = some x)
    (hl : x.body = .directory l) (hd : x.Relists d (l.erase name.text))
    (rewritten : Rewrites t t₁ x d) :
    (F.graft p name (fun _ => none) d).Coherent ∧ (F.graft p name (fun _ => none) d).Rooted ∧
      t₁.store.Holds (F.graft p name (fun _ => none) d) := by
  have coherent := ok.graft Slots.coherent_none hx hl hd (SortedMap.get?_erase l name.text)
    fun hk _ => by cases hk
  refine ⟨coherent, root.graft hx hd, ?_⟩
  refine .graft (fun k v hv => by cases hv) (fun r => ?_) fun q v hv _ ne r => ?_
  · rw [hd.key]
    exact rewritten.own r
  · rw [rewritten.other, h q v hv]
    exact fun r' e => ne (ok.owned_eq hv e (Slots.key_some hx r')).1

/-- Two directories rewritten one after the other, and what was replaced deleted, move an entry. -/
theorem represents_moved (h : t.store.Represents F) {sp tp : Path} {sn tn : Segment}
    {x d y z d' : Slot} {l m : Listing} {t₁ t₂ t₃ : Transaction} (hx : F sp = some x)
    (hl : x.body = .directory l) (hy : F (sp.child sn) = some y)
    (outside : ¬(sp.child sn).isPrefixOf (tp.child tn) = true)
    (below : ∀ k : Path, k ≠ .root → F (tp.child tn ++ k) = none)
    (hd : x.Relists d (l.erase sn.text)) (left : Rewrites t t₁ x d)
    (hz : (F.graft sp sn (fun _ => none) d) tp = some z) (hm : z.body = .directory m)
    (hd' : z.Relists d' (m.insert tn.text y.id)) (entered : Rewrites t₁ t₂ z d')
    (cleared : Cleared t₂ t₃ (F (tp.child tn))) :
    t₃.store.Represents (moved F (sp, sn) (tp, tn) d d') := by
  have outsideHolder : ¬(sp.child sn).isPrefixOf tp = true := fun k =>
    outside (Path.isPrefixOf_child.2 (.inr k))
  -- The source lies neither below the target nor in it, or the target would have had entries.
  have notBelow : ¬(tp.child tn).isPrefixOf sp = true := by
    intro k
    obtain ⟨j, rfl⟩ := Path.isPrefixOf_iff.1 k
    have := below (j.child sn) (Path.child_ne_root j sn)
    rw [Path.append_child, hy] at this
    cases this
  have zkey : ∀ r, F.key tp r = some (z.key r) := fun r => by
    have := Slots.key_some hz r
    rwa [Slots.key_graft hx hd.key, if_neg outsideHolder] at this
  have apart : ∀ {q p r k}, F.key q r = some k → q ≠ p →
      ∀ r' k', F.key p r' = some k' → k ≠ k' := by
    intro q p r k hq ne r' k' hp e
    exact ne (h.coherent.owned hq (e ▸ hp)).1
  have early : ∀ {q r k}, F.key q r = some k → q ≠ sp → t₁.store.get? k = t.store.get? k :=
    fun hq ne => left.other _ fun r' => apart hq ne r' _ (Slots.key_some hx r')
  -- Apart from the two directories and the entry that is replaced all records are as they were.
  have late : ∀ {q r k}, F.key q r = some k → q ≠ tp → q ≠ tp.child tn →
      t₃.store.get? k = t₁.store.get? k := fun hq ne ne' => by
    rw [cleared.other _ fun w hw r' => apart hq ne' r' _ (Slots.key_some hw r'),
      entered.other _ fun r' => apart hq ne r' _ (zkey r')]
  have coherent := coherent_moved hx hl hd hz hm hd' h.coherent hy (SortedMap.get?_erase l sn.text)
    (SortedMap.get?_insert m tn.text y.id)
  refine ⟨coherent, (h.rooted.graft hx hd).graft hz hd', .graft ?_ ?_ ?_, fun k hk => ?_⟩
  · intro k v hv r
    have hv : F (sp.child sn ++ k) = some v := hv
    have key := Slots.key_some hv r
    rw [late key, early key, h.holds _ v hv]
    · exact fun e => Path.child_not_isPrefixOf sp sn (Path.isPrefixOf_iff.2 ⟨k, e.symm⟩)
    · exact fun e => outsideHolder (Path.isPrefixOf_iff.2 ⟨k, e.symm⟩)
    · exact fun e => outside (Path.isPrefixOf_iff.2 ⟨k, e.symm⟩)
  · intro r
    rw [hd'.key, cleared.other, entered.own]
    exact fun w hw r' =>
      apart (zkey r) (Ne.symm (Path.child_ne_self tp tn)) r' _ (Slots.key_some hw r')
  · intro q v hv out ne r
    have ne' : q ≠ tp.child tn := fun e => out (e ▸ Path.isPrefixOf_self _)
    rcases Slots.graft_cases sp q sn with ⟨k, rfl⟩ | rfl | ⟨out', ns⟩
    · rw [Slots.graft_below] at hv
      cases hv
    · cases Slots.graft_holder.symm.trans hv
      rw [hd.key, late (Slots.key_some hx r) ne ne', left.own]
    · have hv := (Slots.graft_other out' ns).symm.trans hv
      have key := Slots.key_some hv r
      rw [late key ne ne', early key ns, h.holds q v hv]
  · have notReplaced : ∀ w, F (tp.child tn) = some w → ∀ r, k ≠ w.key r :=
      fun w hw r e => hk (e ▸ cleared.own w hw r)
    rw [cleared.other k notReplaced] at hk
    -- The key is that of a record from before, wherever the record is now.
    have old : ∃ q r, F.key q r = some k := by
      by_cases own : ∃ r, k = z.key r
      · obtain ⟨r, rfl⟩ := own
        exact ⟨tp, r, zkey r⟩
      rw [entered.other k fun r e => own ⟨r, e⟩] at hk
      by_cases own : ∃ r, k = x.key r
      · obtain ⟨r, rfl⟩ := own
        exact ⟨sp, r, Slots.key_some hx r⟩
      rw [left.other k fun r e => own ⟨r, e⟩] at hk
      exact h.covered k hk
    obtain ⟨q, r, hq⟩ := old
    by_cases hs : (sp.child sn).isPrefixOf q = true
    · refine ⟨tp.child tn ++ q.relativeTo (sp.child sn), r, ?_⟩
      rw [key_moved hx hd hz hd', if_pos (Path.isPrefixOf_append ..), Path.relativeTo_append,
        Path.append_relativeTo hs, hq]
    · refine ⟨q, r, ?_⟩
      rw [key_moved hx hd hz hd', if_neg, if_neg hs, hq]
      intro ht
      obtain ⟨j, rfl⟩ := Path.isPrefixOf_iff.1 ht
      by_cases hj : j = .root
      · rw [hj, Path.append_root] at hq
        obtain ⟨w, hw, e⟩ := Slots.exists_of_key hq
        exact notReplaced w hw r e.symm
      · rw [Slots.key_none (below j hj)] at hq
        cases hq

/-- What a store finds at the target of a move is what stands there, if that may be replaced. -/
theorem replaceable_cases {s : RecordStore} (h : s.Represents F) {p : Path} (name : Segment)
    {z : Slot} {m : Listing} (hz : F p = some z) (hm : z.body = .directory m) (kind : FileKind) :
    (F.space.Replaceable (p.child name) kind ∧
        replaceable s (p.child name) ⟨z.id, z.inode, m⟩ name kind =
          .ok ((F (p.child name)).map fun y => (y.id, y.inode))) ∨
      ¬F.space.Replaceable (p.child name) kind ∧
        ∃ e, replaceable s (p.child name) ⟨z.id, z.inode, m⟩ name kind = .error e := by
  unfold replaceable
  rcases h.entry_cases hz hm name with ⟨w, hw, listed⟩ | ⟨free, listed⟩
  case inr =>
    simp only [listed]
    refine .inl ⟨fun e he => ?_, by rw [free]; rfl⟩
    cases (Slots.space_none free).symm.trans he
  have found := Slots.space_some hw
  have allows : F.space.Replaceable (p.child name) kind ↔
      w.body.kind = kind ∧ ¬F.space.HasEntries (p.child name) := by
    constructor
    · intro free
      have := free _ found
      rwa [Slot.kind_entry] at this
    · intro free e he
      cases found.symm.trans he
      rwa [Slot.kind_entry]
  rw [allows, hw]
  simp only [listed, h.holds.inode hw, Except.ok_bind, (h.coherent.fits _ w hw).kind]
  cases hb : w.body with
  | file data =>
    cases kind with
    | file => exact .inl ⟨⟨rfl, h.tree.file_no_entries (Slots.isFile_iff.2 ⟨w, data, hw, hb⟩)⟩, rfl⟩
    | directory => exact .inr ⟨fun k => (by cases k.1), _, rfl⟩
  | directory n =>
    cases kind with
    | file => exact .inr ⟨fun k => (by cases k.1), _, rfl⟩
    | directory =>
      have entries := h.coherent.hasEntries_iff ⟨w, hw, hb⟩
      simp only [Body.kind, h.holds.listing hw hb, Except.ok_bind]
      by_cases empty : n.isEmpty = true
      · rw [if_pos empty]
        exact .inl ⟨⟨trivial, fun full => by rw [entries.1 full] at empty; cases empty⟩, rfl⟩
      · rw [if_neg empty]
        exact .inr ⟨fun k => k.2 (entries.2 (Bool.eq_false_iff.2 empty)), _, rfl⟩

/-- What came of moving an entry: all below it has moved along and what stood at the target has lost
its records, or the move was not allowed and no record has changed. -/
def Moves (F : Slots) (source target : Path) (t : Transaction) :
    Except FsError Unit × Transaction → Prop
  | (.ok _, t') => F.space.Movable source target ∧ t.Extends t' ∧ ∃ F', t'.store.Represents F' ∧
      F'.space = F.space.relocate source target ∧
      (source ≠ target → Shifts F F' source target ∧
        ∀ y, F target = some y → ∀ r, t'.store.get? (y.key r) = none)
  | (.error _, t') => t.Idle t' ∧ ¬F.space.Movable source target

/-- What is left to do once a move has been found to be allowed. -/
theorem move_moves (h : t.store.Represents F) {sp tp : Path} {sn tn : Segment} {x y : Slot}
    {l : Listing} (hx : F sp = some x) (hl : x.body = .directory l) (hy : F (sp.child sn) = some y)
    (outside : ¬(sp.child sn).isPrefixOf (tp.child tn) = true) (dir : F.space.IsDirectory tp)
    (below : ∀ k : Path, k ≠ .root → F (tp.child tn ++ k) = none)
    (allowed : F.space.Movable (sp.child sn) (tp.child tn)) :
    Moves F (sp.child sn) (tp.child tn) t ((do
      writeListing x.id x.inode (l.erase sn.text)
      let targetDir ← ask (·.directory tp)
      writeListing targetDir.id targetDir.inode (targetDir.listing.insert tn.text y.id)
      if let some (id, inode) := (F (tp.child tn)).map fun y => (y.id, y.inode) then
        deleteBoth id inode : StoreAction Unit).runOn t) := by
  obtain ⟨d, t₁, hr₁, hd, left⟩ := runOn_writeListing (l.erase sn.text) (h.coherent.fits sp x hx) hl
    (h.holds sp x hx .inode) (h.coherent.id_ne_contentId hx)
  -- The tree without the moved part is what the target directory is looked up in.
  let F₁ := F.graft sp sn (fun _ => none) d
  obtain ⟨coherent, rooted, holds⟩ : F₁.Coherent ∧ F₁.Rooted ∧ t₁.store.Holds F₁ :=
    unlisted_holds h.coherent h.rooted h.holds hx hl hd left
  obtain ⟨z, m, hz, hm⟩ : ∃ z m, F₁ tp = some z ∧ z.body = .directory m := by
    obtain ⟨m, z, hz, hm⟩ := Slots.isDirectory_iff.1 dir
    rcases Slots.graft_cases sp tp sn with ⟨k, rfl⟩ | rfl | ⟨out, ne⟩
    · exact absurd (Path.isPrefixOf_child.2 (.inr (Path.isPrefixOf_append ..))) outside
    · exact ⟨d, _, Slots.graft_holder, hd.body⟩
    · exact ⟨z, m, (Slots.graft_other out ne).trans hz, hm⟩
  obtain ⟨d', t₂, hr₂, hd', entered⟩ := runOn_writeListing (m.insert tn.text y.id)
    (coherent.fits tp z hz) hm (holds tp z hz .inode) (coherent.id_ne_contentId hz)
  obtain ⟨t₃, hr₃, cleared⟩ := runOn_clear (F (tp.child tn)) t₂
  rw [Action.runOn_bind_ok hr₁, runOn_ask_bind,
    RecordStore.directory_some coherent rooted holds hz hm]
  dsimp only
  rw [Action.runOn_bind_ok hr₂]
  rw [hr₃]
  refine ⟨allowed, ?_, _, represents_moved h hx hl hy outside below hd left hz hm hd'
    entered cleared, space_moved hx hl hd hz hm hd',
    fun different => ⟨moved_shifts hx hl hd hz hm hd' h.tree allowed different fun k =>
      outside (Path.isPrefixOf_child.2 (.inr k)), cleared.own⟩⟩
  · refine (left.extends fun r => ?_).trans ((entered.extends fun r => ?_).trans cleared.extended)
    · rw [h.holds sp x hx r]
      exact Option.some_ne_none _
    · rw [holds tp z hz r]
      exact Option.some_ne_none _

/-- An entry is moved where it may be. -/
theorem rename_moves (h : t.store.Represents F) (source target : Path) :
    Moves F source target t ((rename source target).runOn t) := by
  rcases Path.root_or_child source with rfl | ⟨sp, sn, rfl⟩
  · exact ⟨.refl t, fun allowed => allowed.1 rfl⟩
  rcases Path.root_or_child target with rfl | ⟨tp, tn, rfl⟩
  · unfold rename
    rw [Path.name?_child]
    exact ⟨.refl t, fun allowed => h.tree.target_ne_root allowed rfl⟩
  unfold rename
  rw [Path.name?_child, Path.name?_child, Path.parent_child, Path.parent_child]
  dsimp only
  -- Moving an entry onto itself does nothing, but it has to be there.
  by_cases same : sp.child sn = tp.child tn
  · rw [if_pos same, Action.runOn_bind, Action.runOn_discard, runOn_ask]
    cases hy : F (sp.child sn) with
    | none =>
      obtain ⟨e, he, -⟩ := RecordStore.lookup_none h.coherent h.rooted h.holds hy
      rw [he]
      refine ⟨.refl t, fun allowed => ?_⟩
      obtain ⟨-, e, he, -⟩ := allowed
      cases (Slots.space_none hy).symm.trans he
    | some y =>
      rw [RecordStore.lookup_some h.coherent h.rooted h.holds hy]
      have allowed : F.space.Movable (sp.child sn) (tp.child tn) :=
        ⟨Path.child_ne_root sp sn, _, Slots.space_some hy, .inl same⟩
      refine ⟨allowed, .refl t, F, h, ?_, fun ne => absurd same ne⟩
      rw [← same, Space.relocate_self]
  rw [if_neg same]
  by_cases outside : (sp.child sn).isPrefixOf (tp.child tn) = true
  · rw [if_pos outside]
    refine ⟨.refl t, fun allowed => ?_⟩
    obtain ⟨-, e, -, eq | ⟨out, -⟩⟩ := allowed
    · exact same eq
    · exact out outside
  rw [if_neg outside]
  simp only [runOn_ask_bind]
  rcases h.directory_cases sp with ⟨x, l, hx, hl, found⟩ | ⟨notDir, e, he⟩
  case inr =>
    rw [he]
    refine ⟨.refl t, fun allowed => notDir ?_⟩
    obtain ⟨-, e, he, -⟩ := allowed
    exact h.tree.parent sp sn (by rw [he]; exact Option.some_ne_none e)
  rw [found]
  rcases h.entry_cases hx hl sn with ⟨y, hy, listed⟩ | ⟨free, listed⟩
  case inr =>
    simp only [listed]
    refine ⟨.refl t, fun allowed => ?_⟩
    obtain ⟨-, e, he, -⟩ := allowed
    cases (Slots.space_none free).symm.trans he
  have movable : F.space.Movable (sp.child sn) (tp.child tn) ↔
      F.space.IsDirectory tp ∧ F.space.Replaceable (tp.child tn) y.body.kind := by
    constructor
    · rintro ⟨-, e, he, eq | ⟨-, dir, free⟩⟩
      · exact absurd eq same
      · cases (Slots.space_some hy).symm.trans he
        rw [Path.parent_child] at dir
        rw [Slot.kind_entry] at free
        exact ⟨dir, free⟩
    · rintro ⟨dir, free⟩
      refine ⟨Path.child_ne_root sp sn, _, Slots.space_some hy, .inr ⟨outside, ?_, ?_⟩⟩
      · rwa [Path.parent_child]
      · rwa [Slot.kind_entry]
  simp only [listed, runOn_ask_bind, h.holds.inode hy, (h.coherent.fits _ y hy).kind]
  rcases h.directory_cases tp with ⟨z, m, hz, hm, found⟩ | ⟨notDir, e, he⟩
  case inr =>
    rw [he]
    exact ⟨.refl t, fun allowed => notDir (movable.1 allowed).1⟩
  simp only [found, Except.ok_bind]
  rcases replaceable_cases h tn hz hm y.body.kind with ⟨free, hr⟩ | ⟨notFree, e, he⟩
  case inr =>
    rw [he]
    exact ⟨.refl t, fun allowed => notFree (movable.1 allowed).2⟩
  have dir := Slots.isDirectory_iff.2 ⟨m, z, hz, hm⟩
  rw [hr]
  exact move_moves h hx hl hy outside dir
    (fun k hk => Slots.space_eq_none_iff.1 (h.tree.replaceable_below free hk))
    (movable.2 ⟨dir, free⟩)

theorem rename_performs (h : t.store.Represents F) (source target : Path) :
    Performs F (.rename source target) t ((rename source target).runOn t) := by
  have moves := rename_moves h source target
  generalize (rename source target).runOn t = r at moves
  obtain ⟨_ | _, t'⟩ := r
  · exact ⟨moves.1, fun _ => moves.2⟩
  · obtain ⟨allowed, extended, F', hF, space, -⟩ := moves
    exact ⟨allowed, extended, F', hF, space⟩

end RecordTree

end MountSpace
