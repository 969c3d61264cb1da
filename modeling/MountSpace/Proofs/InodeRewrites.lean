import MountSpace.Proofs.AnyRecords
import MountSpace.Proofs.InodeUpdate

/-!
# Inodes that need not be written

A change writes the inode of an entry only if folding in attributes has changed it. Here all
changes are stated once more, with a choice of writing the inode in any case. Both ways come to the
same but for the journal of the store: an inode that has not changed was read from the record that
it would be written to.

- `Saving`: the changes of a store with that choice, `Saving.change_false` and its like: one way
  they are those of `RecordTree`.
- `StoreAction.InStep`: two actions come to the same from alike stores. `inStep_listing`,
  `inStep_change`, `inStep_openFile`, `inStep_clear`: so do the two ways.
- `StoreRequest.runAll_alike`: any number of requests.
- `System.FileStored`, `StoredAsShown`: what storing a file comes to, and storing it as it shows.
- `System.Reachable.skipped_writes_invisible`: all of this for the stores that can come about.
-/

namespace MountSpace

/-! ## Writing every inode -/

namespace Saving

open StoreAction RecordTree

variable (always : Bool)

/-- Folds attributes into an inode and writes it, if that has changed it or in any case. -/
def inode (id : String) (i : Inode) (a : FileAttr) : StoreAction Unit := do
  let (changed, i) := i.update a
  if always || changed then
    overwrite id i.encode

/-! The changes of `RecordTree`, with every inode of a directory or a file written like this. -/

def listing (id : String) (i : Inode) (l : Listing) : StoreAction Unit := do
  let bytes := l.encode
  let attr := { i.toAttr with size := bytes.length.toUInt64 }.touch (← now)
  overwrite i.contentId bytes
  inode always id i attr

def addEntry (p : Path) (kind : FileKind) (perm : UInt32) (content : Bytes) :
    StoreAction Inode := do
  let some name := p.name? | throw (.alreadyExists p.toText)
  let dir ← ask (·.directory p.parent)
  if dir.listing.contains name.text then
    throw (.alreadyExists p.toText)
  let (id, i) ← addRecords kind perm content
  listing always dir.id dir.inode (dir.listing.insert name.text id)
  return i

def mkdir (p : Path) (mode : UInt32) : StoreAction Unit := do
  discard <| addEntry always p .directory mode (Listing.encode ∅)

def remove (p : Path) (wanted : FileKind) : StoreAction Unit := do
  let some name := p.name? | throw (.busy p.toText)
  let dir ← ask (·.directory p.parent)
  let some id := dir.listing.get? name.text | throw (.notFound p.toText)
  let inode ← ask (·.inode id)
  match wanted, inode.kind with
  | .file, .directory => throw (.isADirectory p.toText)
  | .directory, .file => throw (.notADirectory p.toText)
  | .directory, .directory =>
    unless (← ask (·.listing inode)).isEmpty do
      throw (.directoryNotEmpty p.toText)
  | .file, .file => pure ()
  listing always dir.id dir.inode (dir.listing.erase name.text)
  deleteBoth id inode

def rename (source target : Path) : StoreAction Unit := do
  let some sourceName := source.name? | throw (.busy "/")
  let some targetName := target.name? | throw (.busy "/")
  if source = target then
    discard <| ask (·.lookup source)
    return
  if source.isPrefixOf target then
    throw (.invalidPath ("cannot move " ++ source.toText ++ " inside itself"))
  let sourceDir ← ask (·.directory source.parent)
  let some id := sourceDir.listing.get? sourceName.text | throw (.notFound source.toText)
  let moved ← ask (·.inode id)
  let replaced ← ask fun s => do
    replaceable s target (← s.directory target.parent) targetName moved.kind
  listing always sourceDir.id sourceDir.inode (sourceDir.listing.erase sourceName.text)
  let targetDir ← ask (·.directory target.parent)
  listing always targetDir.id targetDir.inode (targetDir.listing.insert targetName.text id)
  if let some (id, inode) := replaced then
    deleteBoth id inode

def openFile (p : Path) (flags : OpenFlags) (mode : UInt32) : StoreAction (FileAttr × Bytes) := do
  match (← get).store.lookup p with
  | .ok (_, inode) =>
    if flags.create && flags.exclusive then
      throw (.alreadyExists p.toText)
    if inode.isDir then
      throw (.isADirectory p.toText)
    return (inode.toAttr, ← ask (·.content inode))
  | .error e =>
    unless e.isNotFound && flags.create do
      throw e
    return ((← addEntry always p .file mode []).toAttr, [])

def sync (p : Path) (data : Bytes) (attr : FileAttr) : StoreAction Unit := do
  let (id, i) ← ask (·.lookup p)
  if i.isDir then
    throw (.isADirectory p.toText)
  overwrite i.contentId data
  inode always id i { attr with kind := .file, size := data.length.toUInt64 }

def clear : StoreAction Unit := do
  let root ← ask (·.inode rootKey)
  deleteBelow (enoughLevels (← get).store) root
  listing always rootKey root ∅

def change : Change → StoreAction Unit
  | .mkdir p mode => mkdir always p mode
  | .unlink p => remove always p .file
  | .rmdir p => remove always p .directory
  | .rename source target => rename always source target
  | .sync p data attr => sync always p data attr

/-! An inode that is written only if it has changed is what the changes of a store have. -/

theorem addEntry_false : addEntry false = RecordTree.addEntry := by
  funext p kind perm content
  rw [addEntry_eq]
  rfl

theorem mkdir_false : mkdir false = RecordTree.mkdir := by
  funext p mode
  rw [mkdir, addEntry_false]
  rfl

theorem openFile_false : openFile false = RecordTree.openFile := by
  funext p flags mode
  rw [openFile, addEntry_false]
  rfl

theorem sync_false : sync false = RecordTree.sync := rfl

theorem clear_false : clear false = RecordTree.clear := rfl

theorem change_false : change false = RecordTree.change := by
  funext c
  cases c with
  | mkdir p mode => rw [change, mkdir_false, RecordTree.change]
  | _ => rfl

end Saving

/-! ## Stores that differ in their journals -/

namespace RecordStore

/-- What an inquiry finds depends on the records of the store alone. -/
def Blind {α : Type} (inquiry : RecordStore → Except FsError α) : Prop :=
  ∀ {s s' : RecordStore}, s'.records = s.records → inquiry s' = inquiry s

section

variable {s s' : RecordStore} (same : s'.records = s.records)
include same

theorem inode_same (id : String) : s'.inode id = s.inode id := by
  rw [inode, inode, get?, get?, same]

theorem content_same (i : Inode) : s'.content i = s.content i := by
  rw [content, content, get?, get?, same]

theorem listing_same (i : Inode) : s'.listing i = s.listing i := by
  rw [listing, listing, content_same same]

theorem follow_same (segments : List Segment) :
    ∀ (w : Path) (found : String × Inode), s'.follow w found segments =
    s.follow w found segments := by
  induction segments with
  | nil => exact fun _ _ => rfl
  | cons name rest ih =>
    rintro w ⟨id, i⟩
    rw [follow_cons, follow_cons, listing_same same]
    simp only [inode_same same, ih]

theorem lookup_same (p : Path) : s'.lookup p = s.lookup p := by
  simp only [lookup, inode_same same, follow_same same]

theorem directory_same (p : Path) : s'.directory p = s.directory p := by
  simp only [directory, lookup_same same, listing_same same]

theorem replaceable_same (p : Path) (dir : StoredDirectory) (name : Segment) (kind : FileKind) :
    RecordTree.replaceable s' p dir name kind = RecordTree.replaceable s p dir name kind := by
  simp only [RecordTree.replaceable, inode_same same, listing_same same]

end

end RecordStore

/-- Two transactions differ in the journals of their stores at most. -/
structure Transaction.Alike (t t' : Transaction) : Prop where
  records : t'.store.records = t.store.records
  refuses : t'.store.refuses = t.store.refuses
  additions : t'.store.additions = t.store.additions
  ambient : t'.ambient = t.ambient

theorem Transaction.Alike.refl (t : Transaction) : t.Alike t := ⟨rfl, rfl, rfl, rfl⟩

namespace StoreAction

open Transaction

variable {α β : Type} {P Q : Transaction → Prop}

/-- From alike transactions of which the first has a property, two actions come to the same
but for the journals. -/
def InStep (P : Transaction → Prop) (x y : StoreAction α) : Prop :=
  ∀ t t', P t → t.Alike t' → (y.runOn t').1 = (x.runOn t).1 ∧ (x.runOn t).2.Alike (y.runOn t').2

theorem InStep.mono {x y : StoreAction α} (h : InStep Q x y) (weaker : ∀ t, P t → Q t) :
    InStep P x y :=
  fun t t' ht => h t t' (weaker t ht)

theorem inStep_pure (a : α) : InStep P (pure a) (pure a) := fun _ _ _ alike => ⟨rfl, alike⟩

theorem inStep_throw (e : FsError) : InStep P (throw e : StoreAction α) (throw e) :=
  fun _ _ _ alike => ⟨rfl, alike⟩

theorem inStep_ofExcept (r : Except FsError α) :
    InStep P (Action.ofExcept r) (Action.ofExcept r) := by
  intro t t' _ alike
  rw [Action.runOn_ofExcept, Action.runOn_ofExcept]
  exact ⟨rfl, alike⟩

/-- Two sequences are in step part by part, if the first part of the first one comes to what
the second part needs. -/
theorem InStep.bind {R : α → Transaction → Prop} {x y : StoreAction α} {f g : α → StoreAction β}
    (first : InStep P x y) (next : ∀ t a t', P t → x.runOn t = (.ok a, t') → R a t')
    (rest : ∀ a, InStep (R a) (f a) (g a)) : InStep P (x >>= f) (y >>= g) := by
  intro t t' ht alike
  obtain ⟨same, alike'⟩ := first t t' ht alike
  rw [Action.runOn_bind, Action.runOn_bind]
  rcases hx : x.runOn t with ⟨e | a, s⟩ <;> rcases hy : y.runOn t' with ⟨e' | a', s'⟩ <;>
    rw [hx, hy] at same alike' <;> cases same
  · exact ⟨rfl, alike'⟩
  · exact rest a s s' (next t a s ht hx) alike'

/-- An inquiry finds the same in both stores. -/
theorem inStep_ask_bind {inquiry : RecordStore → Except FsError α} {f g : α → StoreAction β}
    (blind : RecordStore.Blind inquiry)
    (rest : ∀ a, InStep (fun t => P t ∧ inquiry t.store = .ok a) (f a) (g a)) :
    InStep P (ask inquiry >>= f) (ask inquiry >>= g) := by
  intro t t' ht alike
  rw [runOn_ask_bind, runOn_ask_bind, blind alike.records]
  cases found : inquiry t.store with
  | error e => exact ⟨rfl, alike⟩
  | ok a => exact rest a t t' ⟨ht, found⟩ alike

theorem inStep_now : InStep P now now := by
  rintro ⟨s, a⟩ ⟨s', a'⟩ _ ⟨records, refuses, additions, rfl⟩
  exact ⟨rfl, records, refuses, additions, rfl⟩

theorem inStep_drawId : InStep P drawId drawId := by
  rintro ⟨s, a⟩ ⟨s', a'⟩ _ ⟨records, refuses, additions, rfl⟩
  exact ⟨rfl, records, refuses, additions, rfl⟩

theorem inStep_overwrite (key : String) (value : Bytes) :
    InStep P (overwrite key value) (overwrite key value) := fun _ _ _ alike =>
  ⟨rfl, congrArg (·.insert key value) alike.records, alike.refuses, alike.additions, alike.ambient⟩

theorem inStep_delete (key : String) : InStep P (delete key) (delete key) := fun _ _ _ alike =>
  ⟨rfl, congrArg (·.erase key) alike.records, alike.refuses, alike.additions, alike.ambient⟩

theorem inStep_add (key : String) (value : Bytes) : InStep P (add key value) (add key value) := by
  intro t t' _ alike
  have accepts : t'.store.accepts key = t.store.accepts key := by
    rw [RecordStore.accepts, RecordStore.accepts, alike.records, alike.refuses, alike.additions]
  refine ⟨congrArg Except.ok accepts, ?_, alike.refuses, congrArg (· + 1) alike.additions,
    alike.ambient⟩
  show (t'.store.add key value).2.records = (t.store.add key value).2.records
  rw [RecordStore.add, RecordStore.add, accepts, alike.records]

theorem inStep_get_bind {f g : Transaction → StoreAction β}
    (rest : ∀ s s', s.Alike s' → InStep (fun t => P t ∧ t = s) (f s) (g s')) :
    InStep P (get >>= f) (get >>= g) := fun t t' ht alike => rest t t' alike t t' ⟨ht, rfl⟩ alike

/-- Sequences are in step if their parts always are. -/
theorem InStep.andThen {x y : StoreAction α} {f g : α → StoreAction β} (first : InStep P x y)
    (rest : ∀ a, InStep (fun _ => True) (f a) (g a)) : InStep P (x >>= f) (y >>= g) :=
  first.bind (fun _ _ _ _ _ => trivial) rest

theorem inStep_forM {f : α → StoreAction PUnit} (each : ∀ a, InStep (fun _ => True) (f a) (f a))
    (l : List α) : InStep (fun _ => True) (l.forM f) (l.forM f) := by
  induction l with
  | nil => exact inStep_pure _
  | cons a l ih => exact (each a).andThen fun _ => ih

/-! ## What is the same in both versions -/

theorem inStep_deleteBoth (id : String) (i : Inode) :
    InStep P (deleteBoth id i) (deleteBoth id i) :=
  (inStep_delete i.contentId).andThen fun _ => inStep_delete id

theorem inStep_addNewWithin (value : Bytes) : ∀ n : Nat,
    InStep (fun _ => True) (addNewWithin value n) (addNewWithin value n)
  | 0 => inStep_throw _
  | n + 1 => by
    refine inStep_drawId.andThen fun u => (inStep_add u.toText value).andThen fun accepted => ?_
    split
    · exact inStep_pure _
    · exact inStep_addNewWithin value n

theorem inStep_addRecords (kind : FileKind) (perm : UInt32) (content : Bytes) :
    InStep P (RecordTree.addRecords kind perm content)
      (RecordTree.addRecords kind perm content) := by
  refine ((inStep_addNewWithin content idAttempts).mono fun _ _ => trivial).andThen
    fun contentId => ?_
  refine inStep_drawId.andThen fun id => inStep_now.andThen fun stamp => ?_
  refine (inStep_ofExcept _).andThen fun i =>
    (inStep_add id.toText i.encode).andThen fun accepted => ?_
  dsimp only
  split
  · exact inStep_pure _
  · exact (inStep_delete i.contentId).andThen fun _ => inStep_throw _

theorem inStep_deleteBelow : ∀ (levels : Nat) (i : Inode),
    InStep (fun _ => True) (RecordTree.deleteBelow levels i) (RecordTree.deleteBelow levels i)
  | 0, _ => inStep_throw _
  | levels + 1, i => by
    refine inStep_ask_bind (fun same => RecordStore.listing_same same i) fun l => ?_
    refine (inStep_forM (fun id => ?_) l.values).mono fun _ _ => trivial
    refine inStep_ask_bind (fun same => RecordStore.inode_same same id) fun child => ?_
    dsimp only
    split
    · exact ((inStep_deleteBelow levels child).mono fun _ _ => trivial).andThen fun _ =>
        inStep_deleteBoth id child
    · exact inStep_deleteBoth id child

/-! ## Inodes that are stored already -/

/-- An inode is what its id leads to, and its content is elsewhere. -/
def StoredApart (id : String) (i : Inode) (t : Transaction) : Prop :=
  t.store.inode id = .ok i ∧ id ≠ i.contentId

/-- Writing content leaves the inode as it is stored. -/
theorem StoredApart.overwritten {id : String} {i : Inode} {t t' : Transaction} {bytes : Bytes}
    {a : Unit} (h : StoredApart id i t)
    (written : (overwrite i.contentId bytes).runOn t = (.ok a, t')) :
    t'.store.inode id = .ok i := by
  cases written
  refine RecordStore.inode_ok_iff.2 ((RecordStore.get?_overwrite ..).trans ?_)
  rw [if_neg h.2, RecordStore.inode_ok_iff.1 h.1]

/-- Writing an inode that is stored and has not changed leaves the records as they are. -/
theorem inStep_inode (id : String) (i : Inode) (a : FileAttr) :
    InStep (fun t => t.store.inode id = .ok i) (Saving.inode false id i a)
      (Saving.inode true id i a) := by
  by_cases changed : (i.update a).1 = true
  · have both : ∀ always, Saving.inode always id i a =
        overwrite id (i.update a).2.encode := fun always => by
      show (if always || (i.update a).1 then _ else _) = _
      rw [changed, Bool.or_true]
      rfl
    rw [both, both]
    exact inStep_overwrite id _
  · have silent : (i.update a).1 = false := Bool.eq_false_iff.2 changed
    have skipped : Saving.inode false id i a = pure () := by
      show (if false || (i.update a).1 then _ else _) = _
      rw [silent]
      rfl
    have written : Saving.inode true id i a = overwrite id i.encode := by
      show overwrite id (i.update a).2.encode = _
      rw [Inode.update_unchanged silent]
    intro t t' stored alike
    rw [skipped, written]
    -- The record that is written is the one that the inode was read from.
    refine ⟨rfl, SortedMap.ext_get? fun k => ?_, alike.refuses, alike.additions, alike.ambient⟩
    refine (RecordStore.get?_overwrite ..).trans ?_
    show _ = t.store.get? k
    split
    next own => rw [own, RecordStore.inode_ok_iff.1 stored]
    next => rw [RecordStore.get?, alike.records, RecordStore.get?]

/-- Whether or not the inode of a directory is written with its listing makes no difference. -/
theorem inStep_listing (id : String) (i : Inode) (l : Listing) :
    InStep (StoredApart id i) (Saving.listing false id i l) (Saving.listing true id i l) := by
  refine InStep.bind inStep_now (R := fun _ => StoredApart id i) ?_ fun now => ?_
  · rintro t a t' stored ⟨⟩
    exact stored
  exact (inStep_overwrite _ _).bind (fun _ _ _ => StoredApart.overwritten) fun _ =>
    inStep_inode id i _

/-- The records of some tree are in a store, perhaps among others. -/
def HoldsTree (t : Transaction) : Prop := ∃ F : Slots, F.Coherent ∧ F.Rooted ∧ t.store.Holds F

theorem HoldsTree.storedApart {t : Transaction} (h : HoldsTree t) {p : Path} {id : String}
    {i : Inode} (found : t.store.lookup p = .ok (id, i)) : StoredApart id i t := by
  obtain ⟨F, coherent, rooted, holds⟩ := h
  obtain ⟨x, hx, rfl, rfl⟩ := RecordStore.slot_of_lookup coherent rooted holds found
  exact ⟨holds.inode hx, coherent.id_ne_contentId hx⟩

theorem holdsTree_of_sound {t : Transaction} (sound : t.store.Sound) : HoldsTree t := by
  obtain ⟨F, h⟩ := sound
  exact ⟨F, h.coherent, h.rooted, h.holds⟩

/-- What a directory is written over is what it was found as. -/
theorem StoredApart.of_directory {t : Transaction} (h : HoldsTree t) {p : Path}
    {d : StoredDirectory} (found : t.store.directory p = .ok d) : StoredApart d.id d.inode t :=
  h.storedApart (RecordStore.directory_ok_iff.1 found).1

/-! ## The changes -/

theorem inStep_addEntry (p : Path) (kind : FileKind) (perm : UInt32) (content : Bytes) :
    InStep HoldsTree (Saving.addEntry false p kind perm content)
      (Saving.addEntry true p kind perm content) := by
  unfold Saving.addEntry
  cases p.name? with
  | none => exact inStep_throw _
  | some name =>
    refine inStep_ask_bind (fun same => RecordStore.directory_same same p.parent) fun dir => ?_
    dsimp only
    split
    · exact inStep_throw _
    -- The records that are added leave the record of the directory as it was.
    refine (inStep_addRecords kind perm content).bind
      (R := fun _ => StoredApart dir.id dir.inode) ?_ ?_
    · rintro t ⟨id, i⟩ t' ⟨tree, found⟩ added
      obtain ⟨stored, apart⟩ := StoredApart.of_directory tree found
      obtain ⟨t₂, ⟨id', i', t₁, hr, content, inode, -⟩ | ⟨e, hr, -⟩⟩ :=
        RecordTree.runOn_addRecords kind perm content t
      · cases added.symm.trans hr
        refine ⟨RecordStore.inode_ok_iff.2 (inode.kept (content.kept ?_)), apart⟩
        exact RecordStore.inode_ok_iff.1 stored
      · cases added.symm.trans hr
    · rintro ⟨id, i⟩
      exact (inStep_listing dir.id dir.inode _).andThen fun _ => inStep_pure _

theorem inStep_remove (p : Path) (wanted : FileKind) :
    InStep HoldsTree (Saving.remove false p wanted) (Saving.remove true p wanted) := by
  unfold Saving.remove
  cases p.name? with
  | none => exact inStep_throw _
  | some name =>
    refine inStep_ask_bind (fun same => RecordStore.directory_same same p.parent) fun dir => ?_
    refine InStep.mono (Q := StoredApart dir.id dir.inode) ?_ fun t h => .of_directory h.1 h.2
    dsimp only
    cases dir.listing.get? name.text with
    | none => exact inStep_throw _
    | some id =>
      refine inStep_ask_bind (fun same => RecordStore.inode_same same id) fun i => ?_
      have written : InStep (StoredApart dir.id dir.inode)
          (Saving.listing false dir.id dir.inode (dir.listing.erase name.text) >>=
            fun _ => deleteBoth id i)
          (Saving.listing true dir.id dir.inode (dir.listing.erase name.text) >>=
            fun _ => deleteBoth id i) :=
        (inStep_listing dir.id dir.inode _).andThen fun _ => inStep_deleteBoth id i
      -- Only an entry of the kind that is wanted is removed, and a directory only if it is empty.
      cases wanted <;> cases i.kind
      · exact written.mono fun _ h => h.1
      · exact inStep_throw _
      · exact inStep_throw _
      · refine inStep_ask_bind (fun same => RecordStore.listing_same same i) fun l => ?_
        split
        · exact written.mono fun _ h => h.1.1
        · exact inStep_throw _

/-- A directory that loses an entry leaves the records of a tree. -/
theorem HoldsTree.unlisted {t t' : Transaction} (h : HoldsTree t) {p : Path} {name : Segment}
    {d : StoredDirectory} (found : t.store.directory p = .ok d)
    (written : (writeListing d.id d.inode (d.listing.erase name.text)).runOn t = (.ok (), t')) :
    HoldsTree t' := by
  obtain ⟨found, dir, listed⟩ := RecordStore.directory_ok_iff.1 found
  obtain ⟨stored, apart⟩ := h.storedApart found
  obtain ⟨F, coherent, rooted, holds⟩ := h
  obtain ⟨x, hx, id, inode⟩ := RecordStore.slot_of_lookup coherent rooted holds found
  have fits := coherent.fits p x hx
  rw [← id, ← inode] at written stored apart
  rw [← inode] at dir listed
  cases hl : x.body with
  | file data =>
    rw [fits.isDir_of_file hl] at dir
    cases dir
  | directory l =>
    cases (holds.listing hx hl).symm.trans listed
    obtain ⟨y, t₁, hr, hy, rewritten⟩ := runOn_writeListing (d.listing.erase name.text) fits hl
      (RecordStore.inode_ok_iff.1 stored) apart
    cases written.symm.trans hr
    obtain ⟨coherent', rooted', holds'⟩ :=
      RecordTree.unlisted_holds coherent rooted holds hx hl hy rewritten
    exact ⟨_, coherent', rooted', holds'⟩

theorem inStep_rename (source target : Path) :
    InStep HoldsTree (Saving.rename false source target) (Saving.rename true source target) := by
  unfold Saving.rename
  cases source.name? with
  | none => exact inStep_throw _
  | some sourceName =>
  cases target.name? with
  | none => exact inStep_throw _
  | some targetName =>
    dsimp only
    split
    · refine InStep.andThen ?_ fun _ => inStep_pure _
      exact inStep_ask_bind (fun same => RecordStore.lookup_same same source) fun _ => inStep_pure _
    split
    · exact inStep_throw _
    refine inStep_ask_bind (fun same => RecordStore.directory_same same source.parent) fun dir => ?_
    cases dir.listing.get? sourceName.text with
    | none => exact inStep_throw _
    | some id =>
      refine inStep_ask_bind (fun same => RecordStore.inode_same same id) fun moved => ?_
      refine inStep_ask_bind (fun same => ?_) fun replaced => ?_
      · rw [RecordStore.directory_same same]
        simp only [RecordStore.replaceable_same same]
      -- The first listing is written, and the directory of the target is found in what that leaves.
      have first : InStep (fun t => HoldsTree t ∧ t.store.directory source.parent = .ok dir)
          (Saving.listing false dir.id dir.inode (dir.listing.erase sourceName.text))
          (Saving.listing true dir.id dir.inode (dir.listing.erase sourceName.text)) :=
        (inStep_listing dir.id dir.inode _).mono fun t h => .of_directory h.1 h.2
      refine (first.mono fun t h => h.1.1).bind (R := fun _ => HoldsTree) ?_ fun _ => ?_
      · rintro t ⟨⟩ t' ⟨⟨⟨tree, found⟩, -⟩, -⟩ written
        exact tree.unlisted found written
      refine inStep_ask_bind (fun same => RecordStore.directory_same same target.parent)
        fun dir' => ?_
      refine ((inStep_listing dir'.id dir'.inode _).mono fun t h =>
        .of_directory h.1 h.2).andThen fun _ => ?_
      cases replaced with
      | none => exact inStep_pure _
      | some entry => exact inStep_deleteBoth entry.1 entry.2

theorem inStep_openFile (p : Path) (flags : OpenFlags) (mode : UInt32) :
    InStep HoldsTree (Saving.openFile false p flags mode) (Saving.openFile true p flags mode) := by
  refine inStep_get_bind fun s s' alike => ?_
  rw [RecordStore.lookup_same alike.records]
  cases s.store.lookup p with
  | ok found =>
    dsimp only
    split
    · exact inStep_throw _
    split
    · exact inStep_throw _
    exact inStep_ask_bind (fun same => RecordStore.content_same same found.2) fun _ => inStep_pure _
  | error e =>
    dsimp only
    split
    · exact ((inStep_addEntry p .file mode []).mono fun _ h => h.1).andThen fun _ => inStep_pure _
    · exact inStep_throw _

theorem inStep_sync (p : Path) (data : Bytes) (attr : FileAttr) :
    InStep HoldsTree (Saving.sync false p data attr) (Saving.sync true p data attr) := by
  refine inStep_ask_bind (fun same => RecordStore.lookup_same same p) fun (id, i) => ?_
  refine InStep.mono (Q := StoredApart id i) ?_ fun t h => h.1.storedApart h.2
  dsimp only
  split
  · exact inStep_throw _
  exact (inStep_overwrite _ _).bind (fun _ _ _ => StoredApart.overwritten) fun _ =>
    inStep_inode id i _

theorem inStep_clear :
    InStep (fun t => t.store.Sound) (Saving.clear false) (Saving.clear true) := by
  refine inStep_ask_bind (fun same => RecordStore.inode_same same rootKey) fun root => ?_
  refine inStep_get_bind fun s s' alike => ?_
  have levels : RecordTree.enoughLevels s'.store = RecordTree.enoughLevels s.store := by
    rw [RecordTree.enoughLevels, RecordTree.enoughLevels, RecordStore.size, RecordStore.size,
      alike.records]
  rw [levels]
  refine ((inStep_deleteBelow _ root).mono fun _ _ => trivial).bind
    (R := fun _ => StoredApart rootKey root) ?_ fun _ => inStep_listing rootKey root ∅
  rintro t ⟨⟩ t' ⟨⟨⟨F, h⟩, stored⟩, rfl⟩ deleted
  obtain ⟨x, l, hx, id, hl⟩ := h.rooted
  cases (id ▸ h.holds.inode hx).symm.trans stored
  obtain ⟨t₁, hr, -, there⟩ := RecordTree.runOn_deleteBelow_root h hx hl
  cases deleted.symm.trans hr
  rw [← id]
  exact ⟨RecordStore.inode_ok_iff.2 (there .inode), h.coherent.id_ne_contentId hx⟩

theorem inStep_change (c : Change) :
    InStep HoldsTree (Saving.change false c) (Saving.change true c) := by
  cases c with
  | mkdir p mode =>
    refine InStep.andThen ?_ fun _ => inStep_pure _
    exact inStep_addEntry p .directory mode (Listing.encode ∅)
  | unlink p => exact inStep_remove p .file
  | rmdir p => exact inStep_remove p .directory
  | rename source target => exact inStep_rename source target
  | sync p data attr => exact inStep_sync p data attr

end StoreAction

/-! ## Any number of requests -/

/-- What a backend asks of its store. -/
inductive StoreRequest where
  | change (c : Change)
  | openFile (p : Path) (flags : OpenFlags) (mode : UInt32)
  | clear

namespace StoreRequest

open StoreAction

/-- What a store does, and what it tells of a file that is opened. -/
def act : StoreRequest → StoreAction (Option (FileAttr × Bytes))
  | change c => do
    RecordTree.change c
    return none
  | openFile p flags mode => return some (← RecordTree.openFile p flags mode)
  | clear => do
    RecordTree.clear
    return none

/-- The same with every inode written. -/
def actSaving : StoreRequest → StoreAction (Option (FileAttr × Bytes))
  | change c => do
    Saving.change true c
    return none
  | openFile p flags mode => return some (← Saving.openFile true p flags mode)
  | clear => do
    Saving.clear true
    return none

/-- Requests one after the other, also after one that fails: the answers, and what is left. -/
def runAll {α : Type} (act : StoreRequest → StoreAction α) :
    List StoreRequest → Transaction → List (Except FsError α) × Transaction
  | [], t => ([], t)
  | r :: rest, t =>
    let (answer, t) := (act r).runOn t
    let (answers, t) := runAll act rest t
    (answer :: answers, t)

theorem inStep_act (r : StoreRequest) : InStep (fun t => t.store.Sound) r.act r.actSaving := by
  cases r with
  | change c =>
    rw [act, actSaving, ← Saving.change_false]
    exact ((inStep_change c).mono fun _ => holdsTree_of_sound).andThen fun _ => inStep_pure _
  | openFile p flags mode =>
    rw [act, actSaving, ← Saving.openFile_false]
    exact ((inStep_openFile p flags mode).mono fun _ => holdsTree_of_sound).andThen fun _ =>
      inStep_pure _
  | clear =>
    rw [act, actSaving, ← Saving.clear_false]
    exact inStep_clear.andThen fun _ => inStep_pure _

/-- A request leaves a store that represents a tree. -/
theorem keeps_sound (r : StoreRequest) : Action.Keeps (fun t => t.store.Sound) r.act := by
  cases r with
  | change c =>
    refine Action.Keeps.bind (fun t ⟨F, h⟩ => ?_) fun _ => Action.keeps_pure _
    have performs := RecordTree.change_performs h c
    generalize (RecordTree.change c).runOn t = r at performs ⊢
    obtain ⟨_ | _, t'⟩ := r
    · exact ⟨F, h.of_records performs.1.records⟩
    · obtain ⟨-, -, F', h', -⟩ := performs
      exact ⟨F', h'⟩
  | openFile p flags mode =>
    refine Action.Keeps.bind (fun t ⟨F, h⟩ => ?_) fun _ => Action.keeps_pure _
    have performs := RecordTree.openFile_performs h p flags mode
    generalize (RecordTree.openFile p flags mode).runOn t = r at performs ⊢
    obtain ⟨_ | _, t'⟩ := r
    · exact ⟨F, h.of_records performs.1.records⟩
    · obtain ⟨-, -, ⟨F', h', -⟩, -⟩ := performs
      exact ⟨F', h'⟩
  | clear =>
    refine Action.Keeps.bind (fun t ⟨F, h⟩ => ?_) fun _ => Action.keeps_pure _
    obtain ⟨t', hr, -, F', h', -⟩ := RecordTree.clear_sound h
    rw [hr]
    exact ⟨F', h'⟩

/-- Any number of requests are answered alike, and leave alike stores, whether or not
every inode is written. -/
theorem runAll_alike (requests : List StoreRequest) {t t' : Transaction} (sound : t.store.Sound)
    (alike : t.Alike t') : (runAll actSaving requests t').1 = (runAll act requests t).1 ∧
      (runAll act requests t).2.Alike (runAll actSaving requests t').2 := by
  induction requests generalizing t t' with
  | nil => exact ⟨rfl, alike⟩
  | cons r rest ih =>
    obtain ⟨same, alike'⟩ := r.inStep_act t t' sound alike
    obtain ⟨answers, left⟩ := ih (r.keeps_sound t sound) alike'
    exact ⟨congrArg₂ List.cons same answers, left⟩

end StoreRequest

/-! ## Files that are stored again -/

namespace RecordTree

variable {s : RecordStore} {F : Slots} {p : Path} {x : Slot}

theorem stat_of_slot (h : s.Represents F) (hx : F p = some x) : stat s p = .ok x.inode.toAttr := by
  rw [stat, RecordStore.lookup_some h.coherent h.rooted h.holds hx]
  rfl

theorem readAll_of_slot (h : s.Represents F) (hx : F p = some x) {data : Bytes}
    (hb : x.body = .file data) : readAll s p = .ok data := by
  rw [readAll, RecordStore.lookup_some h.coherent h.rooted h.holds hx]
  simp only [Except.ok_bind]
  rw [(h.coherent.fits p x hx).isDir_of_file hb, h.holds.content hx, hb]
  rfl

/-- Attributes of a file are those of a slot that has content. -/
theorem file_of_stat (h : s.Represents F) {a : FileAttr} (shown : stat s p = .ok a)
    (file : a.isFile = true) :
    ∃ x data, F p = some x ∧ x.body = .file data ∧ a = x.inode.toAttr := by
  obtain ⟨⟨id, i⟩, found, told⟩ := Except.bind_eq_ok.1 shown
  obtain ⟨x, hx, rfl, rfl⟩ := h.exists_of_lookup found
  cases told
  cases hb : x.body with
  | file data => exact ⟨x, data, hx, hb, rfl⟩
  | directory l =>
    rw [FileAttr.isFile, Inode.kind_toAttr, (h.coherent.fits p x hx).kind, hb] at file
    cases file

/-- A file that is stored as it shows, with content of a size that is kept as the
same, keeps its inode. -/
theorem inode_synced {data : Bytes} (fits : x.Fits) {old : Bytes} (hb : x.body = .file old)
    (same : Inode.recordedSize data.length.toUInt64 = x.inode.size) :
    (synced x data x.inode.toAttr).inode = x.inode := by
  have kind : x.inode.kind = .file := by rw [fits.kind, hb]; rfl
  have kept := Inode.update_shown fits.tagged same
  rw [kind] at kept
  exact congrArg Prod.snd kept

end RecordTree

namespace System

open RecordTree StoreRequest

variable {s s' : System} {b : BackendId} {store : Nat} {p : Path}

theorem sync_keyValue (there : s.backends[b]? = some (.keyValue store false)) (p : Path)
    (data : Bytes) (attr : FileAttr) :
    s.sync b p data attr = s.run (Volumes.withStore store (RecordTree.sync p data attr)) := by
  rw [System.sync, fileSystems, fileSystem_keyValue there]
  rfl

/-- What storing content and attributes in a file of a backend over a store comes to. -/
structure FileStored (b : BackendId) (store : Nat) (p : Path) (data : Bytes) (attr : FileAttr)
    (s s' : System) : Prop where
  /-- The same is stored as if the inode was written in any case. -/
  records : (s'.volumes.stores store).records =
    ((Saving.sync true p data attr).runOn (s.volumes.transaction store)).2.store.records
  reads : s'.readAll b p = .ok data
  shows : ∃ before after, s.stat b p = .ok before ∧ s'.stat b p = .ok after ∧ after.kind = .file ∧
    (data.length < UInt32.size → after.size.toNat = data.length) ∧
    after.perm = attr.perm &&& permMask ∧
    after.dev = before.dev ∧ after.ino = before.ino
  /-- The file has the inode and the content that it had, as records. -/
  keys : ∃ id, ∃ before after : Inode, (s.volumes.stores store).lookup p = .ok (id, before) ∧
    (s'.volumes.stores store).lookup p = .ok (id, after) ∧ after.contentId = before.contentId

/-- A file is stored any number of times, each time with the attributes that it shows then and with
content of the size that it has then: the size that it shows or the length of its content. -/
inductive StoredAsShown (b : BackendId) (p : Path) (s : System) : System → Prop
  | never : StoredAsShown b p s s
  | again {s' : System} (before : StoredAsShown b p s s') {a : FileAttr} {data : Bytes}
      (shown : s'.stat b p = .ok a)
      (size : data.length = a.size.toNat ∨
        ∃ old, s'.readAll b p = .ok old ∧ data.length = old.length) :
      StoredAsShown b p s (s'.sync b p data a).2

/-- The slot of a file after it has been stored. -/
theorem sync_slot {F : Slots} (there : s.backends[b]? = some (.keyValue store false))
    (h : (s.volumes.stores store).Represents F) {x : Slot} {old : Bytes} (hx : F p = some x)
    (hb : x.body = .file old) (data : Bytes) (attr : FileAttr) :
    (s.sync b p data attr).1 = .ok () ∧
      ∃ F', ((s.sync b p data attr).2.volumes.stores store).Represents F' ∧
      F' p = some (synced x data attr) := by
  obtain ⟨t', F', hr, -, h', hx', -⟩ :=
    runOn_sync (t := s.volumes.transaction store) h hx hb data attr
  rw [sync_keyValue there, System.run, Volumes.runOn_withStore, hr]
  refine ⟨rfl, F', ?_, hx'⟩
  show ((s.volumes.committed store t').stores store).Represents F'
  rwa [Volumes.stores_committed]

theorem fileStored {F : Slots} (there : s.backends[b]? = some (.keyValue store false))
    (h : (s.volumes.stores store).Represents F) {x : Slot} {old : Bytes} (hx : F p = some x)
    (hb : x.body = .file old) (data : Bytes) (attr : FileAttr) :
    FileStored b store p data attr s (s.sync b p data attr).2 := by
  obtain ⟨-, F', h', hx'⟩ := sync_slot there h hx hb data attr
  have there' : (s.sync b p data attr).2.backends[b]? = some (.keyValue store false) := there
  have fits' := h'.coherent.fits p _ hx'
  refine ⟨?_, ?_, ⟨x.inode.toAttr, (synced x data attr).inode.toAttr, ?_, ?_, ?_, fun small => ?_,
    ?_, rfl, rfl⟩, x.id, x.inode, (synced x data attr).inode, ?_, ?_, rfl⟩
  · have tree : StoreAction.HoldsTree (s.volumes.transaction store) :=
      ⟨F, h.coherent, h.rooted, h.holds⟩
    have alike :=
      (StoreAction.inStep_sync p data attr _ _ tree (.refl (s.volumes.transaction store))).2
    rw [sync_keyValue there, System.run, Volumes.runOn_withStore]
    show ((s.volumes.committed store _).stores store).records = _
    rw [Volumes.stores_committed, ← Saving.sync_false]
    exact alike.records.symm
  · rw [readAll_keyValue there', readAll_of_slot h' hx' rfl]
  · rw [stat_keyValue there, stat_of_slot h hx]
  · rw [stat_keyValue there', stat_of_slot h' hx']
  · rw [Inode.kind_toAttr, fits'.kind]
    rfl
  · have bound : data.length < UInt64.size := Nat.lt_trans small (by decide)
    have length : data.length ≤ maxFileLength := Nat.le_of_lt_succ small
    rw [Inode.size_toAttr, fits'.size data rfl, recordedSize_toNat bound, Nat.min_eq_left length]
  · rw [Inode.perm_toAttr]
    exact Inode.perm_update ..
  · exact RecordStore.lookup_some h.coherent h.rooted h.holds hx
  · exact RecordStore.lookup_some h'.coherent h'.rooted h'.holds hx'

/-- A file that is stored as it shows keeps its inode, however often. -/
theorem StoredAsShown.inode {F : Slots} (stored : StoredAsShown b p s s')
    (there : s.backends[b]? = some (.keyValue store false))
    (h : (s.volumes.stores store).Represents F) {x : Slot} {old : Bytes} (hx : F p = some x)
    (hb : x.body = .file old) :
    s'.backends[b]? = some (.keyValue store false) ∧
      ∃ F' y data, (s'.volumes.stores store).Represents F' ∧ F' p = some y ∧
        y.body = .file data ∧ y.id = x.id ∧ y.inode = x.inode := by
  induction stored with
  | never => exact ⟨there, F, x, old, h, hx, hb, rfl, rfl⟩
  | @again s' before a data shown size ih =>
    obtain ⟨there', F', y, old', h', hy, hb', id, inode⟩ := ih
    have fits := h'.coherent.fits p y hy
    rw [stat_keyValue there', stat_of_slot h' hy] at shown
    cases shown
    -- A size that is told or a content of the length there was: both are kept as
    -- the size that is kept.
    have same : Inode.recordedSize data.length.toUInt64 = y.inode.size := by
      rcases size with told | ⟨old'', read, length⟩
      · rw [told, Nat.toUInt64_eq, UInt64.ofNat_toNat, Inode.recordedSize_toAttr]
      · rw [readAll_keyValue there', readAll_of_slot h' hy hb'] at read
        cases read
        rw [length, fits.size old' hb']
    obtain ⟨-, F'', h'', hy'⟩ := sync_slot there' h' hy hb' data y.inode.toAttr
    exact ⟨there', F'', synced y data y.inode.toAttr, data, h'', hy', rfl, id,
      (inode_synced fits hb' same).trans inode⟩

/-- **An inode that has not changed need not be written**: requests to a store that can come
about are answered the same, and leave the same records byte for byte, if every inode is written
in any case. A file of such a store can always be stored, and is then what was stored. And the
record of its inode stays the same byte for byte however often the file is stored with the
attributes that it shows. -/
theorem Reachable.skipped_writes_invisible (reachable : s.Reachable)
    (there : s.backends[b]? = some (.keyValue store false)) :
    (∀ requests, let t := s.volumes.transaction store
      (runAll actSaving requests t).1 = (runAll act requests t).1 ∧
        (runAll actSaving requests t).2.store.records = (runAll act requests t).2.store.records) ∧
    ∀ p a, s.stat b p = .ok a → a.isFile = true →
      (∀ data attr, ∃ s', s.sync b p data attr = (.ok (), s') ∧
        FileStored b store p data attr s s') ∧
      ∃ id, ∃ i : Inode, (s.volumes.stores store).lookup p = .ok (id, i) ∧
        ∀ s', StoredAsShown b p s s' → (s'.volumes.stores store).lookup p = .ok (id, i) ∧
          (s'.volumes.stores store).get? id = (s.volumes.stores store).get? id := by
  obtain ⟨F, h⟩ : s.volumes.SoundAt (.store store) :=
    reachable.inOrder.volumes.sound b _ _ there rfl
  refine ⟨fun requests => ?_, fun p a shown file => ?_⟩
  · obtain ⟨answers, alike⟩ :=
      runAll_alike requests (t := s.volumes.transaction store) ⟨F, h⟩ (.refl _)
    exact ⟨answers, alike.records⟩
  rw [stat_keyValue there] at shown
  obtain ⟨x, old, hx, hb, -⟩ := file_of_stat h shown file
  refine ⟨fun data attr => ?_, x.id, x.inode,
    RecordStore.lookup_some h.coherent h.rooted h.holds hx, fun s' stored => ?_⟩
  · exact ⟨_, Prod.ext (sync_slot there h hx hb data attr).1 rfl,
      fileStored there h hx hb data attr⟩
  · obtain ⟨-, F', y, data, h', hy, -, id, inode⟩ := stored.inode there h hx hb
    have found := RecordStore.lookup_some h'.coherent h'.rooted h'.holds hy
    rw [id, inode] at found
    refine ⟨found, ?_⟩
    have before : (s.volumes.stores store).get? x.id = some x.inode.encode := h.holds p x hx .inode
    have after : (s'.volumes.stores store).get? y.id = some y.inode.encode := h'.holds p y hy .inode
    rw [before, ← inode, ← after, id]

/-- A file that was written in a fresh store: three bytes are stored in it, and its
inode stays as it is. -/
theorem skipped_writes_invisible_freshFile : ∃ (s : System) (a : FileAttr), s.Reachable ∧
    s.backends[0]? = some (.keyValue 0 false) ∧ s.stat 0 (.ofText "/f") = .ok a ∧ a.isFile = true ∧
    (∀ data attr, ∃ s', s.sync 0 (.ofText "/f") data attr = (.ok (), s') ∧
      FileStored 0 0 (.ofText "/f") data attr s s') ∧
    ∃ id, ∃ i : Inode, (s.volumes.stores 0).lookup (.ofText "/f") = .ok (id, i) ∧
      ∀ s', StoredAsShown 0 (.ofText "/f") s s' →
        (s'.volumes.stores 0).get? id = (s.volumes.stores 0).get? id := by
  obtain ⟨s, made, file⟩ :=
    Except.exists_ok (x := (System.empty .counting).addKeyValue (.ofRecords ∅) false)
    (P := fun s => let attr := (s.writeAll 0 (.ofText "/f") [97, 98, 99]).2.stat 0 (.ofText "/f")
      attr.isOk = true ∧ ∀ a ∈ attr.toOption, a.isFile = true)
    (by decide +kernel) (by decide +kernel)
  have reached :=
    ((Reached.empty .counting).addKeyValue rfl made).writeAll 0 (.ofText "/f") [97, 98, 99]
  generalize (System.writeAll _ 0 (.ofText "/f") [97, 98, 99]).2 = s at reached file
  obtain ⟨a, shown, isFile⟩ := Except.exists_ok file.1 file.2
  have there : s.backends[0]? = some (.keyValue 0 false) := reached.at' rfl
  obtain ⟨stored, id, i, found, kept⟩ :=
    (reached.reachable.skipped_writes_invisible there).2 (.ofText "/f") a shown isFile
  exact ⟨s, a, reached.reachable, there, shown, isFile, stored, id, i, found, fun s' h =>
    (kept s' h).2⟩

end System

end MountSpace
