import MountSpace.KeyValue.Records
import MountSpace.Proofs.Mode
import MountSpace.Proofs.Space

/-!
# Directory trees as slots

What a store of records is meant to hold, as a map from paths: at each path the id of an inode, the
inode, and what its content is. A store is compared with such a map, never with another store.

- `Body`, `Slot`, `Slots`: what is kept about one path, and about all of them.
- `Slots.Coherent`: listings name just the entries below them, and no key is used twice.
- `Slots.space`: what the slots look like from outside.
- `Slots.graft`: another subtree put under a name of a directory. Adding, removing, moving and
  changing an entry are all of this form, so `Coherent.graft` serves them all.
- `Slots.Grows`: what was there is there still.
-/

namespace MountSpace

/-- What the content of an inode is. -/
inductive Body where
  | file (data : Bytes)
  | directory (listing : Listing)

namespace Body

/-- The record of the content. -/
def bytes : Body → Bytes
  | file data => data
  | directory listing => listing.encode

def kind : Body → FileKind
  | file _ => .file
  | directory _ => .directory

/-- The content of a file. -/
def content? : Body → Option Bytes
  | file data => some data
  | directory _ => none

end Body

/-- The two records that are kept about one path. -/
inductive Role where
  | inode
  | content
  deriving DecidableEq

/-- What is kept about one path. -/
structure Slot where
  id : String
  inode : Inode
  body : Body

namespace Slot

/-- The key of a record. -/
def key (x : Slot) : Role → String
  | .inode => x.id
  | .content => x.inode.contentId

/-- The bytes of a record. -/
def record (x : Slot) : Role → Bytes
  | .inode => x.inode.encode
  | .content => x.body.bytes

/-- What a caller can tell about a slot. -/
def entry (x : Slot) : Entry :=
  match x.body with
  | .file data => .file x.inode.perm data
  | .directory _ => .directory x.inode.perm

/-- The inode is about the content. -/
structure Fits (x : Slot) : Prop where
  kind : x.inode.kind = x.body.kind
  tagged : x.inode.IsTagged
  size : ∀ data, x.body = .file data → x.inode.size = Inode.recordedSize data.length.toUInt64

@[simp] theorem kind_entry (x : Slot) : x.entry.kind = x.body.kind := by
  rw [entry]
  cases x.body <;> rfl

theorem entry_file {x : Slot} {data : Bytes} (h : x.body = .file data) :
    x.entry = .file x.inode.perm data := by rw [entry, h]

theorem entry_directory {x : Slot} {l : Listing} (h : x.body = .directory l) :
    x.entry = .directory x.inode.perm := by rw [entry, h]

/-- A slot with the same keys that is a directory with a listing. -/
structure Relists (x d : Slot) (l : Listing) : Prop where
  id : d.id = x.id
  contentId : d.inode.contentId = x.inode.contentId
  perm : d.inode.perm = x.inode.perm
  /-- The numbers of the entry and of its device. -/
  numbers : d.inode.dev = x.inode.dev ∧ d.inode.ino = x.inode.ino
  fits : d.Fits
  body : d.body = .directory l

theorem Relists.key {x d : Slot} {l : Listing} (h : x.Relists d l) : ∀ r, d.key r = x.key r
  | .inode => h.id
  | .content => h.contentId

theorem Relists.trans {x d d' : Slot} {l l' : Listing} (h : x.Relists d l) (h' : d.Relists d' l') :
    x.Relists d' l' :=
  ⟨h'.id.trans h.id, h'.contentId.trans h.contentId, h'.perm.trans h.perm,
    ⟨h'.numbers.1.trans h.numbers.1, h'.numbers.2.trans h.numbers.2⟩, h'.fits, h'.body⟩

theorem Relists.entry {x d : Slot} {l l' : Listing} (h : x.Relists d l')
    (hl : x.body = .directory l) : d.entry = x.entry := by
  rw [entry_directory h.body, entry_directory hl, h.perm]

end Slot

/-- What is kept about each path. -/
abbrev Slots := Path → Option Slot

namespace Slots

/-- The key of a record at a path. -/
def key (F : Slots) (p : Path) (r : Role) : Option String := (F p).map (·.key r)

/-- What the slots look like from outside. -/
def space (F : Slots) : Space := fun p => (F p).map Slot.entry

/-- The slots at and below a path, by the steps that lead to them from there. -/
def below (F : Slots) (p : Path) : Slots := fun k => F (p ++ k)

/-- A slot without others below it. -/
def only (x : Slot) : Slots := fun k => if k = .root then some x else none

/-- The slots with others at and below an entry of a directory, and with a new slot for the
directory. -/
def graft (F : Slots) (p : Path) (s : Segment) (G : Slots) (d : Slot) : Slots := fun q =>
  if (p.child s).isPrefixOf q then G (q.relativeTo (p.child s))
  else if q = p then some d
  else F q

/-- The path holds a directory with a listing. -/
def HasListing (F : Slots) (p : Path) (l : Listing) : Prop :=
  ∃ x, F p = some x ∧ x.body = .directory l

/-- Inodes are about their contents, listings name the entries below them, and no two
records have one key. -/
structure Coherent (F : Slots) : Prop where
  fits : ∀ p x, F p = some x → x.Fits
  /-- A listing has the ids of the entries. -/
  listed : ∀ p l, F.HasListing p l → ∀ s : Segment, l.get? s.text = F.key (p.child s) .inode
  /-- A listing has nothing that is not the name of an entry. -/
  named : ∀ p l, F.HasListing p l → ∀ name, l.get? name ≠ none → IsSegment name
  held : ∀ (p : Path) (s : Segment), F (p.child s) ≠ none → ∃ l, F.HasListing p l
  owned : ∀ {p q : Path} {r r' : Role} {k : String}, F.key p r = some k → F.key q r' = some k →
    p = q ∧ r = r'

/-- The root is a directory under the key of the root. -/
def Rooted (F : Slots) : Prop := ∃ x l, F .root = some x ∧ x.id = rootKey ∧ x.body = .directory l

variable {F G : Slots} {p q : Path} {s : Segment} {x d : Slot} {l l' : Listing}

/-! ## Looking up slots -/

theorem key_some (h : F p = some x) (r : Role) : F.key p r = some (x.key r) := by
  rw [key, h, Option.map_some]

theorem key_none (h : F p = none) (r : Role) : F.key p r = none := by rw [key, h, Option.map_none]

theorem key_eq_none_iff {r : Role} : F.key p r = none ↔ F p = none := Option.map_eq_none_iff

theorem exists_of_key {r : Role} {k : String} (h : F.key p r = some k) :
    ∃ x, F p = some x ∧ x.key r = k :=
  Option.map_eq_some_iff.1 h

theorem space_some (h : F p = some x) : F.space p = some x.entry := by
  rw [space, h, Option.map_some]

theorem space_none (h : F p = none) : F.space p = none := by rw [space, h, Option.map_none]

theorem space_eq_none_iff : F.space p = none ↔ F p = none := Option.map_eq_none_iff

theorem isDirectory_iff : F.space.IsDirectory p ↔ ∃ l, F.HasListing p l := by
  constructor
  · rintro ⟨perm, h⟩
    obtain ⟨x, hx, he⟩ := Option.map_eq_some_iff.1 h
    rw [Slot.entry] at he
    split at he
    · cases he
    next l hl => exact ⟨l, x, hx, hl⟩
  · rintro ⟨l, x, hx, hl⟩
    exact ⟨_, by rw [space_some hx, Slot.entry_directory hl]⟩

theorem isFile_iff : F.space.IsFile p ↔ ∃ x data, F p = some x ∧ x.body = .file data := by
  constructor
  · rintro ⟨perm, data, h⟩
    obtain ⟨x, hx, he⟩ := Option.map_eq_some_iff.1 h
    rw [Slot.entry] at he
    split at he
    next data hd => exact ⟨x, data, hx, hd⟩
    · cases he
  · rintro ⟨x, data, hx, hd⟩
    exact ⟨_, _, by rw [space_some hx, Slot.entry_file hd]⟩

theorem HasListing.ne_none (h : F.HasListing p l) : F p ≠ none := by
  obtain ⟨x, hx, -⟩ := h
  rw [hx]
  exact Option.some_ne_none x

namespace Coherent

variable (ok : F.Coherent)
include ok

theorem tree (root : F.Rooted) : F.space.IsTree where
  root := by
    obtain ⟨x, l, hx, -, hl⟩ := root
    exact isDirectory_iff.2 ⟨l, x, hx, hl⟩
  parent := fun p s h => isDirectory_iff.2 (ok.held p s fun k => h (space_none k))

/-- A key belongs to one record only. -/
theorem owned_eq {r r' : Role} {k : String} (hx : F p = some x) (hk : x.key r = k)
    (hq : F.key q r' = some k) : p = q ∧ r = r' :=
  ok.owned ((key_some hx r).trans (congrArg some hk)) hq

/-- The two records at a path have two keys. -/
theorem id_ne_contentId (hx : F p = some x) : x.id ≠ x.inode.contentId := fun e => by
  have := (ok.owned_eq (r := .inode) hx e (key_some hx .content)).2
  cases this

/-- A directory is empty when its listing is. -/
theorem hasEntries_iff (h : F.HasListing p l) : F.space.HasEntries p ↔ l.isEmpty = false := by
  constructor
  · rintro ⟨s, hs⟩
    have listed := ok.listed p l h s
    rw [SortedMap.isEmpty]
    cases hl : l.toList with
    | cons => rfl
    | nil =>
      refine absurd (space_eq_none_iff.2 (key_eq_none_iff.1 (listed.symm.trans ?_))) hs
      rw [SortedMap.get?, hl]
      rfl
  · intro full
    cases hl : l.toList with
    | nil =>
      rw [SortedMap.isEmpty, hl] at full
      cases full
    | cons e rest =>
      have mem : (e.1, e.2) ∈ l.toList := by
        rw [hl]
        exact List.mem_cons_self
      have hn := SortedMap.get?_eq_some_iff.2 mem
      have valid := ok.named p l h e.1 (by rw [hn]; exact Option.some_ne_none _)
      have listed := ok.listed p l h ⟨e.1, valid⟩
      refine ⟨⟨e.1, valid⟩, fun k => ?_⟩
      rw [hn, key_none (space_eq_none_iff.1 k)] at listed
      cases listed

end Coherent

/-! ## Parts of slots -/

theorem coherent_none : Coherent fun _ => none where
  fits := fun _ _ h => by cases h
  listed := fun _ _ ⟨_, h, _⟩ => by cases h
  named := fun _ _ ⟨_, h, _⟩ => by cases h
  held := fun _ _ h => absurd rfl h
  owned := fun h => by cases h

theorem only_root : only x .root = some x := if_pos rfl

theorem only_child (k : Path) : only x (k.child s) = none := if_neg (Path.child_ne_root k s)

theorem eq_root_of_only {k : Path} {y : Slot} (h : only x k = some y) : k = .root ∧ y = x := by
  rw [only] at h
  split at h
  next hk =>
    cases h
    exact ⟨hk, rfl⟩
  next => cases h

/-- A lone file or empty directory is coherent. -/
theorem coherent_only (fits : x.Fits) (apart : x.id ≠ x.inode.contentId)
    (empty : ∀ l, x.body = .directory l → l = ∅) : (only x).Coherent where
  fits := fun _ _ h => (eq_root_of_only h).2 ▸ fits
  listed := by
    rintro p l ⟨y, hy, hl⟩ s
    cases (eq_root_of_only hy).2
    rw [key_none (only_child p), empty l hl]
    rfl
  named := by
    rintro p l ⟨y, hy, hl⟩ name h
    cases (eq_root_of_only hy).2
    rw [empty l hl] at h
    exact absurd rfl h
  held := fun p s h => absurd (only_child p) h
  owned := by
    intro p q r r' k hp hq
    obtain ⟨y, hy, rfl⟩ := exists_of_key hp
    obtain ⟨z, hz, e⟩ := exists_of_key hq
    obtain ⟨rfl, rfl⟩ := eq_root_of_only hy
    obtain ⟨rfl, rfl⟩ := eq_root_of_only hz
    refine ⟨rfl, ?_⟩
    cases r <;> cases r'
    · rfl
    · exact absurd e.symm apart
    · exact absurd e apart
    · rfl

/-- What lies at and below a path is coherent by itself. -/
theorem Coherent.below (ok : F.Coherent) (p : Path) : (F.below p).Coherent where
  fits := fun k x h => ok.fits (p ++ k) x h
  listed := by
    intro k l h s
    rw [ok.listed (p ++ k) l h s, ← Path.append_child]
    rfl
  named := fun k l h => ok.named (p ++ k) l h
  held := by
    intro k s h
    rw [Slots.below, Path.append_child] at h
    exact ok.held (p ++ k) s h
  owned := fun h k => by
    obtain ⟨e, hr⟩ := ok.owned h k
    exact ⟨Path.append_cancel.1 e, hr⟩

/-! ## Grafting -/

theorem graft_below (k : Path) : F.graft p s G d (p.child s ++ k) = G k := by
  rw [graft, if_pos (Path.isPrefixOf_append ..), Path.relativeTo_append]

theorem graft_holder : F.graft p s G d p = some d := by
  rw [graft, if_neg (Path.child_not_isPrefixOf p s), if_pos rfl]

theorem graft_other (h : ¬(p.child s).isPrefixOf q = true) (ne : q ≠ p) :
    F.graft p s G d q = F q := by
  rw [graft, if_neg h, if_neg ne]

/-- A path is in the new part, is the directory that holds it, or is elsewhere. -/
theorem graft_cases (p q : Path) (s : Segment) :
    (∃ k : Path, q = p.child s ++ k) ∨ q = p ∨ (¬(p.child s).isPrefixOf q = true ∧ q ≠ p) := by
  by_cases h : (p.child s).isPrefixOf q = true
  · exact .inl (Path.isPrefixOf_iff.1 h)
  · by_cases ne : q = p
    · exact .inr (.inl ne)
    · exact .inr (.inr ⟨h, ne⟩)

/-- Outside the new part all keys are as before. -/
theorem key_graft (hx : F p = some x) (hd : ∀ r, d.key r = x.key r) (q : Path) (r : Role) :
    (F.graft p s G d).key q r =
      if (p.child s).isPrefixOf q then G.key (q.relativeTo (p.child s)) r else F.key q r := by
  rcases graft_cases p q s with ⟨k, rfl⟩ | rfl | ⟨h, ne⟩
  · rw [key, graft_below, if_pos (Path.isPrefixOf_append ..), Path.relativeTo_append, key]
  · rw [key_some graft_holder, if_neg (Path.child_not_isPrefixOf q s), key_some hx, hd]
  · rw [key, graft_other h ne, if_neg h, key]

theorem space_graft (hx : F p = some x) (hd : d.entry = x.entry) (q : Path) :
    (F.graft p s G d).space q =
      if (p.child s).isPrefixOf q then G.space (q.relativeTo (p.child s)) else F.space q := by
  rcases graft_cases p q s with ⟨k, rfl⟩ | rfl | ⟨h, ne⟩
  · rw [space, graft_below, if_pos (Path.isPrefixOf_append ..), Path.relativeTo_append, space]
  · rw [space_some graft_holder, if_neg (Path.child_not_isPrefixOf q s), space_some hx, hd]
  · rw [space, graft_other h ne, if_neg h, space]

/-- What was there is there still. Only the listing of a directory may have changed. -/
def Grows (F F' : Slots) : Prop :=
  ∀ q x, F q = some x → ∃ x', F' q = some x' ∧ (x' = x ∨
    ∃ l l', x.body = .directory l ∧ x.Relists x' l')

/-- Grafting at a path without slots takes nothing away. -/
theorem grows_graft (hx : F p = some x) (hl : x.body = .directory l) (hd : x.Relists d l')
    (below : ∀ k : Path, F (p.child s ++ k) = none) : F.Grows (F.graft p s G d) := by
  intro q y hy
  rcases graft_cases p q s with ⟨k, rfl⟩ | rfl | ⟨h, ne⟩
  · cases (below k).symm.trans hy
  · cases hx.symm.trans hy
    exact ⟨d, graft_holder, .inr ⟨l, l', hl, hd⟩⟩
  · exact ⟨y, (graft_other h ne).trans hy, .inl rfl⟩

/-- Grafting keeps slots coherent if the listing of the directory is changed to match, and the new
part shares no key with what stays. -/
theorem Coherent.graft (ok : F.Coherent) (sub : G.Coherent) (hx : F p = some x)
    (hl : x.body = .directory l) (hd : x.Relists d l')
    (changed : ∀ name, l'.get? name = if name = s.text then G.key .root .inode else l.get? name)
    (apart : ∀ {k q : Path} {r r' : Role} {key : String}, G.key k r = some key →
      F.key q r' = some key →
      (p.child s).isPrefixOf q = true) :
    (F.graft p s G d).Coherent where
  fits := by
    intro q y hy
    rcases graft_cases p q s with ⟨k, rfl⟩ | rfl | ⟨h, ne⟩
    · exact sub.fits k y ((graft_below k).symm.trans hy)
    · cases graft_holder.symm.trans hy
      exact hd.fits
    · exact ok.fits q y ((graft_other h ne).symm.trans hy)
  listed := by
    rintro q m ⟨y, hy, hm⟩ t
    rw [key_graft hx hd.key]
    -- The path lies in the part that is grafted, is the directory above it, or lies elsewhere.
    rcases graft_cases p q s with ⟨k, rfl⟩ | rfl | ⟨h, ne⟩
    · rw [← Path.append_child, if_pos (Path.isPrefixOf_append ..), Path.relativeTo_append]
      exact sub.listed k m ⟨y, (graft_below k).symm.trans hy, hm⟩ t
    · cases graft_holder.symm.trans hy
      cases hd.body.symm.trans hm
      rw [changed]
      by_cases ht : t.text = s.text
      · cases Segment.ext_text ht
        rw [if_pos rfl, if_pos (Path.isPrefixOf_self _), Path.relativeTo_self]
      · have outside : ¬(q.child s).isPrefixOf (q.child t) = true := fun below => by
          rcases Path.isPrefixOf_child.1 below with e | above
          · exact ht (congrArg Segment.text (Path.child_injective e).2).symm
          · exact Path.child_not_isPrefixOf q s above
        rw [if_neg ht, if_neg outside]
        exact ok.listed q l ⟨x, hx, hl⟩ t
    · have outside : ¬(p.child s).isPrefixOf (q.child t) = true := fun below => by
        rcases Path.isPrefixOf_child.1 below with e | above
        · exact ne (Path.child_injective e).1.symm
        · exact h above
      rw [if_neg outside]
      exact ok.listed q m ⟨y, (graft_other h ne).symm.trans hy, hm⟩ t
  named := by
    rintro q m ⟨y, hy, hm⟩ name hn
    rcases graft_cases p q s with ⟨k, rfl⟩ | rfl | ⟨h, ne⟩
    · exact sub.named k m ⟨y, (graft_below k).symm.trans hy, hm⟩ name hn
    · cases graft_holder.symm.trans hy
      cases hd.body.symm.trans hm
      rw [changed] at hn
      split at hn
      next e => exact e ▸ s.valid
      next => exact ok.named q l ⟨x, hx, hl⟩ name hn
    · exact ok.named q m ⟨y, (graft_other h ne).symm.trans hy, hm⟩ name hn
  held := by
    intro q t taken
    rcases graft_cases p q s with ⟨k, rfl⟩ | rfl | ⟨h, ne⟩
    · rw [← Path.append_child, graft_below] at taken
      obtain ⟨m, y, hy, hm⟩ := sub.held k t taken
      exact ⟨m, y, (graft_below k).trans hy, hm⟩
    · exact ⟨l', d, graft_holder, hd.body⟩
    · have before : F (q.child t) ≠ none := by
        rcases graft_cases p (q.child t) s with ⟨k, hk⟩ | e | ⟨h', ne'⟩
        · -- What lies below the new entry is below its directory or is the entry itself.
          rcases Path.isPrefixOf_child.1 (Path.isPrefixOf_iff.2 ⟨k, hk⟩) with e | above
          · exact absurd (Path.child_injective e).1.symm ne
          · exact absurd above h
        · rw [e, hx]
          exact Option.some_ne_none x
        · rwa [graft_other h' ne'] at taken
      obtain ⟨m, y, hy, hm⟩ := ok.held q t before
      exact ⟨m, y, (graft_other h ne).trans hy, hm⟩
  owned := by
    intro q q' r r' key hq hq'
    rw [key_graft hx hd.key] at hq hq'
    -- A key inside the grafted part is not one outside of it.
    split at hq <;> split at hq'
    next h h' =>
      obtain ⟨e, hr⟩ := sub.owned hq hq'
      rw [← Path.append_relativeTo h, ← Path.append_relativeTo h', e]
      exact ⟨rfl, hr⟩
    next h h' => exact absurd (apart hq hq') h'
    next h h' => exact absurd (apart hq' hq) h
    next h h' => exact ok.owned hq hq'

theorem Rooted.graft (root : F.Rooted) (hx : F p = some x) (hd : x.Relists d l') :
    (F.graft p s G d).Rooted := by
  obtain ⟨y, m, hy, id, hm⟩ := root
  by_cases hp : p = .root
  · subst hp
    cases hx.symm.trans hy
    exact ⟨d, l', graft_holder, hd.id.trans id, hd.body⟩
  · refine ⟨y, m, (graft_other (fun h => ?_) (Ne.symm hp)).trans hy, id, hm⟩
    exact Path.child_ne_root p s (Path.isPrefixOf_root.1 h)

end Slots

end MountSpace
