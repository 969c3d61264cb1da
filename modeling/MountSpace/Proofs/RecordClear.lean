import MountSpace.Proofs.RecordAnswers

/-!
# Starting and clearing a store of records

- `Prunes`: the records at some paths are gone, and no other record has changed.
- `runOn_deleteBelow`: deleting below a directory prunes what lies below it, given enough levels.
- `length_lt_size`: a store has more records than a path has steps, so there are enough.
- `clear_root`, `clear_sound`, `initialise_sound`: clearing a store and starting a fresh one.
-/

namespace MountSpace.RecordTree

open StoreAction Transaction

variable {F : Slots}

/-! ## Pruning -/

/-- The records at some paths are gone, and no other record has changed. -/
structure Prunes (F : Slots) (gone : Path → Prop) (t t' : Transaction) : Prop where
  own : ∀ q r k, gone q → F.key q r = some k → t'.store.get? k = none
  other : ∀ k, (∀ q r, gone q → F.key q r ≠ some k) → t'.store.get? k = t.store.get? k
  extended : t.Extends t'

/-- The records at and below a path are in the store. -/
def HoldsBelow (s : RecordStore) (F : Slots) (p : Path) : Prop :=
  ∀ (k : Path) x, F (p ++ k) = some x → ∀ r : Role, s.get? (x.key r) = some (x.record r)

theorem HoldsBelow.child {s : RecordStore} {p : Path} (h : HoldsBelow s F p) (n : Segment) :
    HoldsBelow s F (p.child n) := fun k x hx => by
  rw [Path.child_append] at hx
  exact h _ x hx

theorem HoldsBelow.self {s : RecordStore} {p : Path} {x : Slot} (h : HoldsBelow s F p)
    (hx : F p = some x) (r : Role) : s.get? (x.key r) = some (x.record r) :=
  h .root x (by rwa [Path.append_root]) r

namespace Prunes

variable {t t' t'' : Transaction} {gone gone' : Path → Prop}

theorem refl (F : Slots) (t : Transaction) : Prunes F (fun _ => False) t t :=
  ⟨fun _ _ _ no => no.elim, fun _ _ => rfl, .refl t⟩

theorem trans (h : Prunes F gone t t') (h' : Prunes F gone' t' t'') :
    Prunes F (fun q => gone q ∨ gone' q) t t'' where
  own := by
    intro q r k hq hk
    by_cases again : ∃ q r, gone' q ∧ F.key q r = some k
    · obtain ⟨q', r', hq', hk'⟩ := again
      exact h'.own q' r' k hq' hk'
    · rw [h'.other k fun q' r' hq' hk' => again ⟨q', r', hq', hk'⟩]
      exact h.own q r k (hq.resolve_right fun hq' => again ⟨q, r, hq', hk⟩) hk
  other := by
    intro k ne
    rw [h'.other k fun q r hq => ne q r (.inr hq), h.other k fun q r hq => ne q r (.inl hq)]
  extended := h.extended.trans h'.extended

theorem congr (h : Prunes F gone t t') (same : ∀ q, F q ≠ none → (gone q ↔ gone' q)) :
    Prunes F gone' t t' where
  own := fun q r k hq hk => h.own q r k
    ((same q fun e => by rw [Slots.key_none e] at hk; cases hk).2 hq) hk
  other := fun k ne => h.other k fun q r hq hk =>
    ne q r ((same q fun e => by rw [Slots.key_none e] at hk; cases hk).1 hq) hk
  extended := h.extended

/-- The records at a path that is kept stay as they are. -/
theorem kept (h : Prunes F gone t t') (ok : F.Coherent) {p : Path} {x : Slot} (hx : F p = some x)
    (stays : ¬gone p) (r : Role) : t'.store.get? (x.key r) = t.store.get? (x.key r) :=
  h.other _ fun _ _ hq hk => stays ((ok.owned_eq hx rfl hk).1 ▸ hq)

/-- The records at and below a path that is kept whole stay in the store. -/
theorem holdsBelow (h : Prunes F gone t t') (ok : F.Coherent) {p : Path}
    (holds : HoldsBelow t.store F p) (stays : ∀ k : Path, ¬gone (p ++ k)) :
    HoldsBelow t'.store F p := fun k x hx r =>
  (h.kept ok hx (stays k) r).trans (holds k x hx r)

end Prunes

/-- Deleting both records at a path prunes it. -/
theorem runOn_deleteBoth_prunes {p : Path} {x : Slot} (hx : F p = some x) (t : Transaction) :
    ∃ t', (deleteBoth x.id x.inode).runOn t = (.ok (), t') ∧ Prunes F (· = p) t t' := by
  obtain ⟨t', hr, deleted⟩ := runOn_deleteBoth x t
  refine ⟨t', hr, fun q r k hq hk => ?_, fun k ne => deleted.other k fun r e => ?_,
    deleted.extended⟩
  · subst hq
    rw [Slots.key_some hx] at hk
    cases hk
    exact deleted.own r
  · exact ne p r rfl (e ▸ Slots.key_some hx r)

/-! ## Deleting below a directory -/

/-- The inode at a path is found while its record is in the store. -/
theorem inode_of_holdsBelow {s : RecordStore} {p : Path} {x : Slot} (h : HoldsBelow s F p)
    (hx : F p = some x) : s.inode x.id = .ok x.inode := by
  have record : s.get? x.id = some x.inode.encode := h.self hx .inode
  simp only [RecordStore.inode, record, Inode.decode_encode]
  rfl

theorem listing_of_holdsBelow {s : RecordStore} {p : Path} {x : Slot} {l : Listing}
    (h : HoldsBelow s F p) (hx : F p = some x) (hl : x.body = .directory l) :
    s.listing x.inode = .ok l := by
  have record : s.get? x.inode.contentId = some x.body.bytes := h.self hx .content
  simp only [RecordStore.listing, RecordStore.content, record, hl, Body.bytes, Except.ok_bind,
    Listing.decode_encode]
  rfl

/-- All directories at and below a path are fewer levels deep than a bound. -/
def Shallow (F : Slots) (p : Path) (levels : Nat) : Prop :=
  ∀ (k : Path) l, F.HasListing (p ++ k) l → k.segments.length < levels

theorem Shallow.child {p : Path} {levels : Nat} (h : Shallow F p (levels + 1)) (n : Segment) :
    Shallow F (p.child n) levels := by
  intro k l hk
  rw [Path.child_append] at hk
  have := h _ l hk
  simp only [Path.segments_append, Path.segments_child, Path.segments_root, List.nil_append,
    List.length_append, List.length_singleton] at this
  omega

/-- What happens to one entry while everything below a directory is deleted. -/
def deleteEntry (levels : Nat) (id : String) : StoreAction Unit := do
  let child ← ask (·.inode id)
  if child.isDir then
    deleteBelow levels child
  deleteBoth id child

/-- Deleting below a directory prunes what lies below it, if a number of levels is enough. -/
def DeletesBelow (F : Slots) (levels : Nat) : Prop :=
  ∀ {p : Path} {x : Slot} {l : Listing} {t : Transaction}, F p = some x → x.body = .directory l →
    Shallow F p levels → HoldsBelow t.store F p →
    ∃ t', (deleteBelow levels x.inode).runOn t = (.ok (), t') ∧
      Prunes F (fun q => ∃ k : Path, k ≠ .root ∧ q = p ++ k) t t'

section Entries

variable (ok : F.Coherent) (root : F.Rooted) {levels : Nat} (deletes : DeletesBelow F levels)
include ok root deletes

/-- What lies below an entry goes first, then the two records of the entry itself. -/
theorem runOn_deleteEntry {p : Path} {y : Slot} {t : Transaction} (hy : F p = some y)
    (shallow : Shallow F p levels) (holds : HoldsBelow t.store F p) :
    ∃ t', (deleteEntry levels y.id).runOn t = (.ok (), t') ∧
      Prunes F (fun q => p.isPrefixOf q = true) t t' := by
  rw [deleteEntry, runOn_ask_bind, inode_of_holdsBelow holds hy]
  dsimp only
  cases hb : y.body with
  | file data =>
    rw [(ok.fits _ y hy).isDir_of_file hb]
    obtain ⟨t', hr, pruned⟩ := runOn_deleteBoth_prunes hy t
    refine ⟨t', hr, pruned.congr fun q hq => ⟨fun e => e ▸ Path.isPrefixOf_self p, fun below => ?_⟩⟩
    obtain ⟨k, rfl⟩ := Path.isPrefixOf_iff.1 below
    by_cases hk : k = .root
    · rw [hk, Path.append_root]
    · have dir := (ok.tree root).above (fun e => hq (Slots.space_eq_none_iff.1 e)) hk
      exact absurd dir (Slots.isFile_iff.2 ⟨y, data, hy, hb⟩).not_isDirectory
  | directory m =>
    obtain ⟨t₁, hr₁, below⟩ := deletes hy hb shallow holds
    obtain ⟨t₂, hr₂, own⟩ := runOn_deleteBoth_prunes hy t₁
    refine ⟨t₂, ?_, (below.trans own).congr fun q _ => ⟨?_, fun prefixed => ?_⟩⟩
    · rw [(ok.fits _ y hy).isDir_of_directory hb, if_pos rfl, Action.runOn_bind_ok hr₁]
      exact hr₂
    · rintro (⟨k, -, rfl⟩ | rfl)
      · exact Path.isPrefixOf_append ..
      · exact Path.isPrefixOf_self _
    · obtain ⟨k, rfl⟩ := Path.isPrefixOf_iff.1 prefixed
      by_cases hk : k = .root
      · exact .inr (by rw [hk, Path.append_root])
      · exact .inl ⟨k, hk, rfl⟩

/-- The entries of a directory are deleted one after the other; what lies below one of them is not
touched by the deletion of the others. -/
theorem runOn_deleteEntries {p : Path} {l : Listing} (dir : F.HasListing p l)
    (shallow : Shallow F p (levels + 1)) : ∀ (es : List (String × String)) {t : Transaction},
      (∀ e ∈ es, l.get? e.1 = some e.2) → (es.map (·.1)).Nodup →
      (∀ n : Segment, n.text ∈ es.map (·.1) → HoldsBelow t.store F (p.child n)) →
      ∃ t', ((es.map (·.2)).forM (deleteEntry levels)).runOn t = (.ok (), t') ∧
        Prunes F (fun q => ∃ n : Segment, n.text ∈ es.map (·.1) ∧ (p.child n).isPrefixOf q = true)
          t t'
  | [], t, _, _, _ => by
    refine ⟨t, rfl, (Prunes.refl F t).congr fun q _ => ⟨False.elim, ?_⟩⟩
    rintro ⟨n, no, -⟩
    cases no
  | (name, id) :: es, t, listed, distinct, holds => by
    have hn : l.get? name = some id := listed _ List.mem_cons_self
    let n : Segment := ⟨name, ok.named p l dir name (by rw [hn]; exact Option.some_ne_none id)⟩
    obtain ⟨y, hy, rfl⟩ := Slots.exists_of_key ((ok.listed p l dir n).symm.trans hn)
    have here := holds n List.mem_cons_self
    -- The first entry goes, which leaves the records below the others as they were.
    obtain ⟨t₁, hr₁, first⟩ := runOn_deleteEntry ok root deletes hy (shallow.child n) here
    have distinct := List.nodup_cons.1 distinct
    obtain ⟨t₂, hr₂, others⟩ := runOn_deleteEntries dir shallow es (t := t₁)
      (fun e he => listed e (List.mem_cons_of_mem _ he)) distinct.2 fun n' hn' => by
        refine first.holdsBelow ok (holds n' (List.mem_cons_of_mem _ hn')) fun k below => ?_
        -- Two entries of one directory have no path below both.
        have e : (p.child n).isPrefixOf (p.child n') = true ∨
            (p.child n').isPrefixOf (p.child n) = true :=
          Path.isPrefixOf_total below (Path.isPrefixOf_append ..)
        have same : n = n' := by
          rcases e with e | e <;> rcases Path.isPrefixOf_child.1 e with e | e
          · exact (Path.child_injective e).2
          · exact absurd e (Path.child_not_isPrefixOf p n)
          · exact (Path.child_injective e).2.symm
          · exact absurd e (Path.child_not_isPrefixOf p n')
        rw [← same] at hn'
        exact distinct.1 hn'
    refine ⟨t₂, ?_, (first.trans others).congr fun q _ => ⟨?_, ?_⟩⟩
    · show
        (deleteEntry levels y.id >>= fun _ => (es.map (·.2)).forM (deleteEntry levels)).runOn t = _
      rw [Action.runOn_bind_ok hr₁]
      exact hr₂
    · rintro (below | ⟨n', hn', below⟩)
      · exact ⟨n, List.mem_cons_self, below⟩
      · exact ⟨n', List.mem_cons_of_mem _ hn', below⟩
    · rintro ⟨n', hn', below⟩
      rcases List.mem_cons.1 hn' with e | hn'
      · have same : n' = n := Segment.ext_text e
        exact .inl (same ▸ below)
      · exact .inr ⟨n', hn', below⟩

end Entries

/-- Deleting below a directory prunes what lies below it. The induction is on the levels: below an
entry there is one level less. -/
theorem runOn_deleteBelow (ok : F.Coherent) (root : F.Rooted) : ∀ levels, DeletesBelow F levels
  | 0, p, x, l, t, hx, hl, shallow, _ => by
    have := shallow .root l ⟨x, by rwa [Path.append_root], hl⟩
    exact absurd this (Nat.not_lt_zero _)
  | levels + 1, p, x, l, t, hx, hl, shallow, holds => by
    have dir : F.HasListing p l := ⟨x, hx, hl⟩
    obtain ⟨t', hr, pruned⟩ :=
      runOn_deleteEntries ok root (runOn_deleteBelow ok root levels) dir shallow
      l.toList (t := t) (fun e he => SortedMap.get?_eq_some_iff.2 he) l.nodup_keys
      fun n _ => holds.child n
    refine ⟨t', ?_, pruned.congr fun q hq => ⟨?_, ?_⟩⟩
    · rw [deleteBelow, runOn_ask_bind, listing_of_holdsBelow holds hx hl]
      exact hr
    · rintro ⟨n, -, below⟩
      obtain ⟨k, rfl⟩ := Path.isPrefixOf_iff.1 below
      exact ⟨_, fun e => Path.child_ne_root .root n (Path.append_eq_root.1 e).1,
        Path.child_append p k n⟩
    · rintro ⟨k, hk, rfl⟩
      -- What is strictly below the directory is at or below one of its entries,
      -- which its listing names.
      obtain ⟨n, k, rfl⟩ := Path.exists_first hk
      rw [← Path.child_append] at hq ⊢
      refine ⟨n, ?_, Path.isPrefixOf_append ..⟩
      have there : F (p.child n) ≠ none := by
        by_cases hk : k = .root
        · rwa [hk, Path.append_root] at hq
        · have dir := (ok.tree root).above (fun e => hq (Slots.space_eq_none_iff.1 e)) hk
          exact fun e => dir.ne_none (Slots.space_none e)
      obtain ⟨y, hy⟩ := Option.ne_none_iff_exists'.1 there
      exact SortedMap.mem_keys_iff.2 ⟨y.id, (ok.listed p l dir n).trans (Slots.key_some hy .inode)⟩

/-! ## There are enough levels -/

/-- Every path at or above an entry has an inode of its own in the store. -/
theorem exists_ids {s : RecordStore} (h : s.Represents F) : ∀ {p : Path}, F p ≠ none →
    ∃ ids : List String, ids.length = p.segments.length + 1 ∧ ids.Nodup ∧
      ∀ id ∈ ids, s.get? id ≠ none ∧
      ∃ q : Path, q.isPrefixOf p = true ∧ F.key q .inode = some id := by
  intro p
  have stored : ∀ {q x}, F q = some x → s.get? x.id ≠ none := fun {q x} hx => by
    have := h.holds q x hx .inode
    rw [show s.get? x.id = _ from this]
    exact Option.some_ne_none _
  induction p using Path.childInduction with
  | atRoot =>
    intro taken
    obtain ⟨x, hx⟩ := Option.ne_none_iff_exists'.1 taken
    refine ⟨[x.id], rfl, List.nodup_cons.2 ⟨List.not_mem_nil, List.nodup_nil⟩, fun id hid => ?_⟩
    cases List.mem_singleton.1 hid
    exact ⟨stored hx, _, Path.isPrefixOf_self _, Slots.key_some hx .inode⟩
  | atChild p n ih =>
    intro taken
    obtain ⟨x, hx⟩ := Option.ne_none_iff_exists'.1 taken
    obtain ⟨l, dir⟩ := h.coherent.held p n taken
    obtain ⟨ids, length, nodup, own⟩ := ih dir.ne_none
    refine ⟨x.id :: ids, ?_, List.nodup_cons.2 ⟨fun hid => ?_, nodup⟩, fun id hid => ?_⟩
    · simp [length]
    · obtain ⟨-, q, above, hq⟩ := own x.id hid
      cases (h.coherent.owned_eq (r := .inode) hx rfl hq).1
      exact Path.child_not_isPrefixOf p n above
    · rcases List.mem_cons.1 hid with rfl | hid
      · exact ⟨stored hx, _, Path.isPrefixOf_self _, Slots.key_some hx .inode⟩
      · obtain ⟨there, q, above, hq⟩ := own id hid
        exact ⟨there, q, Path.isPrefixOf_child.2 (.inr above), hq⟩

/-- A store has more records than a path that leads somewhere has steps. -/
theorem length_lt_size {s : RecordStore} (h : s.Represents F) {p : Path} (taken : F p ≠ none) :
    p.segments.length < s.size := by
  obtain ⟨ids, length, nodup, own⟩ := exists_ids h taken
  have sub : ids ⊆ s.records.keys := fun id hid =>
    SortedMap.mem_keys_iff.2 (Option.ne_none_iff_exists'.1 (own id hid).1)
  have := nodup.length_le_of_subset sub
  rw [SortedMap.keys, List.length_map] at this
  show _ < s.records.toList.length
  omega

theorem shallow_enough {s : RecordStore} (h : s.Represents F) :
    Shallow F .root (enoughLevels s) := by
  intro k l hk
  have := length_lt_size h hk.ne_none
  rw [Path.root_append] at this
  refine Nat.lt_of_lt_of_le this (Nat.le_trans (Nat.le_succ _) ?_)
  exact Nat.le_mul_of_pos_left _ (Nat.succ_pos _)

/-! ## Clearing -/

/-- What is left of a space once everything below the root is gone. -/
def rootOnly (S : Space) : Space := fun p => if p = .root then S p else none

/-- Everything below the root can be deleted, and the records of the root are left. -/
theorem runOn_deleteBelow_root {t : Transaction} (h : t.store.Represents F) {x : Slot} {l : Listing}
    (hx : F .root = some x) (hl : x.body = .directory l) :
    ∃ t₁, (deleteBelow (enoughLevels t.store) x.inode).runOn t = (.ok (), t₁) ∧
      Prunes F (fun q => ∃ k : Path, k ≠ .root ∧ q = .root ++ k) t t₁ ∧
      ∀ r, t₁.store.get? (x.key r) = some (x.record r) := by
  obtain ⟨t₁, hr, pruned⟩ := runOn_deleteBelow h.coherent h.rooted _ hx hl (shallow_enough h)
    (t := t) fun k y hy => h.holds _ y hy
  refine ⟨t₁, hr, pruned, fun r => ?_⟩
  rw [pruned.kept h.coherent hx, h.holds _ x hx]
  rintro ⟨k, hk, e⟩
  exact hk (Path.append_eq_root.1 e.symm).2

/-- Clearing a store leaves the two records of its root, whose listing is empty. -/
theorem clear_root {t : Transaction} (h : t.store.Represents F) :
    ∃ x d t', F .root = some x ∧ x.id = rootKey ∧ x.Relists d ∅ ∧
      clear.runOn t = (.ok (), t') ∧ t.Extends t' ∧ t'.store.Represents (Slots.only d) := by
  obtain ⟨x, l, hx, id, hl⟩ := h.rooted
  have fits := h.coherent.fits _ x hx
  have apart := h.coherent.id_ne_contentId hx
  -- The records of the root are left, so that its listing can be emptied afterwards.
  obtain ⟨t₁, hr₁, pruned, there⟩ := runOn_deleteBelow_root h hx hl
  obtain ⟨d, t₂, hr₂, hd, rewritten⟩ := runOn_writeListing (t := t₁) ∅ fits hl (there .inode) apart
  have inode : t.store.inode rootKey = .ok x.inode := id ▸ h.holds.inode hx
  refine ⟨x, d, t₂, hx, id, hd, ?_, pruned.extended.trans (rewritten.extends fun r => ?_),
    Slots.coherent_only hd.fits ?_ ?_, ⟨d, ∅, Slots.only_root, hd.id.trans id, hd.body⟩, ?_, ?_⟩
  · rw [clear, runOn_ask_bind, inode]
    dsimp only
    rw [Action.runOn_get_bind, Action.runOn_bind_ok hr₁, ← id]
    exact hr₂
  · rw [there]
    exact Option.some_ne_none _
  · rw [hd.id, hd.contentId]
    exact apart
  · intro m hm
    cases hd.body.symm.trans hm
    rfl
  · intro p y hy r
    rw [(Slots.eq_root_of_only hy).2, hd.key]
    exact rewritten.own r
  · intro k hk
    by_cases own : ∃ r, k = x.key r
    · obtain ⟨r, rfl⟩ := own
      exact ⟨.root, r, (Slots.key_some Slots.only_root r).trans (congrArg some (hd.key r))⟩
    · rw [rewritten.other k fun r e => own ⟨r, e⟩] at hk
      -- Whatever is left and is not a record of the root was not stored under a key of the tree.
      have kept : ∀ q r, (∃ j : Path, j ≠ .root ∧ q = .root ++ j) → F.key q r ≠ some k :=
        fun q r gone e => hk (pruned.own q r k gone e)
      rw [pruned.other k kept] at hk
      obtain ⟨q, r, hq⟩ := h.covered k hk
      by_cases hr : q = .root
      · rw [hr, Slots.key_some hx] at hq
        exact absurd ⟨r, (Option.some.inj hq).symm⟩ own
      · exact absurd hq (kept q r ⟨q, hr, rfl⟩)

/-- Clearing a store leaves its root, empty. -/
theorem clear_sound {t : Transaction} (h : t.store.Represents F) :
    ∃ t', clear.runOn t = (.ok (), t') ∧ t.Extends t' ∧
      ∃ F', t'.store.Represents F' ∧ F'.space = rootOnly F.space := by
  obtain ⟨x, d, t', hx, id, hd, hr, extended, h'⟩ := clear_root h
  obtain ⟨x', l, hx', -, hl⟩ := h.rooted
  cases hx.symm.trans hx'
  refine ⟨t', hr, extended, Slots.only d, h', ?_⟩
  funext p
  rw [rootOnly]
  by_cases hp : p = .root
  · rw [hp, if_pos rfl, Slots.space_some Slots.only_root, Slots.space_some hx, hd.entry hl]
  · rw [if_neg hp, Slots.space_none (if_neg hp)]

/-! ## Starting -/

/-- No id is the key of the root. -/
theorem toText_ne_rootKey (u : Uuid) : u.toText ≠ rootKey := fun e => by
  have := Uuid.length_toText u
  rw [e] at this
  exact absurd this (by decide)

/-- The space of a fresh store. -/
def initialSpace : Space := fun p => if p = .root then some (.directory rootPerm) else none

/-- A store that represents slots is left as it is. -/
theorem initialise_represented {t : Transaction} (h : t.store.Represents F) :
    initialise.runOn t = (.ok (), t) := by
  obtain ⟨x, l, hx, id, hl⟩ := h.rooted
  have record : t.store.get? rootKey = some x.inode.encode := id ▸ h.holds _ x hx .inode
  rw [initialise, Action.runOn_get_bind, record]
  simp only [Inode.decode_encode]
  show (if x.inode.isDir = true then _ else _ : StoreAction Unit).runOn t = _
  rw [(h.coherent.fits _ x hx).isDir_of_directory hl]
  rfl

/-- An empty store is given a root, unless it refuses additions. -/
theorem initialise_sound {t : Transaction} (empty : t.store.records = ∅) :
    ∃ t', (initialise.runOn t = (.ok (), t') ∧ (∀ b, t.Fresh b → t'.Fresh b) ∧
        t'.ambient.ids = t.ambient.ids ∧ t.ambient.draws ≤ t'.ambient.draws ∧
        ∃ F, t'.store.Represents F ∧ F.space = initialSpace) ∨
      (∃ e, initialise.runOn t = (.error e, t') ∧ ¬∀ n, t.store.refuses n = false) := by
  have nothing : ∀ k, t.store.get? k = none := fun k => by
    rw [RecordStore.get?, empty]
    rfl
  rw [initialise, Action.runOn_get_bind, nothing]
  dsimp only
  -- Nothing is stored yet, so no id is taken; only the store itself can refuse one.
  obtain ⟨t₁, ⟨c, hr, content⟩ | ⟨e, hr, -, -, refused⟩⟩ := runOn_addNew (Listing.encode ∅) t
  case inr =>
    rw [Action.runOn_bind_error hr]
    exact ⟨t₁, .inr ⟨e, rfl, fun accepts =>
      refused (RecordStore.accepts_of_free accepts (nothing _))⟩⟩
  rw [Action.runOn_bind_ok hr, runOn_now_bind]
  obtain ⟨u, rfl⟩ := content.drawn
  obtain ⟨i, hi, hc, -, kind, perm, tagged⟩ :=
    Inode.make_ok (Uuid.isAscii_toText u) 0 0 0 .directory rootPerm
    t₁.ambient.now.toMillis t₁.ambient.now.toMillis t₁.ambient.now.toMillis
  have made : (Inode.stamped u.toText 0 (FileKind.directory.mode rootPerm).toUInt16
      t₁.ambient.now).mapError FsError.ofInode = .ok i := by
    show (Inode.stamped u.toText 0 _ t₁.ambient.now).mapError FsError.ofInode = _
    rw [show Inode.stamped u.toText 0 _ t₁.ambient.now = _ from hi]
    rfl
  rw [made, Action.runOn_ofExcept_bind]
  dsimp only
  rw [runOn_overwrite]
  let x : Slot := ⟨rootKey, i, .directory ∅⟩
  have apart : x.id ≠ x.inode.contentId := fun e => toText_ne_rootKey u (hc ▸ Eq.symm e)
  -- Two records are stored now: the inode of the root, and its listing under the id that was drawn.
  have get : ∀ k, (t₁.store.overwrite rootKey i.encode).get? k =
      if k = rootKey then some i.encode
      else if k = u.toText then some (Listing.encode ∅) else none :=
    fun k => by rw [RecordStore.get?_overwrite, content.get?, nothing]
  refine ⟨_, .inl ⟨rfl, fun b fresh => ?_, content.extended.ids, content.extended.draws,
    Slots.only x, ⟨Slots.coherent_only ⟨kind, tagged, ?_⟩ apart ?_,
      ⟨x, ∅, Slots.only_root, rfl, rfl⟩, ?_, ?_⟩, ?_⟩⟩
  · have fresh₁ := fresh.extends content.extended
    refine ⟨fresh₁.accepts, fresh₁.distinct, fun n hn bounded => ?_⟩
    refine (RecordStore.get?_overwrite ..).trans ((if_neg (toText_ne_rootKey _)).trans ?_)
    exact fresh₁.unused n hn bounded
  · exact fun data h => by cases h
  · intro l hl
    cases hl
    rfl
  · intro p y hy r
    rw [(Slots.eq_root_of_only hy).2]
    cases r with
    | inode => exact (get _).trans (if_pos rfl)
    | content =>
      have key : i.contentId = u.toText := hc
      refine (get _).trans ((if_neg (Ne.symm apart)).trans ?_)
      exact if_pos key
  · intro k hk
    rw [get] at hk
    split at hk
    next e => exact ⟨.root, .inode, e ▸ Slots.key_some Slots.only_root .inode⟩
    next =>
      split at hk
      next e =>
        refine ⟨.root, .content, (Slots.key_some Slots.only_root .content).trans ?_⟩
        rw [e, ← hc]
        rfl
      next => exact absurd rfl hk
  · funext p
    rw [initialSpace]
    by_cases hp : p = .root
    · rw [hp, if_pos rfl, Slots.space_some Slots.only_root, Slot.entry_directory (x := x) rfl, perm]
      rfl
    · rw [if_neg hp, Slots.space_none (if_neg hp)]

end MountSpace.RecordTree
