import MountSpace.Proofs.Reachable
import MountSpace.Proofs.Session

/-!
# What a store of records holds

Seen from its records alone, a store that is in order is a tree of inodes. Nothing is
missing that can be reached from the root, nothing is named twice, no content is shared, and
nothing else is stored.

- `RecordStore.HasEntry`, `RecordStore.Reaches`: the graph of inodes, read from the records.
- `RecordStore.Intact`: what is said of it.
- `Represents.intact`: a store that represents slots is intact.
- `System.Reachable.store_intact`: so is every store of a system, whatever has been done with it.
-/

namespace MountSpace

namespace RecordStore

/-- A directory names an id in its listing. -/
def HasEntry (s : RecordStore) (directory name id : String) : Prop :=
  ∃ i l, s.inode directory = .ok i ∧ i.isDir = true ∧ s.listing i = .ok l ∧ l.get? name = some id

/-- The ids of inodes that the listings lead to from the root. -/
inductive Reaches (s : RecordStore) : String → Prop
  | root : s.Reaches rootKey
  | entry {directory name id : String} (reached : s.Reaches directory)
      (entry : s.HasEntry directory name id) : s.Reaches id

/-- The inodes form a tree whose records are all there and are all that is there. -/
structure Intact (s : RecordStore) : Prop where
  /-- The record of the root is the inode of a directory. -/
  root : ∃ i, s.inode rootKey = .ok i ∧ i.isDir = true
  /-- Every id that is reached has an inode, whose content is there. -/
  inode : ∀ id, s.Reaches id → ∃ i bytes, s.inode id = .ok i ∧ s.content i = .ok bytes
  /-- The content of a directory is a listing. -/
  listing : ∀ id i, s.Reaches id → s.inode id = .ok i → i.isDir = true → ∃ l, s.listing i = .ok l
  /-- No listing names the root. -/
  top : ∀ directory name, s.Reaches directory → ¬s.HasEntry directory name rootKey
  /-- Every other id is named by some directory. -/
  named : ∀ id, s.Reaches id → id ≠ rootKey →
    ∃ directory name, s.Reaches directory ∧ s.HasEntry directory name id
  /-- No id is named twice. -/
  once : ∀ directory directory' name name' id, s.Reaches directory → s.Reaches directory' →
    s.HasEntry directory name id → s.HasEntry directory' name' id →
    directory = directory' ∧ name = name'
  /-- No two inodes share a content. -/
  owned : ∀ id id' i i', s.Reaches id → s.Reaches id' → s.inode id = .ok i → s.inode id' = .ok i' →
    i.contentId = i'.contentId → id = id'
  /-- No content is an inode. -/
  apart : ∀ id id' i, s.Reaches id → s.Reaches id' → s.inode id = .ok i → i.contentId ≠ id'
  /-- Every record is an inode that is reached or the content of one. -/
  covered : ∀ key, s.get? key ≠ none →
    s.Reaches key ∨ ∃ id i, s.Reaches id ∧ s.inode id = .ok i ∧ i.contentId = key

namespace Represents

variable {s : RecordStore} {F : Slots} (h : s.Represents F)
include h

/-- The entries of a directory are the slots below it. -/
theorem hasEntry {p : Path} {x : Slot} (hx : F p = some x) {name id : String}
    (entry : s.HasEntry x.id name id) :
    ∃ (n : Segment) (y : Slot), n.text = name ∧ F (p.child n) = some y ∧ y.id = id := by
  obtain ⟨i, l, hi, dir, hl, listed⟩ := entry
  cases (h.holds.inode hx).symm.trans hi
  cases hb : x.body with
  | file data =>
    rw [(h.coherent.fits p x hx).isDir_of_file hb] at dir
    cases dir
  | directory l' =>
    cases (h.holds.listing hx hb).symm.trans hl
    -- A name in a listing is the name of a step, so that there is a path for the entry.
    have segment := h.coherent.named p l ⟨x, hx, hb⟩ name (by rw [listed]; nofun)
    have key := h.coherent.listed p l ⟨x, hx, hb⟩ ⟨name, segment⟩
    rw [listed] at key
    obtain ⟨y, hy, e⟩ := Option.map_eq_some_iff.1 key.symm
    exact ⟨⟨name, segment⟩, y, rfl, hy, e⟩

/-- The slots below a directory are entries of it. -/
theorem entry_child {p : Path} {n : Segment} {y : Slot} (hy : F (p.child n) = some y) :
    ∃ x, F p = some x ∧ s.HasEntry x.id n.text y.id := by
  obtain ⟨l, x, hx, hl⟩ := h.coherent.held p n (by rw [hy]; nofun)
  refine ⟨x, hx, x.inode, l, h.holds.inode hx, (h.coherent.fits p x hx).isDir_of_directory hl,
    h.holds.listing hx hl, ?_⟩
  rw [h.coherent.listed p l ⟨x, hx, hl⟩ n]
  exact Slots.key_some hy .inode

/-- What is reached are the ids of the slots. -/
theorem reaches_iff {id : String} : s.Reaches id ↔ ∃ p x, F p = some x ∧ x.id = id := by
  constructor
  · intro reached
    -- Each entry on the way from the root leads one step down the tree of slots.
    induction reached with
    | root =>
      obtain ⟨x, l, hx, key, -⟩ := h.rooted
      exact ⟨.root, x, hx, key⟩
    | entry _ entry ih =>
      obtain ⟨p, x, hx, rfl⟩ := ih
      obtain ⟨n, y, -, hy, e⟩ := h.hasEntry hx entry
      exact ⟨p.child n, y, hy, e⟩
  · rintro ⟨p, x, hx, rfl⟩
    -- A slot is reached by way of the directory above it, which holds an entry for it.
    induction p using Path.childInduction generalizing x with
    | atRoot =>
      obtain ⟨x', l, hx', key, -⟩ := h.rooted
      cases hx'.symm.trans hx
      exact key ▸ .root
    | atChild p n ih =>
      obtain ⟨y, hy, entry⟩ := h.entry_child hx
      exact .entry (ih y hy) entry

/-- A slot is known by the key of one of its records. -/
theorem slot_unique {p q : Path} {x y : Slot} (hx : F p = some x) (hy : F q = some y) {r : Role}
    (e : x.key r = y.key r) : p = q ∧ x = y := by
  have same := (h.coherent.owned (Slots.key_some hx r) (e ▸ Slots.key_some hy r)).1
  subst same
  exact ⟨rfl, Option.some.inj (hx.symm.trans hy)⟩

theorem intact : s.Intact where
  root := by
    obtain ⟨x, l, hx, key, hl⟩ := h.rooted
    exact ⟨x.inode, key ▸ h.holds.inode hx, (h.coherent.fits _ x hx).isDir_of_directory hl⟩
  inode := fun id reached => by
    obtain ⟨p, x, hx, rfl⟩ := h.reaches_iff.1 reached
    exact ⟨x.inode, x.body.bytes, h.holds.inode hx, h.holds.content hx⟩
  listing := fun id i reached hi dir => by
    obtain ⟨p, x, hx, rfl⟩ := h.reaches_iff.1 reached
    cases (h.holds.inode hx).symm.trans hi
    cases hb : x.body with
    | file data =>
      rw [(h.coherent.fits p x hx).isDir_of_file hb] at dir
      cases dir
    | directory l => exact ⟨l, h.holds.listing hx hb⟩
  top := fun directory name reached entry => by
    obtain ⟨p, x, hx, rfl⟩ := h.reaches_iff.1 reached
    obtain ⟨n, y, -, hy, e⟩ := h.hasEntry hx entry
    obtain ⟨z, l, hz, key, -⟩ := h.rooted
    exact Path.child_ne_root p n (h.slot_unique hy hz (r := .inode) (e.trans key.symm)).1
  named := fun id reached ne => by
    cases reached with
    | root => exact absurd rfl ne
    | entry reached entry => exact ⟨_, _, reached, entry⟩
  once := fun directory directory' name name' id reached reached' entry entry' => by
    obtain ⟨p, x, hx, rfl⟩ := h.reaches_iff.1 reached
    obtain ⟨q, y, hy, rfl⟩ := h.reaches_iff.1 reached'
    obtain ⟨n, z, rfl, hz, e⟩ := h.hasEntry hx entry
    obtain ⟨n', z', rfl, hz', e'⟩ := h.hasEntry hy entry'
    obtain ⟨rfl, rfl⟩ := Path.child_inj.1 (h.slot_unique hz hz' (r := .inode) (e.trans e'.symm)).1
    cases hx.symm.trans hy
    exact ⟨rfl, rfl⟩
  owned := fun id id' i i' reached reached' hi hi' same => by
    obtain ⟨p, x, hx, rfl⟩ := h.reaches_iff.1 reached
    obtain ⟨q, y, hy, rfl⟩ := h.reaches_iff.1 reached'
    cases (h.holds.inode hx).symm.trans hi
    cases (h.holds.inode hy).symm.trans hi'
    rw [(h.slot_unique hx hy (r := .content) same).2]
  apart := fun id id' i reached reached' hi same => by
    obtain ⟨p, x, hx, rfl⟩ := h.reaches_iff.1 reached
    obtain ⟨q, y, hy, rfl⟩ := h.reaches_iff.1 reached'
    cases (h.holds.inode hx).symm.trans hi
    have key : F.key p .content = some y.id := same ▸ Slots.key_some hx .content
    exact nomatch (h.coherent.owned key (Slots.key_some hy .inode)).2
  covered := fun key there => by
    obtain ⟨p, r, hr⟩ := h.covered key there
    obtain ⟨x, hx, rfl⟩ := Option.map_eq_some_iff.1 hr
    have reached : s.Reaches x.id := h.reaches_iff.2 ⟨p, x, hx, rfl⟩
    cases r with
    | inode => exact .inl reached
    | content => exact .inr ⟨x.id, x.inode, reached, h.holds.inode hx, rfl⟩

end Represents

end RecordStore

/-- **Integrity**: whatever has been done with a system, and however often it failed or an addition
was refused, every store of records that was empty to begin with is intact. -/
theorem System.Reachable.store_intact {s : System} (reachable : s.Reachable) {b : BackendId}
    {store : Nat} {readOnly : Bool} (there : s.backends[b]? = some (.keyValue store readOnly)) :
    (s.volumes.stores store).Intact := by
  obtain ⟨F, h⟩ : s.volumes.SoundAt (.store store) :=
    reachable.inOrder.volumes.sound b _ _ there rfl
  exact h.intact

/-- A store that refuses its third addition, after a directory could not be made in
it for that reason. -/
theorem System.Reachable.store_intact_after_refusal :
    ∃ s, (System.empty .counting).addKeyValue ⟨∅, fun n => n = 3, 0, []⟩ false = .ok s ∧
      (s.mkdir 0 (.ofText "/d") 0o755).1.isOk = false ∧
      ((s.mkdir 0 (.ofText "/d") 0o755).2.volumes.stores 0).Intact := by
  have made : ((System.empty .counting).addKeyValue ⟨∅, fun n => n = 3, 0, []⟩ false).toOption.map
      (fun s => (s.mkdir 0 (.ofText "/d") 0o755).1.isOk) = some false := by decide +kernel
  cases hs : (System.empty .counting).addKeyValue ⟨∅, fun n => n = 3, 0, []⟩ false with
  | error e =>
    rw [hs] at made
    cases made
  | ok s =>
    rw [hs] at made
    have there : s.backends[0]? = some (.keyValue 0 false) := by
      obtain ⟨t, F, made', -⟩ | ⟨e, failed, -⟩ := (System.empty .counting).addKeyValue_cases
        ⟨∅, fun n => n = 3, 0, []⟩ rfl false
      · cases hs.symm.trans made'
        rfl
      · cases hs.symm.trans failed
    have reachable : (s.mkdir 0 (.ofText "/d") 0o755).2.Reachable :=
      .step (.step (.empty .counting) (.addKeyValue rfl hs)) (.mkdir s 0 (.ofText "/d") 0o755)
    exact ⟨s, rfl, Option.some.inj made, reachable.store_intact there⟩

end MountSpace
