import Mathlib.Data.Finset.Card
import Mathlib.Data.Finset.Prod
import Mathlib.Logic.Relation
import MountSpace.Proofs.AnyRecords
import MountSpace.Proofs.Failures

/-!
# Deleting below directories, whatever is stored

`deleteBelow` goes down a number of levels and follows the ids that it finds in the store. In a
store that is in order these form a tree. Here nothing is assumed of the store: ids may dangle,
records may be malformed and listings may lead back to where they are.

- `RecordStore.Lists`, `FirstEntry`, `Fails`: what is read on the way down.
- `keeps_deleteEntry`: deleting takes records away and does nothing else.
- `deleteEntry_error_iff`: how deleting one entry fails.
- `Action.Outlasts`, `outlasts_deleteEntry`: what comes to an end does not depend
  on the number of levels.
- `Visit.Descends`: the deletion of a directory comes to that of one of its entries.
- `Visit.mark`, `exists_same_mark`: a way down that is long enough repeats itself.
- `Visit.endless_iff_circle`: a deletion has no end exactly if it comes to a directory whose first
  entries lead back to it, and `enoughLevels` are enough to tell.
- `deleteEntry_stuck`, `exists_stuck`: a deletion fails before it has deleted anything exactly if
  the first entries lead to a record that cannot be read.
-/

namespace MountSpace

/-! ## What is read on the way down -/

namespace RecordStore

variable {s s' : RecordStore}

/-- The id is that of a directory that has a listing. -/
def Lists (s : RecordStore) (directory : String) (l : Listing) : Prop :=
  ∃ i, s.inode directory = .ok i ∧ i.isDir = true ∧ s.listing i = .ok l

/-- The first entry of a directory, in the order of the names, is for an id. -/
def FirstEntry (s : RecordStore) (directory id : String) : Prop :=
  ∃ l, s.Lists directory l ∧ l.values.head? = some id

/-- The inode under the id cannot be read, or it is that of a directory whose listing cannot. -/
def Fails (s : RecordStore) (id : String) (e : FsError) : Prop :=
  s.inode id = .error e ∨ ∃ i, s.inode id = .ok i ∧ i.isDir = true ∧ s.listing i = .error e

/-- A directory names an id under some name. -/
def Names (s : RecordStore) (directory id : String) : Prop := ∃ name, s.HasEntry directory name id

theorem Lists.isDirectory {d : String} {l : Listing} (h : s.Lists d l) : s.IsDirectory d := by
  obtain ⟨i, hi, dir, -⟩ := h
  exact ⟨i, hi, dir⟩

theorem Lists.names {d id : String} {l : Listing} (h : s.Lists d l) (mem : id ∈ l.values) :
    s.Names d id := by
  obtain ⟨i, hi, dir, hl⟩ := h
  obtain ⟨name, hn⟩ := SortedMap.mem_values_iff.1 mem
  exact ⟨name, i, l, hi, dir, hl, hn⟩

theorem FirstEntry.names {d id : String} (h : s.FirstEntry d id) : s.Names d id := by
  obtain ⟨l, lists, first⟩ := h
  exact lists.names (List.mem_of_head? first)

theorem IsDirectory.get? {id : String} (h : s.IsDirectory id) : s.get? id ≠ none := fun gone => by
  obtain ⟨i, hi, -⟩ := h
  rw [inode, gone] at hi
  cases hi

theorem PartOf.names (h : s'.PartOf s) {d id : String} (entry : s'.Names d id) : s.Names d id := by
  obtain ⟨name, i, l, hi, dir, hl, hn⟩ := entry
  exact ⟨name, i, l, h.inode hi, dir, h.listing hl, hn⟩

/-- What cannot be read is malformed or missing, and that is soon found out. -/
theorem Fails.ne_endless {id : String} {e : FsError} (h : s.Fails id e) : e ≠ .endless := by
  rintro rfl
  rcases h with hi | ⟨i, -, -, hl⟩
  · rw [inode] at hi
    cases hk : s.get? id with
    | none =>
      rw [hk] at hi
      cases hi
    | some bytes =>
      rw [hk] at hi
      dsimp only at hi
      cases hd : Inode.decode bytes <;> rw [hd] at hi <;> cases hi
  · rw [listing, content] at hl
    cases hk : s.get? i.contentId with
    | none =>
      rw [hk] at hl
      cases hl
    | some bytes =>
      rw [hk] at hl
      simp only [Except.ok_bind] at hl
      cases hd : Listing.decode bytes <;> rw [hd] at hl <;> cases hl

end RecordStore

/-! ## Actions that are given more levels -/

namespace Action

variable {σ α β : Type}

/-- Wherever one action comes to an end, another does the same. -/
def Outlasts (y x : Action σ α) : Prop :=
  ∀ s, (x.runOn s).1 = .error .endless ∨ y.runOn s = x.runOn s

namespace Outlasts

theorem refl (x : Action σ α) : Outlasts x x := fun _ => .inr rfl

theorem trans {x y z : Action σ α} (h : Outlasts z y) (h' : Outlasts y x) : Outlasts z x := by
  intro s
  rcases h' s with endless | same
  · exact .inl endless
  · rcases h s with endless | same'
    · exact .inl (same ▸ endless)
    · exact .inr (same'.trans same)

theorem bind {x y : Action σ α} {f g : α → Action σ β} (h : Outlasts y x)
    (rest : ∀ a, Outlasts (g a) (f a)) : Outlasts (y >>= g) (x >>= f) := by
  intro s
  rw [runOn_bind, runOn_bind]
  rcases h s with endless | same
  · rcases hx : x.runOn s with ⟨e | a, s'⟩ <;> rw [hx] at endless <;> cases endless
    exact .inl rfl
  · rw [same]
    rcases x.runOn s with ⟨e | a, s'⟩
    · exact .inr rfl
    · exact rest a s'

theorem forM {f g : α → Action σ PUnit} (h : ∀ a, Outlasts (g a) (f a)) :
    ∀ l : List α, Outlasts (l.forM g) (l.forM f)
  | [] => refl _
  | a :: l => (h a).bind fun _ => forM h l

/-- An end that has been reached is that of the action that outlasts. -/
theorem runOn_eq {x y : Action σ α} (h : Outlasts y x) {s : σ}
    (ends : (x.runOn s).1 ≠ .error .endless) : y.runOn s = x.runOn s := (h s).resolve_left ends

end Outlasts

end Action

namespace RecordTree

open StoreAction RecordStore

variable {t t' : Transaction} {d id : String} {i : Inode} {e : FsError} {levels : Nat}

/-! ## Deleting one entry -/

/-- Deleting below a directory deletes its entries one after the other. -/
theorem deleteBelow_succ (levels : Nat) (i : Inode) : deleteBelow (levels + 1) i =
    ask (·.listing i) >>= fun l => l.values.forM (deleteEntry levels) := rfl

theorem runOn_deleteEntry_unreadable (hi : t.store.inode id = .error e) :
    (deleteEntry levels id).runOn t = (.error e, t) := by
  rw [deleteEntry, runOn_ask_bind, hi]

theorem runOn_deleteEntry_file (hi : t.store.inode id = .ok i) (file : ¬i.isDir = true) :
    (deleteEntry levels id).runOn t = (deleteBoth id i).runOn t := by
  rw [deleteEntry, runOn_ask_bind, hi]
  dsimp only
  rw [if_neg file]

theorem runOn_deleteEntry_directory (hi : t.store.inode id = .ok i) (dir : i.isDir = true) :
    (deleteEntry levels id).runOn t =
    (deleteBelow levels i >>= fun _ => deleteBoth id i).runOn t := by
  rw [deleteEntry, runOn_ask_bind, hi]
  dsimp only
  rw [if_pos dir]

/-- With no level left, deleting an entry fails if it cannot be read or is a directory. -/
theorem deleteEntry_zero_error_iff : (deleteEntry 0 id).runOn t = (.error e, t') ↔
    t' = t ∧ (t.store.inode id = .error e ∨ t.store.IsDirectory id ∧ e = .endless) := by
  constructor
  · intro failed
    cases hi : t.store.inode id with
    | error e' =>
      cases (runOn_deleteEntry_unreadable hi).symm.trans failed
      exact ⟨rfl, .inl rfl⟩
    | ok i =>
      by_cases dir : i.isDir = true
      · rw [runOn_deleteEntry_directory hi dir, deleteBelow, Action.runOn_throw_bind] at failed
        cases failed
        exact ⟨rfl, .inr ⟨⟨i, hi, dir⟩, rfl⟩⟩
      · cases (runOn_deleteEntry_file hi dir).symm.trans failed
  · rintro ⟨rfl, hi | ⟨⟨i, hi, dir⟩, rfl⟩⟩
    · exact runOn_deleteEntry_unreadable hi
    · rw [runOn_deleteEntry_directory hi dir, deleteBelow, Action.runOn_throw_bind]

/-- Deleting an entry fails if it cannot be read, or as deleting the entries below it fails. -/
theorem deleteEntry_error_iff : (deleteEntry (levels + 1) id).runOn t = (.error e, t') ↔
    t' = t ∧ t.store.Fails id e ∨
    ∃ l, t.store.Lists id l ∧ (l.values.forM (deleteEntry levels)).runOn t = (.error e, t') := by
  -- Taking away the records of a directory itself, once it is empty, cannot fail.
  have below : ∀ {i : Inode}, t.store.inode id = .ok i → i.isDir = true →
      ((deleteEntry (levels + 1) id).runOn t = (.error e, t') ↔
        (deleteBelow (levels + 1) i).runOn t = (.error e, t')) := fun hi dir => by
    rw [runOn_deleteEntry_directory hi dir, runOn_bind_error_iff fun _ => succeeds_deleteBoth id _]
  constructor
  · intro failed
    cases hi : t.store.inode id with
    | error e' =>
      cases (runOn_deleteEntry_unreadable hi).symm.trans failed
      exact .inl ⟨rfl, .inl hi⟩
    | ok i =>
      by_cases dir : i.isDir = true
      · rw [below hi dir, deleteBelow_succ, runOn_ask_bind] at failed
        cases hl : t.store.listing i with
        | error e' =>
          rw [hl] at failed
          cases failed
          exact .inl ⟨rfl, .inr ⟨i, hi, dir, hl⟩⟩
        | ok l =>
          rw [hl] at failed
          exact .inr ⟨l, ⟨i, hi, dir, hl⟩, failed⟩
      · cases (runOn_deleteEntry_file hi dir).symm.trans failed
  · rintro (⟨rfl, hi | ⟨i, hi, dir, hl⟩⟩ | ⟨l, ⟨i, hi, dir, hl⟩, failed⟩)
    · exact runOn_deleteEntry_unreadable hi
    · rw [below hi dir, deleteBelow_succ, runOn_ask_bind, hl]
    · rw [below hi dir, deleteBelow_succ, runOn_ask_bind, hl]
      exact failed

/-! ## Deleting only takes away -/

theorem keeps_ask {P : Transaction → Prop} {α : Type} (inquiry : RecordStore → Except FsError α) :
    Action.Keeps P (ask inquiry) := Action.keeps_get_bind fun _ _ => Action.keeps_ofExcept _

theorem keeps_deleteBoth (s : RecordStore) (id : String) (i : Inode) :
    Action.Keeps (fun t => t.store.PartOf s) (deleteBoth id i) := by
  intro t h
  have content := PartOf.delete t.store i.contentId
  exact ((PartOf.delete (t.store.delete i.contentId) id).trans content).trans h

/-- An entry is deleted by taking away what is below it and then its own records. -/
theorem keeps_deleteEntry_of {s : RecordStore}
    (below : ∀ i, Action.Keeps (fun t => t.store.PartOf s) (deleteBelow levels i)) (id : String) :
    Action.Keeps (fun t => t.store.PartOf s) (deleteEntry levels id) := by
  refine (keeps_ask _).bind fun child => ?_
  split
  · exact (below child).bind fun _ => keeps_deleteBoth s id child
  · exact keeps_deleteBoth s id child

theorem keeps_deleteBelow (s : RecordStore) : ∀ levels i,
    Action.Keeps (fun t => t.store.PartOf s) (deleteBelow levels i)
  | 0, _ => Action.keeps_throw _
  | levels + 1, _ => (keeps_ask _).bind fun _ => Action.keeps_forM _ fun id _ =>
      keeps_deleteEntry_of (keeps_deleteBelow s levels) id

/-- Deleting an entry takes records away, and does nothing else to them. -/
theorem keeps_deleteEntry (s : RecordStore) (levels : Nat) (id : String) :
    Action.Keeps (fun t => t.store.PartOf s) (deleteEntry levels id) :=
  keeps_deleteEntry_of (keeps_deleteBelow s levels) id

theorem keeps_deleteEntries (s : RecordStore) (levels : Nat) (ids : List String) :
    Action.Keeps (fun t => t.store.PartOf s) (ids.forM (deleteEntry levels)) :=
  Action.keeps_forM ids fun id _ => keeps_deleteEntry s levels id

theorem partOf_of_deleteEntries {ids : List String} {r : Except FsError Unit}
    (hr : (ids.forM (deleteEntry levels)).runOn t = (r, t')) : t'.store.PartOf t.store := by
  have := keeps_deleteEntries t.store levels ids t (.refl _)
  rwa [hr] at this

theorem partOf_of_deleteEntry {r : Except FsError Unit}
    (hr : (deleteEntry levels id).runOn t = (r, t')) :
    t'.store.PartOf t.store := by
  have := keeps_deleteEntry t.store levels id t (.refl _)
  rwa [hr] at this

/-- An entry that has been deleted was there before, and is not there any more. -/
theorem gone_of_deleteEntry (ok : (deleteEntry levels id).runOn t = (.ok (), t')) :
    t.store.get? id ≠ none ∧ t'.store.get? id = none := by
  have own : ∀ {i t}, (deleteBoth id i).runOn t = (.ok (), t') → t'.store.get? id = none := by
    rintro i t hr
    cases hr
    exact (RecordStore.get?_delete ..).trans (if_pos rfl)
  cases hi : t.store.inode id with
  | error e => cases (runOn_deleteEntry_unreadable hi).symm.trans ok
  | ok i =>
    refine ⟨fun missing => ?_, ?_⟩
    · rw [RecordStore.inode, missing] at hi
      cases hi
    · by_cases dir : i.isDir = true
      · rw [runOn_deleteEntry_directory hi dir, Action.runOn_bind] at ok
        rcases hr : (deleteBelow levels i).runOn t with ⟨e | ⟨⟩, t₁⟩
        · rw [hr] at ok
          cases ok
        · rw [hr] at ok
          exact own ok
      · exact own ((runOn_deleteEntry_file hi dir).symm.trans ok)

/-- If some entries have been deleted and no record is missing, there were none. -/
theorem deleteEntries_nothing {ids : List String}
    (ok : (ids.forM (deleteEntry levels)).runOn t = (.ok (), t'))
    (same : t'.store.records = t.store.records) : ids = [] ∧ t' = t := by
  cases ids with
  | nil =>
    cases ok
    exact ⟨rfl, rfl⟩
  | cons id ids =>
    change (deleteEntry levels id >>= fun _ => ids.forM (deleteEntry levels)).runOn t = _ at ok
    rw [Action.runOn_bind] at ok
    rcases hr : (deleteEntry levels id).runOn t with ⟨e | ⟨⟩, t₁⟩
    · rw [hr] at ok
      cases ok
    · rw [hr] at ok
      -- The first of them is gone, and does not come back.
      obtain ⟨there, gone⟩ := gone_of_deleteEntry hr
      have missing : t'.store.get? id = none :=
          Option.eq_none_iff_forall_not_mem.2 fun bytes hb => by
        cases (partOf_of_deleteEntries ok id bytes hb).symm.trans gone
      rw [RecordStore.get?, same] at missing
      exact absurd missing there

/-! ## What comes to an end does not depend on the levels -/

theorem outlasts_deleteEntry_of {more : Nat}
    (below : ∀ i, Action.Outlasts (deleteBelow more i) (deleteBelow levels i)) (id : String) :
    Action.Outlasts (deleteEntry more id) (deleteEntry levels id) := by
  refine (Action.Outlasts.refl _).bind fun child => ?_
  split
  · exact (below child).bind fun _ => .refl _
  · exact .refl _

theorem outlasts_deleteBelow :
    ∀ levels i, Action.Outlasts (deleteBelow (levels + 1) i) (deleteBelow levels i)
  | 0, _ => fun _ => .inl rfl
  | levels + 1, _ => (Action.Outlasts.refl _).bind fun _ =>
      Action.Outlasts.forM (outlasts_deleteEntry_of (outlasts_deleteBelow levels)) _

theorem outlasts_deleteEntry (id : String) {more : Nat} (le : levels ≤ more) :
    Action.Outlasts (deleteEntry more id) (deleteEntry levels id) := by
  induction le with
  | refl => exact .refl _
  | step _ ih => exact (outlasts_deleteEntry_of (outlasts_deleteBelow _) id).trans ih

/-- Deleting some entries comes to the same on other levels, unless it does not
come to an end there. -/
theorem deleteEntries_levels {ids : List String}
    (ok : (ids.forM (deleteEntry levels)).runOn t = (.ok (), t')) (other : Nat) :
    (ids.forM (deleteEntry other)).runOn t = (.ok (), t') ∨
      ∃ t'', (ids.forM (deleteEntry other)).runOn t = (.error .endless, t'') := by
  rcases Nat.le_total levels other with le | le
  · have outlasts := Action.Outlasts.forM (fun id => outlasts_deleteEntry id le) ids
    exact .inl ((outlasts.runOn_eq (by rw [ok]; nofun)).trans ok)
  · rcases Action.Outlasts.forM (fun id => outlasts_deleteEntry id le) ids t with endless | same
    · exact .inr ⟨_, Prod.ext endless rfl⟩
    · exact .inl (same.symm.trans ok)

end RecordTree

/-! ## Ways down that have no end -/

/-- A point of a deletion: the id that is about to be deleted, and what is stored by then. -/
structure Visit where
  transaction : Transaction
  id : String

namespace Visit

open StoreAction RecordStore RecordTree Relation

variable {v w : Visit} {levels : Nat}

/-- What is stored by then. -/
abbrev store (v : Visit) : RecordStore := v.transaction.store

/-- The deletion is not over after a number of levels. -/
def Endless (levels : Nat) (v : Visit) : Prop :=
  ((deleteEntry levels v.id).runOn v.transaction).1 = .error .endless

/-- The deletion of a directory comes to one of its entries: those before it have been deleted. -/
def Descends (v w : Visit) : Prop :=
  ∃ l before after levels, v.store.Lists v.id l ∧ l.values = before ++ w.id :: after ∧
    (before.forM (deleteEntry levels)).runOn v.transaction = (.ok (), w.transaction)

theorem endless_iff : v.Endless levels ↔
    ∃ t, (deleteEntry levels v.id).runOn v.transaction = (.error .endless, t) :=
  ⟨fun h => ⟨_, Prod.ext h rfl⟩, fun ⟨_, h⟩ => congrArg Prod.fst h⟩

theorem endless_zero_iff : v.Endless 0 ↔ v.store.IsDirectory v.id := by
  rw [endless_iff]
  constructor
  · rintro ⟨t, failed⟩
    obtain ⟨-, hi | ⟨dir, -⟩⟩ := deleteEntry_zero_error_iff.1 failed
    · exact absurd rfl (Fails.ne_endless (.inl hi))
    · exact dir
  · exact fun dir => ⟨_, deleteEntry_zero_error_iff.2 ⟨rfl, .inr ⟨dir, rfl⟩⟩⟩

/-- A deletion is not over after a number of levels if that of an entry is not
after one level less. -/
theorem endless_succ_iff : v.Endless (levels + 1) ↔ ∃ w, v.Descends w ∧ w.Endless levels := by
  simp only [endless_iff]
  constructor
  · rintro ⟨t, failed⟩
    rcases deleteEntry_error_iff.1 failed with ⟨-, fails⟩ | ⟨l, lists, failed⟩
    · exact absurd rfl fails.ne_endless
    · obtain ⟨before, id, after, t₁, hl, ok, failed⟩ := Action.runOn_forM_error_iff.1 failed
      exact ⟨⟨t₁, id⟩, ⟨l, before, after, levels, lists, hl, ok⟩, t, failed⟩
  · rintro ⟨w, ⟨l, before, after, levels', lists, hl, ok⟩, t, failed⟩
    suffices ∃ t, (l.values.forM (deleteEntry levels)).runOn v.transaction = (.error .endless, t) by
      obtain ⟨t, failed⟩ := this
      exact ⟨t, deleteEntry_error_iff.2 (.inr ⟨l, lists, failed⟩)⟩
    -- The entries before may need more levels; then there is no end to them either.
    rcases deleteEntries_levels ok levels with ok | ⟨t', failed'⟩
    · exact ⟨t, Action.runOn_forM_error_iff.2 ⟨before, w.id, after, w.transaction, hl, ok, failed⟩⟩
    · obtain ⟨first, id, rest, t₁, rfl, ok, failed'⟩ := Action.runOn_forM_error_iff.1 failed'
      refine ⟨t', Action.runOn_forM_error_iff.2
        ⟨first, id, rest ++ w.id :: after, t₁, ?_, ok, failed'⟩⟩
      rw [hl, List.append_assoc, List.cons_append]

namespace Descends

theorem partOf (h : v.Descends w) : w.store.PartOf v.store := by
  obtain ⟨l, before, after, levels, -, -, ok⟩ := h
  exact partOf_of_deleteEntries ok

theorem isDirectory (h : v.Descends w) : v.store.IsDirectory v.id := by
  obtain ⟨l, before, after, levels, lists, -, -⟩ := h
  exact lists.isDirectory

theorem names (h : v.Descends w) : v.store.Names v.id w.id := by
  obtain ⟨l, before, after, levels, lists, hl, -⟩ := h
  exact lists.names (by rw [hl]; exact List.mem_append_right _ List.mem_cons_self)

/-- If no record has gone on the way down, the way goes to the first entry. -/
theorem firstEntry (h : v.Descends w) (le : v.store.size ≤ w.store.size) :
    w.transaction = v.transaction ∧ v.store.FirstEntry v.id w.id := by
  have same := h.partOf.records_eq le
  obtain ⟨l, before, after, levels, lists, hl, ok⟩ := h
  obtain ⟨rfl, unchanged⟩ := deleteEntries_nothing ok same
  exact ⟨unchanged, l, lists, by rw [hl]; rfl⟩

end Descends

theorem descends_firstEntry {t : Transaction} {d id : String} (h : t.store.FirstEntry d id) :
    Descends ⟨t, d⟩ ⟨t, id⟩ := by
  obtain ⟨l, lists, first⟩ := h
  obtain ⟨rest, hl⟩ := List.head?_eq_some_iff.1 first
  exact ⟨l, [], rest, 0, lists, hl, rfl⟩

theorem partOf_below (h : ReflTransGen Descends v w) : w.store.PartOf v.store := by
  induction h with
  | refl => exact .refl _
  | tail _ step ih => exact step.partOf.trans ih

/-- What a deletion comes to is reached by the listings as they were at its start. -/
theorem reaches_below (h : ReflTransGen Descends v w) (reached : v.store.Reaches v.id) :
    v.store.Reaches w.id := by
  induction h with
  | refl => exact reached
  | tail above step ih =>
    obtain ⟨name, entry⟩ := (partOf_below above).names step.names
    exact .entry ih entry

/-- If no record has gone on a longer way down, it goes along first entries all the time. -/
theorem firstEntries (h : TransGen Descends v w) (le : v.store.size ≤ w.store.size) :
    w.transaction = v.transaction ∧ TransGen v.store.FirstEntry v.id w.id := by
  induction h with
  | single step =>
    obtain ⟨same, first⟩ := step.firstEntry le
    exact ⟨same, .single first⟩
  | @tail u w above step ih =>
    have less := step.partOf.size_le
    obtain ⟨same, firsts⟩ := ih (Nat.le_trans le less)
    have le' : u.store.size ≤ w.store.size := Nat.le_trans (by rw [store, same]) le
    obtain ⟨same', first⟩ := step.firstEntry le'
    rw [store, same] at first
    exact ⟨same'.trans same, firsts.tail first⟩

/-- The way down of a deletion that is not over, visit by visit. -/
theorem exists_way (h : v.Endless levels) : ∃ way : Nat → Visit, way 0 = v ∧
    (∀ m < levels, (way m).Descends (way (m + 1))) ∧
    (way levels).store.IsDirectory (way levels).id := by
  induction levels generalizing v with
  | zero => exact ⟨fun _ => v, rfl, nofun, endless_zero_iff.1 h⟩
  | succ levels ih =>
    obtain ⟨w, step, hw⟩ := endless_succ_iff.1 h
    obtain ⟨way, rfl, steps, dir⟩ := ih hw
    refine ⟨fun m => m.casesOn v way, rfl, fun m hm => ?_, dir⟩
    cases m with
    | zero => exact step
    | succ m => exact steps m (Nat.lt_of_succ_lt_succ hm)

theorem way_below {way : Nat → Visit} (steps : ∀ m < levels, (way m).Descends (way (m + 1)))
    {i j : Nat} (lt : i < j) (le : j ≤ levels) : TransGen Descends (way i) (way j) := by
  induction lt with
  | refl => exact .single (steps i le)
  | step _ ih => exact (ih (Nat.le_of_lt le)).tail (steps _ le)

theorem way_below_start {way : Nat → Visit} (steps : ∀ m < levels, (way m).Descends (way (m + 1)))
    {m : Nat} (le : m ≤ levels) : ReflTransGen Descends (way 0) (way m) := by
  cases m with
  | zero => exact .refl
  | succ m => exact (way_below steps (Nat.succ_pos m) le).to_reflTransGen

/-- What tells the visits of directories on a way down apart: how many records
are left, and the id. -/
def mark (v : Visit) : Nat × String := (v.store.size, v.id)

/-- The marks that visits can have while what is stored is part of a store. -/
def marks (s : RecordStore) : Finset (Nat × String) :=
  Finset.range (s.size + 1) ×ˢ s.records.keys.toFinset

theorem mark_mem {s : RecordStore} (part : v.store.PartOf s) (dir : v.store.IsDirectory v.id) :
    v.mark ∈ marks s := by
  obtain ⟨bytes, stored⟩ := Option.ne_none_iff_exists'.1 dir.get?
  refine Finset.mem_product.2 ⟨?_, ?_⟩
  · exact Finset.mem_range.2 (Nat.lt_succ_of_le part.size_le)
  · exact List.mem_toFinset.2 (SortedMap.mem_keys_iff.2 ⟨bytes, part _ _ stored⟩)

theorem card_marks_le (s : RecordStore) : (marks s).card ≤ enoughLevels s := by
  have keys : s.records.keys.toFinset.card ≤ s.size := by
    refine (List.toFinset_card_le _).trans ?_
    rw [SortedMap.keys, List.length_map]
    exact Nat.le_refl _
  rw [marks, Finset.card_product, Finset.card_range, enoughLevels]
  exact Nat.mul_le_mul_left _ (Nat.le_succ_of_le keys)

/-- A way down that is longer than there are marks has the same mark twice. -/
theorem exists_same_mark {way : Nat → Visit}
    (steps : ∀ m < enoughLevels (way 0).store, (way m).Descends (way (m + 1)))
    (dir :
      (way (enoughLevels (way 0).store)).store.IsDirectory (way (enoughLevels (way 0).store)).id) :
    ∃ i j, i < j ∧ j ≤ enoughLevels (way 0).store ∧ (way i).mark = (way j).mark := by
  have inside : Set.MapsTo (fun m => (way m).mark) (Finset.range (enoughLevels (way 0).store + 1))
      (marks (way 0).store) := fun m hm => by
    have le := Nat.le_of_lt_succ (Finset.mem_range.1 hm)
    refine mark_mem (partOf_below (way_below_start steps le)) ?_
    rcases Nat.lt_or_eq_of_le le with lt | rfl
    · exact (steps m lt).isDirectory
    · exact dir
  have fewer : (marks (way 0).store).card <
      (Finset.range (enoughLevels (way 0).store + 1)).card := by
    rw [Finset.card_range]
    exact Nat.lt_succ_of_le (card_marks_le _)
  obtain ⟨i, hi, j, hj, ne, same⟩ := Finset.exists_ne_map_eq_of_card_lt_of_maps_to fewer inside
  rcases Nat.lt_or_gt_of_ne ne with lt | gt
  · exact ⟨i, j, lt, Nat.le_of_lt_succ (Finset.mem_range.1 hj), same⟩
  · exact ⟨j, i, gt, Nat.le_of_lt_succ (Finset.mem_range.1 hi), same.symm⟩

/-- A deletion that goes down far enough has come to one directory twice without deleting
anything in between. -/
theorem exists_circle (h : v.Endless (enoughLevels v.store)) :
    ∃ w, ReflTransGen Descends v w ∧ TransGen w.store.FirstEntry w.id w.id := by
  obtain ⟨way, rfl, steps, dir⟩ := exists_way h
  obtain ⟨i, j, lt, le, same⟩ := exists_same_mark steps dir
  obtain ⟨size, id⟩ := Prod.mk.inj same
  have firsts := (firstEntries (way_below steps lt le) (Nat.le_of_eq size)).2
  rw [← id] at firsts
  exact ⟨way i, way_below_start steps (Nat.le_of_lt (Nat.lt_of_lt_of_le lt le)), firsts⟩

/-- A way down that comes back to where it started has no end. -/
theorem endless_of_loop (h : TransGen Descends v v) : ∀ levels, v.Endless levels := by
  intro levels
  obtain ⟨w, step, back⟩ := TransGen.head'_iff.1 h
  induction levels generalizing v w with
  | zero => exact endless_zero_iff.2 step.isDirectory
  | succ levels ih =>
    have again : TransGen Descends w w := .tail' back step
    obtain ⟨u, step', back'⟩ := TransGen.head'_iff.1 again
    exact endless_succ_iff.2 ⟨w, step, ih again u step' back'⟩

theorem endless_of_circle (h : ReflTransGen Descends v w)
    (circle : TransGen w.store.FirstEntry w.id w.id) :
    ∀ levels, v.Endless levels := by
  induction h using ReflTransGen.head_induction_on with
  | refl =>
    let visit : String → Visit := fun id => ⟨w.transaction, id⟩
    exact endless_of_loop (TransGen.lift visit (fun _ _ => descends_firstEntry) w.id w.id circle)
  | head step _ ih =>
    intro levels
    cases levels with
    | zero => exact endless_zero_iff.2 step.isDirectory
    | succ levels => exact endless_succ_iff.2 ⟨_, step, ih levels⟩

/-- There is no end to a deletion exactly if it comes to a directory whose first
entries lead back to it. -/
theorem endless_iff_circle : v.Endless (enoughLevels v.store) ↔
    ∃ w, ReflTransGen Descends v w ∧ TransGen w.store.FirstEntry w.id w.id :=
  ⟨exists_circle, fun ⟨_, below, circle⟩ => endless_of_circle below circle _⟩

/-- A circle that a deletion comes to is one that the listings had at its start. -/
theorem circle_below (h : ReflTransGen Descends v w)
    (circle : TransGen w.store.FirstEntry w.id w.id) (reached : v.store.Reaches v.id) :
    ∃ id, v.store.Reaches id ∧ TransGen v.store.Names id id :=
  ⟨w.id, reaches_below h reached,
    TransGen.mono (fun _ _ first => (partOf_below h).names first.names) _ _ circle⟩

end Visit

namespace RecordTree

open StoreAction RecordStore Relation

variable {t t' : Transaction} {d id : String} {e : FsError} {levels : Nat}

/-! ## Deletions that fail at once -/

/-- A deletion that meets a record that cannot be read while it goes along first entries fails
before it has deleted anything. -/
theorem deleteEntry_stuck (firsts : ReflTransGen t.store.FirstEntry d id)
    (fails : t.store.Fails id e) :
    ∀ levels, ∃ e', (deleteEntry levels d).runOn t = (.error e', t) := by
  induction firsts using ReflTransGen.head_induction_on with
  | refl =>
    intro levels
    cases levels with
    | succ levels => exact ⟨e, deleteEntry_error_iff.2 (.inl ⟨rfl, fails⟩)⟩
    | zero =>
      rcases fails with hi | ⟨i, hi, dir, -⟩
      · exact ⟨e, deleteEntry_zero_error_iff.2 ⟨rfl, .inl hi⟩⟩
      · exact ⟨.endless, deleteEntry_zero_error_iff.2 ⟨rfl, .inr ⟨⟨i, hi, dir⟩, rfl⟩⟩⟩
  | head first _ ih =>
    obtain ⟨l, lists, first⟩ := first
    obtain ⟨rest, hl⟩ := List.head?_eq_some_iff.1 first
    intro levels
    cases levels with
    | zero => exact ⟨.endless, deleteEntry_zero_error_iff.2 ⟨rfl, .inr ⟨lists.isDirectory, rfl⟩⟩⟩
    | succ levels =>
      obtain ⟨e', failed⟩ := ih levels
      refine ⟨e', deleteEntry_error_iff.2 (.inr ⟨l, lists, ?_⟩)⟩
      exact Action.runOn_forM_error_iff.2 ⟨[], _, rest, t, hl, rfl, failed⟩

/-- A deletion that comes to an end and fails without having deleted anything has met a record that
cannot be read while it went along first entries. -/
theorem exists_stuck (failed : (deleteEntry levels d).runOn t = (.error e, t'))
    (ends : e ≠ .endless) (same : t'.store.records = t.store.records) :
    ∃ id, ReflTransGen t.store.FirstEntry d id ∧ t.store.Fails id e := by
  induction levels generalizing d with
  | zero =>
    obtain ⟨-, hi | ⟨-, endless⟩⟩ := deleteEntry_zero_error_iff.1 failed
    · exact ⟨d, .refl, .inl hi⟩
    · exact absurd endless ends
  | succ levels ih =>
    rcases deleteEntry_error_iff.1 failed with ⟨-, fails⟩ | ⟨l, lists, failed⟩
    · exact ⟨d, .refl, fails⟩
    · obtain ⟨before, id, after, t₁, hl, ok, failed'⟩ := Action.runOn_forM_error_iff.1 failed
      -- Had an entry before this one been deleted, a record would be missing in the end.
      have part := partOf_of_deleteEntries ok
      have size : t.store.size ≤ t₁.store.size := by
        refine Nat.le_trans ?_ (partOf_of_deleteEntry failed').size_le
        rw [RecordStore.size, RecordStore.size, same]
      obtain ⟨rfl, rfl⟩ := deleteEntries_nothing ok (part.records_eq size)
      obtain ⟨id', firsts, fails⟩ := ih failed'
      exact ⟨id', .head ⟨l, lists, by rw [hl]; rfl⟩ firsts, fails⟩

theorem deleteEntry_unchanged_iff (failed : (deleteEntry levels d).runOn t = (.error e, t'))
    (ends : e ≠ .endless) : t'.store.records = t.store.records ↔
      ∃ id, ReflTransGen t.store.FirstEntry d id ∧ ∃ e', t.store.Fails id e' := by
  constructor
  · intro same
    obtain ⟨id, firsts, fails⟩ := exists_stuck failed ends same
    exact ⟨id, firsts, e, fails⟩
  · rintro ⟨id, firsts, e', fails⟩
    obtain ⟨e'', stuck⟩ := deleteEntry_stuck firsts fails levels
    cases failed.symm.trans stuck
    rfl

end RecordTree

end MountSpace
