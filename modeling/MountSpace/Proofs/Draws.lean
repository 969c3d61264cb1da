import MountSpace.Proofs.Records
import MountSpace.KeyValue.Tree

/-!
# How many ids are drawn

A change of a store draws an id again only while it is refused, and only so many times. So there is
a bound on the draws of a change that does not depend on what the store holds.

- `StoreAction.DrawsAtMost`: a bound, and how bounds add up.
- `RecordTree.drawsAtMost_mkdir`, `RecordTree.drawsAtMost_initialise`: the changes that building a
  namespace consists of.
-/

namespace MountSpace

namespace StoreAction

variable {α β : Type} {k m : Nat}

/-- Ids are drawn so many times at most, also if the change fails. -/
def DrawsAtMost (k : Nat) (act : StoreAction α) : Prop :=
  ∀ t : Transaction, (act.runOn t).2.ambient.draws ≤ t.ambient.draws + k

theorem DrawsAtMost.mono {act : StoreAction α} (h : act.DrawsAtMost k) (le : k ≤ m) :
    act.DrawsAtMost m :=
  fun t => Nat.le_trans (h t) (Nat.add_le_add_left le _)

theorem DrawsAtMost.bind {x : StoreAction α} {f : α → StoreAction β} (hx : x.DrawsAtMost k)
    (hf : ∀ a, (f a).DrawsAtMost m) : (x >>= f).DrawsAtMost (k + m) := by
  intro t
  have first := hx t
  rw [Action.runOn_bind]
  rcases hr : x.runOn t with ⟨e | a, t'⟩
  · rw [hr] at first
    exact Nat.le_trans first (by omega)
  · rw [hr] at first
    have second := hf a t'
    dsimp only at first ⊢
    omega

/-- What draws nothing adds nothing to a bound. -/
theorem DrawsAtMost.after {x : StoreAction α} {f : α → StoreAction β} (hx : x.DrawsAtMost 0)
    (hf : ∀ a, (f a).DrawsAtMost m) : (x >>= f).DrawsAtMost m := by
  rw [← Nat.zero_add m]
  exact hx.bind hf

theorem DrawsAtMost.discard {x : StoreAction α} (hx : x.DrawsAtMost k) :
    StoreAction.DrawsAtMost k (discard x) :=
  fun t => by
    rw [Action.runOn_discard]
    exact hx t

theorem drawsAtMost_pure (a : α) : StoreAction.DrawsAtMost k (pure a) :=
  fun _ => Nat.le_add_right _ _

theorem drawsAtMost_throw (e : FsError) : StoreAction.DrawsAtMost k (throw e : StoreAction α) :=
  fun _ => Nat.le_add_right _ _

theorem drawsAtMost_ofExcept (r : Except FsError α) :
    StoreAction.DrawsAtMost 0 (Action.ofExcept r) := fun t => by
  rw [Action.runOn_ofExcept]
  exact Nat.le_refl _

theorem drawsAtMost_get_bind {f : Transaction → StoreAction α} (hf : ∀ t, (f t).DrawsAtMost k) :
    (get >>= f).DrawsAtMost k := fun t => hf t t

theorem drawsAtMost_ask (inquiry : RecordStore → Except FsError α) : (ask inquiry).DrawsAtMost 0 :=
  drawsAtMost_get_bind fun _ => drawsAtMost_ofExcept _

theorem drawsAtMost_now : now.DrawsAtMost 0 := fun _ => Nat.le_refl _

theorem drawsAtMost_drawId : drawId.DrawsAtMost 1 := fun _ => Nat.le_refl _

theorem drawsAtMost_overwrite (key : String) (value : Bytes) :
    (overwrite key value).DrawsAtMost 0 :=
  fun _ => Nat.le_refl _

theorem drawsAtMost_add (key : String) (value : Bytes) : (add key value).DrawsAtMost 0 :=
  fun _ => Nat.le_refl _

theorem drawsAtMost_delete (key : String) : (delete key).DrawsAtMost 0 := fun _ => Nat.le_refl _

theorem drawsAtMost_addNewWithin (value : Bytes) : ∀ n, (addNewWithin value n).DrawsAtMost n
  | 0 => drawsAtMost_throw _
  | n + 1 => by
    rw [addNewWithin, Nat.add_comm]
    refine drawsAtMost_drawId.bind fun id => (drawsAtMost_add _ _).after fun accepted => ?_
    cases accepted with
    | true => exact drawsAtMost_pure _
    | false => exact drawsAtMost_addNewWithin value n

theorem drawsAtMost_writeListing (id : String) (inode : Inode) (l : Listing) :
    (writeListing id inode l).DrawsAtMost 0 := by
  refine drawsAtMost_now.after fun now => (drawsAtMost_overwrite _ _).after fun _ => ?_
  dsimp only
  split
  · exact drawsAtMost_overwrite _ _
  · exact drawsAtMost_pure _

end StoreAction

namespace RecordTree

open StoreAction

/-- The most ids that one entry may take: an id for its content, which may be drawn again,
and one for itself. -/
def entryDraws : Nat := idAttempts + 1

theorem drawsAtMost_addEntry (p : Path) (kind : FileKind) (perm : UInt32) (content : Bytes) :
    (addEntry p kind perm content).DrawsAtMost entryDraws := by
  rw [addEntry]
  cases p.name? with
  | none => exact drawsAtMost_throw _
  | some name =>
    refine (drawsAtMost_ask _).after fun dir => ?_
    split
    · exact drawsAtMost_throw _
    · refine (drawsAtMost_addNewWithin content idAttempts).bind fun contentId => ?_
      refine DrawsAtMost.bind (m := 0) drawsAtMost_drawId fun id =>
        drawsAtMost_now.after fun now => ?_
      refine (drawsAtMost_ofExcept _).after fun inode =>
        (drawsAtMost_add _ _).after fun accepted => ?_
      cases accepted with
      | true =>
        exact (drawsAtMost_writeListing _ _ _).after fun _ => drawsAtMost_pure _
      | false =>
        exact (drawsAtMost_delete _).after fun _ => drawsAtMost_throw _

theorem drawsAtMost_mkdir (p : Path) (mode : UInt32) : (mkdir p mode).DrawsAtMost entryDraws :=
  (drawsAtMost_addEntry p .directory mode _).discard

theorem drawsAtMost_initialise : initialise.DrawsAtMost entryDraws := by
  refine drawsAtMost_get_bind fun t => ?_
  cases t.store.get? rootKey with
  | some bytes =>
    refine (drawsAtMost_ofExcept _).after fun root => ?_
    cases root.isDir with
    | true => exact drawsAtMost_pure _
    | false => exact drawsAtMost_throw _
  | none =>
    refine DrawsAtMost.bind (m := 1) (drawsAtMost_addNewWithin _ idAttempts) fun contentId => ?_
    exact drawsAtMost_now.after fun now => (drawsAtMost_ofExcept _).after fun root =>
      (drawsAtMost_overwrite _ _).mono (Nat.zero_le _)

end RecordTree

end MountSpace
