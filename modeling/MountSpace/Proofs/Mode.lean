import MountSpace.Inode.Basic

/-!
# Modes of records

A mode made of a kind and permissions has that kind and those permissions again once a record has
cut it to sixteen bits. So folding attributes into a record gives it their kind and permissions
(`Inode.kind_update`, `Inode.perm_update`), and a record that `Inode.update` calls unchanged is
unchanged (`Inode.update_unchanged`).

A mode names one of sixteen kinds, of which records that are made or changed have only the two that
there are (`Inode.IsTagged`).
-/

namespace MountSpace

/-! ## The bits of a mode -/

/-- A tag above the permission bits stands clear of them. -/
theorem tag_or_perm (tag : Nat) {r : Nat} (hr : r < 4096) (low : tag &&& 0xFFF = 0)
    (high : tag &&& 0xF000 = tag) (bound : tag < 65536) :
    tag ||| r < 65536 ∧ (tag ||| r) &&& 0xFFF = r ∧ (tag ||| r) &&& 0xF000 = tag := by
  have within : r &&& 0xFFF = r := by
    rw [Nat.and_two_pow_sub_one_eq_mod r 12]
    exact Nat.mod_eq_of_lt hr
  have outside : r &&& 0xF000 = 0 := by
    rw [← within, Nat.and_assoc]
    exact Nat.and_zero r
  refine ⟨Nat.or_lt_two_pow (n := 16) bound (by omega), ?_, ?_⟩
  · rw [Nat.and_or_distrib_right, low, within, Nat.zero_or]
  · rw [Nat.and_or_distrib_right, high, outside, Nat.or_zero]

theorem toNat_perm (perm : UInt32) : (perm &&& permMask).toNat = perm.toNat % 4096 := by
  rw [UInt32.toNat_and]
  exact Nat.and_two_pow_sub_one_eq_mod perm.toNat 12

/-- A tag is read off whatever permission bits stand beside it. -/
theorem tag_beside_perm (tag perm : UInt16) :
    (tag ||| (perm &&& 0xFFF)) &&& 0xF000 = tag &&& 0xF000 := by
  rw [← UInt16.toNat_inj, UInt16.toNat_and, UInt16.toNat_or, UInt16.toNat_and, UInt16.toNat_and]
  rw [Nat.and_or_distrib_right, Nat.and_assoc perm.toNat]
  rw [show (0xFFF : UInt16).toNat &&& (0xF000 : UInt16).toNat = 0 from rfl, Nat.and_zero,
    Nat.or_zero]

/-- A mode is its tag and its permission bits. -/
theorem tag_or_permissions (mode : UInt16) : (mode &&& 0xF000) ||| (mode &&& 0xFFF) = mode := by
  rw [← UInt16.toNat_inj, UInt16.toNat_or, UInt16.toNat_and, UInt16.toNat_and]
  show mode.toNat &&& 0xF000 ||| mode.toNat &&& 0xFFF = mode.toNat
  rw [← Nat.and_or_distrib_left]
  exact (Nat.and_two_pow_sub_one_eq_mod mode.toNat 16).trans (Nat.mod_eq_of_lt mode.toNat_lt)

namespace FileKind

/-- A mode cut to sixteen bits is the tag beside the permission bits. -/
theorem toUInt16_mode (k : FileKind) (perm : UInt32) :
    (k.mode perm).toUInt16 = k.modeBits.toUInt16 ||| (perm.toUInt16 &&& 0xFFF) := by
  rw [mode, UInt32.toUInt16_or, UInt32.toUInt16_and]
  rfl

/-- A mode cut to sixteen bits keeps its kind and its permissions. -/
theorem mode_fields (k : FileKind) (perm : UInt32) :
    ofMode (k.mode perm).toUInt16.toUInt32 = k ∧
      (k.mode perm).toUInt16.toUInt32 &&& permMask = perm &&& permMask := by
  have bound : perm.toNat % 4096 < 4096 := Nat.mod_lt _ (by decide)
  obtain ⟨lf, pf, kf⟩ := tag_or_perm 0x8000 bound rfl rfl (by decide)
  obtain ⟨ld, pd, kd⟩ := tag_or_perm 0x4000 bound rfl rfl (by decide)
  have cut : ∀ m : UInt32, m.toNat < 65536 → m.toUInt16.toUInt32 = m := by
    intro m hm
    apply UInt32.toNat_inj.1
    rw [UInt16.toNat_toUInt32, UInt32.toNat_toUInt16]
    exact Nat.mod_eq_of_lt hm
  cases k with
  | file =>
    have value : (file.mode perm).toNat = 0x8000 ||| perm.toNat % 4096 := by
      rw [mode, UInt32.toNat_or, toNat_perm]
      rfl
    rw [cut _ (value ▸ lf)]
    refine ⟨if_neg fun h => ?_, UInt32.toNat_inj.1 ?_⟩
    · have := congrArg UInt32.toNat h
      rw [UInt32.toNat_and, value] at this
      exact absurd (kf.symm.trans this) (by decide)
    · rw [UInt32.toNat_and, value, toNat_perm]
      exact pf
  | directory =>
    have value : (directory.mode perm).toNat = 0x4000 ||| perm.toNat % 4096 := by
      rw [mode, UInt32.toNat_or, toNat_perm]
      rfl
    rw [cut _ (value ▸ ld)]
    refine ⟨if_pos (UInt32.toNat_inj.1 ?_), UInt32.toNat_inj.1 ?_⟩
    · rw [UInt32.toNat_and, value]
      exact kd
    · rw [UInt32.toNat_and, value, toNat_perm]
      exact pd

end FileKind

@[simp] theorem perm_idem (perm : UInt32) : perm &&& permMask &&& permMask = perm &&& permMask := by
  rw [UInt32.and_assoc, UInt32.and_self]

/-! ## Records and attributes -/

namespace Inode

/-- The permission bits of a record. -/
def perm (i : Inode) : UInt32 := i.mode.toUInt32 &&& permMask

@[simp] theorem kind_toAttr (i : Inode) : i.toAttr.kind = i.kind := by
  rw [toAttr, FileAttr.ofMode, kind]
  cases FileKind.ofMode i.mode.toUInt32 <;> rfl

@[simp] theorem perm_toAttr (i : Inode) : i.toAttr.perm = i.perm := by
  rw [toAttr, FileAttr.ofMode, perm]
  cases FileKind.ofMode i.mode.toUInt32 <;> exact perm_idem _

@[simp] theorem size_toAttr (i : Inode) : i.toAttr.size = i.size.toUInt64 := by
  rw [toAttr, FileAttr.ofMode]
  cases FileKind.ofMode i.mode.toUInt32 <;> rfl

@[simp] theorem perm_masked (i : Inode) : i.perm &&& permMask = i.perm := perm_idem _

@[simp] theorem kind_update (i : Inode) (a : FileAttr) : (i.update a).2.kind = a.kind :=
  (FileKind.mode_fields a.kind a.perm).1

@[simp] theorem perm_update (i : Inode) (a : FileAttr) :
    (i.update a).2.perm = a.perm &&& permMask :=
  (FileKind.mode_fields a.kind a.perm).2

@[simp] theorem size_update (i : Inode) (a : FileAttr) :
    (i.update a).2.size = recordedSize a.size := rfl

/-- A record reported as unchanged is unchanged. -/
theorem update_unchanged {i : Inode} {a : FileAttr} (h : (i.update a).1 = false) :
    (i.update a).2 = i := by
  simp only [update, Bool.or_eq_false_iff, bne_eq_false_iff_eq] at h
  obtain ⟨⟨⟨⟨hsize, hmode⟩, hatime⟩, hmtime⟩, hctime⟩ := h
  obtain ⟨contentId, dev, ino, size, mode, atime, mtime, ctime, ascii⟩ := i
  simp only at hsize hmode hatime hmtime hctime
  simp only [update, foldTime, hatime, hmtime, hctime, ← hsize, ← hmode]
  rfl

/-- The tag of the mode is that of one of the two kinds. -/
def IsTagged (i : Inode) : Prop := i.mode &&& 0xF000 = 0x4000 ∨ i.mode &&& 0xF000 = 0x8000

instance (i : Inode) : Decidable i.IsTagged := inferInstanceAs (Decidable (_ ∨ _))

theorem kind_eq (i : Inode) :
    i.kind = if i.mode &&& 0xF000 = 0x4000 then .directory else .file := by
  have same : i.mode.toUInt32 &&& kindMask = 0x4000 ↔ i.mode &&& 0xF000 = 0x4000 := by
    rw [← UInt32.toNat_inj, ← UInt16.toNat_inj, UInt32.toNat_and, UInt16.toNat_and,
      UInt16.toNat_toUInt32]
    rfl
  rw [kind, FileKind.ofMode]
  simp only [same]

/-- A mode that is made of a kind has the tag of that kind. -/
theorem isTagged_of_mode {i : Inode} {k : FileKind} {perm : UInt32}
    (made : i.mode = (k.mode perm).toUInt16) : i.IsTagged := by
  rw [IsTagged, made, FileKind.toUInt16_mode, tag_beside_perm]
  cases k with
  | file => exact .inr rfl
  | directory => exact .inl rfl

theorem isTagged_update (i : Inode) (a : FileAttr) : (i.update a).2.IsTagged := isTagged_of_mode rfl

theorem isTagged_of_isDir {i : Inode} (dir : i.isDir = true) : i.IsTagged := by
  have kind : i.kind = .directory := eq_of_beq dir
  rw [kind_eq] at kind
  split at kind
  next tag => exact .inl tag
  next => cases kind

/-- A record of a given kind and permissions can be made under any id that is ASCII. -/
theorem make_ok {contentId : String} (h : IsAscii contentId) (dev ino size : UInt32) (k : FileKind)
    (perm : UInt32) (atime mtime ctime : Binary64) :
    ∃ i, make contentId dev ino size (k.mode perm).toUInt16 atime mtime ctime = .ok i ∧
      i.contentId = contentId ∧ i.size = size ∧ i.kind = k ∧ i.perm = perm &&& permMask ∧
      i.IsTagged :=
  ⟨_, dif_pos h, rfl, rfl, (FileKind.mode_fields k perm).1, (FileKind.mode_fields k perm).2,
    isTagged_of_mode rfl⟩

end Inode

end MountSpace
