import MountSpace.Proofs.InodeFormat
import MountSpace.Proofs.Mode

/-!
# Folding attributes into a record

A record is told as attributes and attributes are folded back into it. Both ways something is lost:
a mode names one of sixteen kinds and attributes know two, a stored time may lie between two
instants and an instant between two stored times. What is folded in is compared with what the record
tells already, so that nothing drifts.

- `Instant.isNaN_toMillis`: the stored form of an instant is a number, and so equal to itself.
- `Inode.differs_ofMillis`, `differs_foldTime`: a stored time does not differ from its own reading,
  nor from an instant that has been folded into it.
- `Inode.update_exact`: a change is reported exactly if the record has changed, and only once.
- `Inode.IsTagged`, `mode_toAttr`: a mode with the tag of one of the two kinds is told as it is.
- `Inode.update_own_view`: folding a record's own view into it changes the tag at most;
  `update_shown`: with a tag it changes nothing.
-/

namespace MountSpace

/-! ## Stored times -/

namespace Binary64

theorem nearest_le (num den : Nat) : nearest num den ≤ infinity := Nat.min_le_left ..

/-- Rounding gives a number, or infinity. -/
theorem isNaN_ofQuotient (negative : Bool) (num den : Nat) :
    (ofQuotient negative num den).isNaN = false := by
  have within := nearest_le num den
  have infinite : infinity = 0x7FF0000000000000 := rfl
  have sign : signBit = 0x8000000000000000 := rfl
  -- The sign stands above all bits of the rounded number.
  have unsigned_eq : (ofQuotient negative num den).unsigned = nearest num den := by
    rw [unsigned, ofQuotient, Nat.toUInt64_eq, UInt64.toNat_ofNat', sign]
    cases negative
    · simp only [Bool.false_eq_true, if_false]
      omega
    · simp only [if_true]
      omega
  rw [isNaN, unsigned_eq, decide_eq_false_iff_not]
  exact Nat.not_lt.2 within

theorem numEq_self {x : Binary64} (number : x.isNaN = false) : x.numEq x = true := by
  rw [numEq, number, beq_self_eq_true]
  rfl

end Binary64

/-- The stored form of an instant is a number. -/
theorem Instant.isNaN_toMillis (t : Instant) : t.toMillis.isNaN = false :=
  Binary64.isNaN_ofQuotient ..

namespace Inode

/-- The stored form of an instant does not differ from it. -/
theorem differs_toMillis (t : Instant) : differs t.toMillis t = false := by
  rw [differs, Binary64.numEq_self t.isNaN_toMillis]
  rfl

/-- A stored time does not differ from the instant that it is read as, whatever its pattern. -/
theorem differs_ofMillis (stored : Binary64) :
    differs stored (Instant.ofMillis stored) = false := by
  rw [differs, Binary64.numEq_self (Instant.isNaN_toMillis _)]
  exact Bool.and_false _

/-- An instant that has been folded in makes no difference any more. -/
theorem differs_foldTime (stored : Binary64) (t : Instant) :
    differs (foldTime stored t) t = false := by
  rw [foldTime]
  split
  · exact differs_toMillis t
  next same => exact Bool.eq_false_iff.2 same

/-- A stored time that differs is replaced by another pattern. -/
theorem foldTime_eq_iff {stored : Binary64} {t : Instant} :
    foldTime stored t = stored ↔ differs stored t = false := by
  rw [foldTime]
  split
  next differing =>
    refine ⟨fun same => ?_, fun same => absurd (same.symm.trans differing) Bool.false_ne_true⟩
    rw [← same]
    exact differs_toMillis t
  next same => exact ⟨fun _ => Bool.eq_false_iff.2 same, fun _ => rfl⟩

/-! ## What is reported and what has changed -/

/-- Nothing is reported just if size, mode and times are those of the attributes. -/
theorem update_fst_eq_false_iff {i : Inode} {a : FileAttr} :
    (i.update a).1 = false ↔ i.size = recordedSize a.size ∧ i.mode = a.mode.toUInt16 ∧
      differs i.atime a.atime = false ∧ differs i.mtime a.mtime = false ∧
      differs i.ctime a.ctime = false := by
  simp only [update, Bool.or_eq_false_iff, bne_eq_false_iff_eq, and_assoc]

theorem update_snd_eq_iff {i : Inode} {a : FileAttr} :
    (i.update a).2 = i ↔ i.size = recordedSize a.size ∧ i.mode = a.mode.toUInt16 ∧
      foldTime i.atime a.atime = i.atime ∧ foldTime i.mtime a.mtime = i.mtime ∧
      foldTime i.ctime a.ctime = i.ctime := by
  obtain ⟨contentId, dev, ino, size, mode, atime, mtime, ctime, ascii⟩ := i
  simp only [update, mk.injEq, true_and, eq_comm (a := recordedSize a.size),
    eq_comm (a := a.mode.toUInt16)]

/-- What is reported is exact: nothing just if the record is the same. -/
theorem update_silent_iff {i : Inode} {a : FileAttr} :
    (i.update a).1 = false ↔ (i.update a).2 = i := by
  rw [update_fst_eq_false_iff, update_snd_eq_iff, foldTime_eq_iff, foldTime_eq_iff, foldTime_eq_iff]

/-- A size is recorded up to the greatest that fits. -/
theorem toNat_recordedSize (size : UInt64) :
    (recordedSize size).toNat = min size.toNat (UInt32.size - 1) := by
  have bound : UInt32.size = 4294967296 := rfl
  rw [recordedSize, Nat.toUInt32_eq, UInt32.toNat_ofNat']
  omega

/-- **Folding in attributes is exact**: it reports that nothing has changed just if the record is
the same bit for bit, it never touches the content id and the numbers, it sets size and mode to
those of the attributes as far as they fit, and doing it once more reports and changes nothing. -/
theorem update_exact (i : Inode) (a : FileAttr) :
    ((i.update a).1 = false ↔ (i.update a).2 = i) ∧
    ((i.update a).2.contentId = i.contentId ∧ (i.update a).2.dev = i.dev ∧
      (i.update a).2.ino = i.ino) ∧
    (i.update a).2.size.toNat = min a.size.toNat (UInt32.size - 1) ∧
    (i.update a).2.mode.toNat = a.mode.toNat % UInt16.size ∧
    (i.update a).2.update a = (false, (i.update a).2) := by
  have silent : ((i.update a).2.update a).1 = false :=
    update_fst_eq_false_iff.2 ⟨rfl, rfl, differs_foldTime .., differs_foldTime ..,
      differs_foldTime ..⟩
  exact ⟨update_silent_iff, ⟨rfl, rfl, rfl⟩, toNat_recordedSize a.size,
    UInt32.toNat_toUInt16 a.mode, Prod.ext silent (update_unchanged silent)⟩

/-! ## A record's own view -/

/-- The mode that a record tells has the tag of a file, unless it had one of the two tags. -/
theorem mode_toAttr (i : Inode) : i.toAttr.mode.toUInt16 =
    if i.IsTagged then i.mode else 0x8000 ||| (i.mode &&& 0xFFF) := by
  have told : i.toAttr.mode.toUInt16 = i.kind.modeBits.toUInt16 ||| (i.mode &&& 0xFFF) := by
    rw [FileAttr.mode, kind_toAttr, perm_toAttr, FileKind.toUInt16_mode, perm, UInt32.toUInt16_and,
      UInt16.toUInt16_toUInt32]
    show _ ||| (i.mode &&& 0xFFF) &&& 0xFFF = _
    rw [UInt16.and_assoc, UInt16.and_self]
  rw [told, kind_eq]
  by_cases tagged : i.IsTagged
  · rw [if_pos tagged]
    -- Of the two tags the record tells the one that it has.
    have tag : (if i.mode &&& 0xF000 = 0x4000 then FileKind.directory
      else .file).modeBits.toUInt16 =
        i.mode &&& 0xF000 := by
      rcases tagged with directory | file
      · rw [if_pos directory, directory]
        rfl
      · rw [file]
        rfl
    rw [tag, tag_or_permissions]
  · rw [if_neg tagged, if_neg fun directory => tagged (.inl directory)]
    rfl

/-- The size that a record tells is the size that it keeps. -/
theorem recordedSize_toAttr (i : Inode) : recordedSize i.toAttr.size = i.size := by
  rw [size_toAttr, ← UInt32.toNat_inj, toNat_recordedSize, UInt32.toNat_toUInt64]
  exact Nat.min_eq_left (Nat.le_pred_of_lt i.size.toNat_lt)

/-- Folding a record's own view into it leaves all as it is but the mode, also
times of any pattern. -/
theorem update_toAttr (i : Inode) :
    (i.update i.toAttr).2 = { i with mode := i.toAttr.mode.toUInt16 } := by
  have times : ∀ stored, foldTime stored (Instant.ofMillis stored) = stored :=
    fun stored => foldTime_eq_iff.2 (differs_ofMillis stored)
  rw [update]
  dsimp only
  rw [recordedSize_toAttr]
  simp only [toAttr, times]

/-- A record's own view is reported as a change just if the mode has the tag of neither kind. -/
theorem update_own_silent_iff {i : Inode} : (i.update i.toAttr).1 = false ↔ i.IsTagged := by
  rw [update_silent_iff, update_toAttr, mode_toAttr]
  by_cases tagged : i.IsTagged
  · rw [if_pos tagged]
    exact ⟨fun _ => tagged, fun _ => rfl⟩
  · rw [if_neg tagged]
    refine ⟨fun same => .inr ?_, fun tagged' => absurd tagged' tagged⟩
    have mode : 0x8000 ||| (i.mode &&& 0xFFF) = i.mode := congrArg Inode.mode same
    rw [← mode, tag_beside_perm]
    rfl

/-- A record with a tag stays as it is. -/
theorem update_own {i : Inode} (tagged : i.IsTagged) : i.update i.toAttr = (false, i) :=
  Prod.ext (update_own_silent_iff.2 tagged) (update_unchanged (update_own_silent_iff.2 tagged))

/-- **A record's own view** folded into the record reports nothing and changes nothing, whatever the
patterns of its times, just if its mode has the tag of one of the two kinds. Any other tag becomes
that of a file, which is reported, and all else stays bit for bit as it was. -/
theorem update_own_view (i : Inode) :
    (i.update i.toAttr = (false, i) ↔ i.IsTagged) ∧
      i.update i.toAttr = (decide ¬i.IsTagged,
        { i with mode := if i.IsTagged then i.mode else 0x8000 ||| (i.mode &&& 0xFFF) }) := by
  have folded := update_toAttr i
  rw [mode_toAttr] at folded
  have reported : (i.update i.toAttr).1 = decide ¬i.IsTagged := by
    by_cases tagged : i.IsTagged
    · rw [update_own tagged, decide_eq_false (not_not_intro tagged)]
    · rw [decide_eq_true tagged]
      exact (Bool.not_eq_false _).mp fun silent => tagged (update_own_silent_iff.1 silent)
  exact ⟨⟨fun same => update_own_silent_iff.1 (congrArg Prod.fst same), update_own⟩,
    Prod.ext reported folded⟩

/-- A mode without a tag, which folding in the record's own view makes that of a file. -/
theorem untagged_view_changes : ∃ i : Inode, decode i.encode = .ok i ∧ i.mode = 0o644 ∧
    i.update i.toAttr = (true, { i with mode := 0o100644 }) :=
  ⟨⟨"", 0, 0, 0, 0o644, ⟨0⟩, ⟨0⟩, ⟨0⟩, by decide⟩, decode_encode _, rfl, by decide +kernel⟩

/-- What a record with a tag shows changes nothing when it is folded in, with any size that
is kept as the same. -/
theorem update_shown {i : Inode} (tagged : i.IsTagged) {size : UInt64}
    (same : recordedSize size = i.size) :
    i.update { i.toAttr with kind := i.kind, size } = (false, i) := by
  rw [← update_own tagged, ← kind_toAttr]
  simp only [update, FileAttr.mode, same, recordedSize_toAttr]

end Inode

end MountSpace
