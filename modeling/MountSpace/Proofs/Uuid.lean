import MountSpace.Ambient
import MountSpace.Proofs.JsonText

/-!
# Ids as text

The text of an id determines the id (`Uuid.toText_injective`), can be the content id of a record
(`Uuid.isAscii_toText`), and has 36 characters (`Uuid.length_toText`).
-/

namespace MountSpace.Uuid

theorem digit_injective {m n : Nat} (hm : m < 16) (hn : n < 16)
    (h : Hex.digit 'a' m = Hex.digit 'a' n) : m = n := by
  have := congrArg Hex.value? h
  rw [Hex.value?_digit hm, Hex.value?_digit hn] at this
  exact Option.some.inj this

@[simp] theorem length_digits : ∀ (width n : Nat), (digits width n).length = width
  | 0, _ => rfl
  | width + 1, n => by rw [digits, List.length_append, length_digits width]; rfl

/-- Digits determine the part of the number that they show. -/
theorem mod_eq_of_digits : ∀ {width m n : Nat}, digits width m = digits width n →
    m % Nat.pow 16 width = n % Nat.pow 16 width
  | 0, m, n, _ => by rw [show Nat.pow 16 0 = 1 from rfl, Nat.mod_one, Nat.mod_one]
  | width + 1, m, n, h => by
    have hpow : Nat.pow 16 (width + 1) = 16 * Nat.pow 16 width := Nat.mul_comm ..
    obtain ⟨high, low⟩ := List.append_inj h (by simp)
    have hlow : m % 16 = n % 16 :=
      digit_injective (Nat.mod_lt _ (by decide)) (Nat.mod_lt _ (by decide)) (List.cons.inj low).1
    rw [hpow, Nat.mod_mul, Nat.mod_mul, hlow, mod_eq_of_digits high]

theorem length_toText (u : Uuid) : u.toText.toList.length = 36 := by
  simp [toText]

/-- The text of an id determines the id: every bit is shown by one digit. -/
theorem toText_injective {u w : Uuid} (h : u.toText = w.toText) : u = w := by
  have hu := u.bits.isLt
  have hw := w.bits.isLt
  have h := String.ofList_inj.1 h
  simp only [List.append_assoc, List.cons_append] at h
  obtain ⟨h₁, h⟩ := List.append_inj h (by simp)
  obtain ⟨h₂, h⟩ := List.append_inj (List.cons.inj h).2 (by simp)
  obtain ⟨h₃, h⟩ := List.append_inj (List.cons.inj h).2 (by simp)
  obtain ⟨h₄, h⟩ := List.append_inj (List.cons.inj h).2 (by simp)
  have h₁ := mod_eq_of_digits h₁
  have h₂ := mod_eq_of_digits h₂
  have h₃ := mod_eq_of_digits h₃
  have h₄ := mod_eq_of_digits h₄
  have h₅ := mod_eq_of_digits (List.cons.inj h).2
  simp only [Nat.shiftRight_eq_div_pow] at h₁ h₂ h₃ h₄
  obtain ⟨u⟩ := u
  obtain ⟨w⟩ := w
  congr 1
  apply BitVec.eq_of_toNat_eq
  simp only at hu hw h₁ h₂ h₃ h₄ h₅
  generalize u.toNat = m at hu h₁ h₂ h₃ h₄ h₅ ⊢
  generalize w.toNat = n at hw h₁ h₂ h₃ h₄ h₅ ⊢
  have p₄ : Nat.pow 16 4 = 65536 := rfl
  have p₈ : Nat.pow 16 8 = 4294967296 := rfl
  have p₁₂ : Nat.pow 16 12 = 281474976710656 := rfl
  rw [p₈] at h₁
  rw [p₄] at h₂ h₃ h₄
  rw [p₁₂] at h₅
  omega

theorem digit_lt : ∀ {n : Nat}, n < 16 → (Hex.digit 'a' n).toNat < 128 := by
  have all : ∀ m : Fin 16, (Hex.digit 'a' m).toNat < 128 := by decide
  exact fun {n} h => all ⟨n, h⟩

theorem digits_ascii : ∀ (width n : Nat), ∀ c ∈ digits width n, c.toNat < 128
  | 0, _, _, h => absurd h List.not_mem_nil
  | width + 1, n, c, h => by
    rcases List.mem_append.1 h with h | h
    · exact digits_ascii width _ c h
    · rw [List.mem_singleton.1 h]
      exact digit_lt (Nat.mod_lt _ (by decide))

/-- The text of an id can be stored in a record. -/
theorem isAscii_toText (u : Uuid) : IsAscii u.toText := by
  intro c hc
  rw [toText, String.toList_ofList] at hc
  simp only [List.mem_append, List.mem_cons, List.append_assoc, List.cons_append] at hc
  have dash : '-'.toNat < 128 := by decide
  rcases hc with h | rfl | h | rfl | h | rfl | h | rfl | h <;>
    first | exact digits_ascii _ _ c h | exact dash

end MountSpace.Uuid
