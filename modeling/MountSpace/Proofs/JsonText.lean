import MountSpace.Json.Parser

/-!
# Written text reads back

What `Json.Text.write` puts between quotes is read up to the closing quote as the text it was
written from, whatever follows (`Json.text_write`). Each character is read as one element: a control
character without a letter of its own as a 16-bit unit, any other as itself.
-/

namespace MountSpace

namespace Hex

/-- A digit stands for its value. -/
theorem value?_digit {n : Nat} (h : n < 16) : value? (digit 'a' n) = some n := by
  have all : ∀ m : Fin 16, value? (digit 'a' m) = some m.val := by decide
  exact all ⟨n, h⟩

theorem number?_two_digits {m n : Nat} (hm : m < 16) (hn : n < 16) :
    number? ['0', '0', digit 'a' m, digit 'a' n] = some (m * 16 + n) := by
  have zero : value? '0' = some 0 := by decide
  simp [number?, zero, value?_digit hm, value?_digit hn]

end Hex

namespace Json

namespace Text

/-! ## One character -/

theorem lex_plain {c : Char} (h₁ : c ≠ '"') (h₂ : c ≠ '\\') (h₃ : ¬c < ' ') (cs : List Char) :
    lex (c :: cs) = (lex cs).bind fun r => some (.plain c :: r.1, r.2) := by
  rw [lex]
  · simp [h₂, h₃]
  · exact h₁
  · intro a b c d rest h
    exact absurd h h₂
  · intro e rest h
    exact absurd h h₂

theorem lex_escape {e c : Char} (h : escaped? e = some c) (cs : List Char) :
    lex ('\\' :: e :: cs) = (lex cs).bind fun r => some (.plain c :: r.1, r.2) := by
  have hu : e ≠ 'u' := by
    rintro rfl
    simp [escaped?] at h
  rw [lex]
  · simp [h]
  · intro a b c d rest h
    exact absurd h hu

theorem lex_unit {m n : Nat} (hm : m < 16) (hn : n < 16) (cs : List Char) :
    lex ('\\' :: 'u' :: '0' :: '0' :: Hex.digit 'a' m :: Hex.digit 'a' n :: cs) =
      (lex cs).bind fun r => some (.unit (m * 16 + n) :: r.1, r.2) := by
  rw [lex, Hex.number?_two_digits hm hn]
  rfl

/-- An element that stands for a character by itself, whatever follows it. -/
def Spells (e : Element) (c : Char) : Prop :=
  ∀ rest, join (e :: rest) = (join rest).map (c :: ·)

theorem spells_plain (c : Char) : Spells (.plain c) c := fun _ => rfl

/-- A unit below the surrogates stands for the character of its number. -/
theorem spells_unit {n : Nat} (h : n < 0xD800) : Spells (.unit n) (Char.ofNat n) := by
  have high : isHighSurrogate n = false := by
    rw [isHighSurrogate, decide_eq_false (by omega), Bool.false_and]
  have low : isLowSurrogate n = false := by
    rw [isLowSurrogate, decide_eq_false (by omega), Bool.false_and]
  intro rest
  match rest with
  | [] => simp [join, high, low]
  | .plain c :: rest => simp [join, high, low]
  | .unit m :: rest => rw [join]; simp [high, low]

/-- The written form of a character is read as one element that stands for it. -/
theorem lex_writeChar (c : Char) : ∃ e, Spells e c ∧ ∀ cs, lex (writeChar c ++ cs) =
    (lex cs).bind fun r => some (e :: r.1, r.2) := by
  -- Seven characters have an escape of their own.
  have escape : ∀ e, escaped? e = some c → writeChar c = ['\\', e] →
      ∃ e, Spells e c ∧ ∀ cs, lex (writeChar c ++ cs) =
        (lex cs).bind fun r => some (e :: r.1, r.2) := by
    intro e he hw
    refine ⟨.plain c, spells_plain c, fun cs => ?_⟩
    rw [hw]
    exact lex_escape he cs
  by_cases hq : c = '"'
  · subst hq
    exact escape '"' rfl rfl
  by_cases hs : c = '\\'
  · subst hs
    exact escape '\\' rfl rfl
  by_cases hb : c = '\x08'
  · subst hb
    exact escape 'b' rfl rfl
  by_cases ht : c = '\t'
  · subst ht
    exact escape 't' rfl rfl
  by_cases hn : c = '\n'
  · subst hn
    exact escape 'n' rfl rfl
  by_cases hf : c = '\x0c'
  · subst hf
    exact escape 'f' rfl rfl
  by_cases hr : c = '\r'
  · subst hr
    exact escape 'r' rfl rfl
  by_cases hc : c < ' '
  · -- a control character without a letter of its own
    have small : c.toNat < 0x20 := hc
    have written : writeChar c = ['\\', 'u', '0', '0', Hex.digit 'a' (c.toNat / 16),
        Hex.digit 'a' (c.toNat % 16)] := by
      simp [writeChar, hq, hs, hb, ht, hn, hf, hr, hc]
    refine ⟨.unit c.toNat, ?_, fun cs => ?_⟩
    · have := spells_unit (n := c.toNat) (by omega)
      rwa [Char.ofNat_toNat] at this
    · have number : c.toNat / 16 * 16 + c.toNat % 16 = c.toNat := by omega
      rw [written]
      refine (lex_unit (by omega) (by omega) cs).trans ?_
      rw [number]
  · refine ⟨.plain c, spells_plain c, fun cs => ?_⟩
    have written : writeChar c = [c] := by simp [writeChar, hq, hs, hb, ht, hn, hf, hr, hc]
    rw [written]
    exact lex_plain hq hs hc cs

/-! ## Whole texts -/

/-- A written text is read up to its closing quote. -/
theorem lex_written (cs after : List Char) :
    ∃ es, join es = some cs ∧ lex (cs.flatMap writeChar ++ '"' :: after) = some (es, after) := by
  induction cs with
  | nil => exact ⟨[], rfl, rfl⟩
  | cons c cs ih =>
    obtain ⟨es, hj, hl⟩ := ih
    obtain ⟨e, he, hc⟩ := lex_writeChar c
    refine ⟨e :: es, by rw [he, hj]; rfl, ?_⟩
    rw [List.flatMap_cons, List.append_assoc, hc, hl]
    rfl

end Text

/-- A written text reads back, whatever follows it. -/
theorem text_write (s : String) (after : List Char) :
    text (s.toList.flatMap Text.writeChar ++ '"' :: after) = some (some s, after) := by
  obtain ⟨es, hj, hl⟩ := Text.lex_written s.toList after
  rw [text, hl]
  simp [hj]

end Json

end MountSpace
