import MountSpace.Text.Utf8

/-!
# Encoded text

The automaton reads the bytes of a character as that character, whatever follows
(`scanFrom_encodeChar`). So a whole text is read back from its bytes, by the strict reader
(`decode?_encode`) and by the lossy one (`decodeLossy_encode`) alike. The bytes of texts are in the
order that the texts are in (`encode_lt_iff`).
-/

namespace MountSpace.Utf8

theorem toNat_toUInt8 {n : Nat} (h : n < 256) : n.toUInt8.toNat = n := by
  rw [Nat.toUInt8_eq, UInt8.toNat_ofNat']
  exact Nat.mod_eq_of_lt h

theorem not_lt_of_toNat_le {b : UInt8} (k : UInt8) (h : k.toNat ≤ b.toNat) : ¬b < k := by
  rw [UInt8.lt_iff_toNat_lt]
  omega

/-- A lower bound that depends on the lead byte. -/
theorem ite_toNat_le {b k x y : UInt8} {m : Nat} (eq : b.toNat = k.toNat → x.toNat ≤ m)
    (other : y.toNat ≤ m) : (if b = k then x else y).toNat ≤ m := by
  split
  next h => exact eq (congrArg UInt8.toNat h)
  next => exact other

/-- An upper bound that depends on the lead byte. -/
theorem le_ite_toNat {b k x y : UInt8} {m : Nat} (eq : b.toNat = k.toNat → m ≤ x.toNat)
    (other : m ≤ y.toNat) : m ≤ (if b = k then x else y).toNat := by
  split
  next h => exact eq (congrArg UInt8.toNat h)
  next => exact other

/-! ## One byte at a time -/

theorem lead_ascii {b : UInt8} (h : b.toNat < 0x80) : lead b = .ascii :=
  if_pos (UInt8.lt_iff_toNat_lt.2 h)

theorem lead_two {b : UInt8} (low : 0xC2 ≤ b.toNat) (high : b.toNat < 0xE0) :
    lead b = .opens ⟨[b], b.toNat - 0xC0, 0, 0x80, 0xBF⟩ := by
  have h₁ : ¬b < 0x80 := not_lt_of_toNat_le _ (Nat.le_trans (by decide) low)
  rw [lead, if_neg h₁, if_neg (not_lt_of_toNat_le 0xC2 low),
    if_pos (UInt8.lt_iff_toNat_lt.2 high)]

theorem lead_three {b : UInt8} (low : 0xE0 ≤ b.toNat) (high : b.toNat < 0xF0) :
    lead b = .opens ⟨[b], b.toNat - 0xE0, 1, if b = 0xE0 then 0xA0 else 0x80,
      if b = 0xED then 0x9F else 0xBF⟩ := by
  have h₁ : ¬b < 0x80 := not_lt_of_toNat_le _ (Nat.le_trans (by decide) low)
  have h₂ : ¬b < 0xC2 := not_lt_of_toNat_le _ (Nat.le_trans (by decide) low)
  rw [lead, if_neg h₁, if_neg h₂, if_neg (not_lt_of_toNat_le 0xE0 low),
    if_pos (UInt8.lt_iff_toNat_lt.2 high)]

theorem lead_four {b : UInt8} (low : 0xF0 ≤ b.toNat) (high : b.toNat < 0xF5) :
    lead b = .opens ⟨[b], b.toNat - 0xF0, 2, if b = 0xF0 then 0x90 else 0x80,
      if b = 0xF4 then 0x8F else 0xBF⟩ := by
  have h₁ : ¬b < 0x80 := not_lt_of_toNat_le _ (Nat.le_trans (by decide) low)
  have h₂ : ¬b < 0xC2 := not_lt_of_toNat_le _ (Nat.le_trans (by decide) low)
  have h₃ : ¬b < 0xE0 := not_lt_of_toNat_le _ (Nat.le_trans (by decide) low)
  rw [lead, if_neg h₁, if_neg h₂, if_neg h₃, if_neg (not_lt_of_toNat_le 0xF0 low),
    if_pos (UInt8.lt_iff_toNat_lt.2 high)]

theorem scanFrom_opens {b : UInt8} {p : Pending} (h : lead b = .opens p) (rest : Bytes) :
    scanFrom none (b :: rest) = scanFrom (some p) rest := by
  rw [scanFrom, h]

/-- A byte in the bounds of a pending sequence adds its six low bits. -/
theorem scanFrom_continues {p : Pending} {b : UInt8} (low : p.low.toNat ≤ b.toNat)
    (high : b.toNat ≤ p.high.toNat) {n : Nat} (h : p.further = n + 1) (rest : Bytes) :
    scanFrom (some p) (b :: rest) =
      scanFrom (some ⟨p.read ++ [b], p.value * 64 + (b.toNat - 0x80), n, 0x80, 0xBF⟩) rest := by
  rw [scanFrom, if_pos ⟨UInt8.le_iff_toNat_le.2 low, UInt8.le_iff_toNat_le.2 high⟩, h]

/-- The last byte of a pending sequence completes the character. -/
theorem scanFrom_completes {p : Pending} {b : UInt8} (low : p.low.toNat ≤ b.toNat)
    (high : b.toNat ≤ p.high.toNat) (h : p.further = 0) (rest : Bytes) :
    scanFrom (some p) (b :: rest) =
      .char (Char.ofNat (p.value * 64 + (b.toNat - 0x80))) :: scanFrom none rest := by
  rw [scanFrom, if_pos ⟨UInt8.le_iff_toNat_le.2 low, UInt8.le_iff_toNat_le.2 high⟩, h]

/-! ## One character at a time -/

/-- The numbers of characters: below the surrogates, or above them and at most U+10FFFF. -/
theorem toNat_bounds (c : Char) : c.toNat < 0xD800 ∨ 0xDFFF < c.toNat ∧ c.toNat < 0x110000 :=
  c.valid

/-- The bytes of a character are read as that character. The bounds on the second byte hold because
no character is a surrogate or lies past U+10FFFF. -/
theorem scanFrom_encodeChar (c : Char) (rest : Bytes) :
    scanFrom none (encodeChar c ++ rest) = .char c :: scanFrom none rest := by
  have bounds := toNat_bounds c
  have spell : ∀ n, n = c.toNat → Piece.char (Char.ofNat n) = .char c := fun n h => by
    rw [h, Char.ofNat_toNat]
  unfold encodeChar
  generalize hn : c.toNat = n at bounds spell
  simp only
  -- One case for each number of bytes.
  by_cases h₁ : n < 0x80
  · have hb : n.toUInt8.toNat = n := toNat_toUInt8 (by omega)
    rw [if_pos h₁, List.singleton_append, scanFrom, lead_ascii (by omega)]
    simp only [hb, spell n rfl]
  rw [if_neg h₁]
  by_cases h₂ : n < 0x800
  · have hb₀ : (0xC0 + n / 64).toUInt8.toNat = 0xC0 + n / 64 := toNat_toUInt8 (by omega)
    have hb₁ : (0x80 + n % 64).toUInt8.toNat = 0x80 + n % 64 := toNat_toUInt8 (by omega)
    rw [if_pos h₂, List.cons_append, List.singleton_append,
      scanFrom_opens (lead_two (by omega) (by omega)),
      scanFrom_completes (by rw [hb₁]; exact Nat.le_add_right ..)
        (by rw [hb₁]; show _ ≤ 0xBF; omega) rfl, spell]
    simp only [hb₀, hb₁]
    omega
  rw [if_neg h₂]
  by_cases h₃ : n < 0x10000
  · have hb₀ : (0xE0 + n / 4096).toUInt8.toNat = 0xE0 + n / 4096 := toNat_toUInt8 (by omega)
    have hb₁ : (0x80 + n / 64 % 64).toUInt8.toNat = 0x80 + n / 64 % 64 := toNat_toUInt8 (by omega)
    have hb₂ : (0x80 + n % 64).toUInt8.toNat = 0x80 + n % 64 := toNat_toUInt8 (by omega)
    rw [if_pos h₃, List.cons_append, List.cons_append, List.singleton_append,
      scanFrom_opens (lead_three (by omega) (by omega)),
      scanFrom_continues ?low ?high rfl,
      scanFrom_completes (by rw [hb₂]; exact Nat.le_add_right ..)
        (by rw [hb₂]; show _ ≤ 0xBF; omega) rfl, spell]
    -- The bounds on the second byte are tighter after the first leading byte, and after 0xED.
    case low =>
      refine ite_toNat_le (fun h => ?_) (by rw [hb₁]; exact Nat.le_add_right ..)
      rw [hb₀] at h
      rw [hb₁]
      have : n / 4096 = 0 := by simpa using h
      show 0xA0 ≤ _
      omega
    case high =>
      refine le_ite_toNat (fun h => ?_) (by rw [hb₁]; show _ ≤ 0xBF; omega)
      rw [hb₀] at h
      rw [hb₁]
      have : 0xE0 + n / 4096 = 0xED := h
      show _ ≤ 0x9F
      omega
    simp only [hb₀, hb₁, hb₂]
    omega
  rw [if_neg h₃]
  have hb₀ : (0xF0 + n / 262144).toUInt8.toNat = 0xF0 + n / 262144 := toNat_toUInt8 (by omega)
  have hb₁ : (0x80 + n / 4096 % 64).toUInt8.toNat = 0x80 + n / 4096 % 64 :=
    toNat_toUInt8 (by omega)
  have hb₂ : (0x80 + n / 64 % 64).toUInt8.toNat = 0x80 + n / 64 % 64 := toNat_toUInt8 (by omega)
  have hb₃ : (0x80 + n % 64).toUInt8.toNat = 0x80 + n % 64 := toNat_toUInt8 (by omega)
  rw [List.cons_append, List.cons_append, List.cons_append, List.singleton_append,
    scanFrom_opens (lead_four (by omega) (by omega)),
    scanFrom_continues ?low ?high rfl,
    scanFrom_continues (by rw [hb₂]; exact Nat.le_add_right ..)
      (by rw [hb₂]; show _ ≤ 0xBF; omega) rfl,
    scanFrom_completes (by rw [hb₃]; exact Nat.le_add_right ..)
      (by rw [hb₃]; show _ ≤ 0xBF; omega) rfl, spell]
  case low =>
    refine ite_toNat_le (fun h => ?_) (by rw [hb₁]; exact Nat.le_add_right ..)
    rw [hb₀] at h
    rw [hb₁]
    have : n / 262144 = 0 := by simpa using h
    show 0x90 ≤ _
    omega
  case high =>
    refine le_ite_toNat (fun h => ?_) (by rw [hb₁]; show _ ≤ 0xBF; omega)
    rw [hb₀] at h
    rw [hb₁]
    have : 0xF0 + n / 262144 = 0xF4 := h
    show _ ≤ 0x8F
    omega
  simp only [hb₀, hb₁, hb₂, hb₃]
  omega

/-! ## Whole texts -/

theorem scan_encode : ∀ text : List Char, scan (encode text) = text.map .char
  | [] => rfl
  | c :: rest => by
    have ih := scan_encode rest
    rw [encode, List.flatMap_cons, scan, scanFrom_encodeChar, List.map_cons]
    exact congrArg _ ih

/-- The lossy reader loses nothing of an encoded text. -/
@[simp] theorem decodeLossy_encode (text : List Char) : decodeLossy (encode text) = text := by
  rw [decodeLossy, scan_encode, List.map_map]
  exact List.map_id text

/-- The strict reader reads an encoded text. -/
@[simp] theorem decode?_encode (text : List Char) : decode? (encode text) = some text := by
  rw [decode?, scan_encode]
  induction text with
  | nil => rfl
  | cons c rest ih => rw [List.map_cons, List.mapM_cons, ih]; rfl

/-! ## The order of texts -/

/-- Of two byte strings the leading bytes decide, and where these are equal what follows them. -/
theorem cons_lt_cons {m n : Nat} {l l' : Bytes} (small : n < 256) (le : m ≤ n)
    (rest : m = n → l < l') : m.toUInt8 :: l < n.toUInt8 :: l' := by
  rw [List.cons_lt_cons_iff]
  rcases Nat.lt_or_eq_of_le le with lt | e
  · refine .inl ?_
    rwa [UInt8.lt_iff_toNat_lt, toNat_toUInt8 (Nat.lt_trans lt small), toNat_toUInt8 small]
  · exact .inr ⟨congrArg Nat.toUInt8 e, rest e⟩

/-- The bytes of a lesser character are less, whatever follows them. -/
theorem encodeChar_lt {c d : Char} (h : c < d) (l l' : Bytes) :
    encodeChar c ++ l < encodeChar d ++ l' := by
  have lt : c.toNat < d.toNat := h
  have bound : d.toNat < 0x110000 := by
    rcases toNat_bounds d with low | ⟨-, high⟩ <;> omega
  rw [encodeChar, encodeChar]
  generalize c.toNat = m at lt
  generalize d.toNat = n at lt bound
  -- Longer sequences open with greater bytes, and sequences of one length compare digit by digit.
  split
  · split
    · exact cons_lt_cons (by omega) (by omega) fun e => absurd e (by omega)
    · split
      · exact cons_lt_cons (by omega) (by omega) fun e => absurd e (by omega)
      · split <;> exact cons_lt_cons (by omega) (by omega) fun e => absurd e (by omega)
  · rw [if_neg (show ¬n < 0x80 by omega)]
    split
    · split
      · exact cons_lt_cons (by omega) (by omega) fun _ =>
          cons_lt_cons (by omega) (by omega) fun e => absurd e (by omega)
      · split <;> exact cons_lt_cons (by omega) (by omega) fun e => absurd e (by omega)
    · rw [if_neg (show ¬n < 0x800 by omega)]
      split
      · split
        · exact cons_lt_cons (by omega) (by omega) fun _ =>
              cons_lt_cons (by omega) (by omega) fun _ =>
            cons_lt_cons (by omega) (by omega) fun e => absurd e (by omega)
        · exact cons_lt_cons (by omega) (by omega) fun e => absurd e (by omega)
      · rw [if_neg (show ¬n < 0x10000 by omega)]
        exact cons_lt_cons (by omega) (by omega) fun _ =>
            cons_lt_cons (by omega) (by omega) fun _ =>
          cons_lt_cons (by omega) (by omega) fun _ => cons_lt_cons (by omega) (by omega) fun e =>
            absurd e (by omega)

theorem encodeChar_ne_nil (c : Char) : encodeChar c ≠ [] := by
  rw [encodeChar]
  split
  · exact List.cons_ne_nil _ _
  · split
    · exact List.cons_ne_nil _ _
    · split <;> exact List.cons_ne_nil _ _

theorem encode_lt {text text' : List Char} (h : text < text') : encode text < encode text' := by
  induction text generalizing text' with
  | nil =>
    cases text' with
    | nil => exact absurd h (List.lt_irrefl [])
    | cons d rest' =>
      rw [encode, encode, List.flatMap_cons]
      cases hd : encodeChar d with
      | nil => exact absurd hd (encodeChar_ne_nil d)
      | cons b l => exact List.nil_lt_cons b _
  | cons c rest ih =>
    cases text' with
    | nil => exact absurd h (List.not_lt_nil _)
    | cons d rest' =>
      rw [encode, encode, List.flatMap_cons, List.flatMap_cons]
      rcases List.cons_lt_cons_iff.1 h with lt | ⟨rfl, lt⟩
      · exact encodeChar_lt lt _ _
      · exact List.append_left_lt (ih lt)

/-- **Texts and their bytes are in the same order.** -/
theorem encode_lt_iff {text text' : List Char} : encode text < encode text' ↔ text < text' := by
  refine ⟨fun h => ?_, encode_lt⟩
  refine Classical.byContradiction fun not => ?_
  by_cases e : text' = text
  · exact Std.lt_irrefl (e ▸ h)
  · exact Std.lt_irrefl (Std.lt_trans h (encode_lt (Std.lt_of_le_of_ne (Std.not_lt.1 not) e)))

end MountSpace.Utf8
