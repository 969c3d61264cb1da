import MountSpace.Path.Offsets
import MountSpace.Proofs.Path

/-!
# Separators in bytes and in text

A path can be cut at its separators before it is decoded or after. This comes to the same, because
a separator is a byte of its own: it is no part of the bytes of another character, and it ends
every ill-formed stretch.

- `cutInduction`: induction from one separator to the next.
- `Utf8.encode_prefix_iff`: the bytes of a text tell its beginnings.
- `Utf8.bytes_scan`: the pieces of a byte string make up the byte string, so that
  reading loses nothing.
- `Utf8.decodeLossy_append_separator`, `separator_mem_decodeLossy`: decoding neither hides a
  separator nor makes one.
- `Utf8.decodeLossy_eq_iff`: text without replacement characters is shown for its own bytes only.
-/

namespace MountSpace

/-- A list has no separator, or a first one with a list after it. -/
theorem cutInduction {α : Type} {x : α} {motive : List α → Prop} (free : ∀ l, x ∉ l → motive l)
    (cut : ∀ l m, x ∉ l → motive m → motive (l ++ x :: m)) (l : List α) : motive l := by
  by_cases h : x ∈ l
  · obtain ⟨before, after, rfl, none⟩ := List.eq_append_cons_of_mem h
    exact cut before after none (cutInduction free cut after)
  · exact free l h
termination_by l.length
decreasing_by
  subst_vars
  simp only [List.length_append, List.length_cons]
  omega

/-- The pieces of a text are the lists between its separators. -/
theorem Path.pieces_eq_splitOn (text : List Char) : pieces text = text.splitOn '/' := by
  induction text using cutInduction (x := '/') with
  | free l h => rw [pieces_free h, List.splitOn_eq_singleton h]
  | cut l m h ih => rw [pieces_append h, ih, List.splitOn_append_cons_self_of_not_mem h]

namespace Utf8

/-! ## Encoded text -/

theorem encode_append (a b : List Char) : encode (a ++ b) = encode a ++ encode b :=
  List.flatMap_append ..

theorem encode_cons (c : Char) (l : List Char) : encode (c :: l) = encodeChar c ++ encode l :=
  List.flatMap_cons ..

theorem encode_injective {a b : List Char} (h : encode a = encode b) : a = b := by
  rw [← decodeLossy_encode a, h, decodeLossy_encode]

/-- What follows an encoded text is read as if it stood alone. -/
theorem scan_encode_append (text : List Char) (rest : Bytes) :
    scan (encode text ++ rest) = text.map .char ++ scan rest := by
  induction text with
  | nil => rfl
  | cons c text ih =>
    rw [encode_cons, List.append_assoc, scan, scanFrom_encodeChar]
    exact congrArg _ ih

/-- The bytes of one text begin with those of another just if the text begins with the other. -/
theorem encode_prefix_iff {a b : List Char} : encode a <+: encode b ↔ a <+: b := by
  constructor
  · rintro ⟨rest, h⟩
    have read : a.map Piece.char ++ scan rest = b.map .char := by
      rw [← scan_encode_append, h, scan_encode]
    have shown := congrArg (List.map Piece.shown) read
    rw [List.map_append, List.map_map, List.map_map] at shown
    refine ⟨(scan rest).map Piece.shown, ?_⟩
    simpa [Function.comp_def, Piece.shown] using shown
  · rintro ⟨k, rfl⟩
    exact ⟨encode k, (encode_append a k).symm⟩

theorem encodeChar_ascii {c : Char} (h : c.toNat < 0x80) : encodeChar c = [c.toNat.toUInt8] :=
  if_pos h

theorem encode_separator_cons (l : List Char) : encode ('/' :: l) = separator :: encode l :=
  encode_cons '/' l

/-! ## What a pending sequence comes to -/

/-- How far the number of a pending sequence moves for each byte that is still to come. -/
def weight : Nat → Nat
  | 0 => 1
  | n + 1 => 64 * weight n

/-- The last bytes of a number that is spelled in several bytes. -/
def lastBytes : Nat → Nat → Bytes
  | 0, _ => []
  | n + 1, v => (0x80 + v / weight n % 64).toUInt8 :: lastBytes n v

/-- Whatever number a pending sequence comes to is that of a character, and the bytes of the
character begin with those that have been read. -/
structure Pending.Sound (p : Pending) : Prop where
  low : 0x80 ≤ p.low.toNat
  high : p.high.toNat ≤ 0xBF
  comes : ∀ v, (p.value * 64 + (p.low.toNat - 0x80)) * weight p.further ≤ v →
    v < (p.value * 64 + (p.high.toNat - 0x80) + 1) * weight p.further →
    ∃ c : Char, c.toNat = v ∧ encodeChar c = p.read ++ lastBytes (p.further + 1) v

theorem exists_char {v : Nat} (h : v < 0xD800 ∨ 0xDFFF < v ∧ v < 0x110000) :
    ∃ c : Char, c.toNat = v := by
  refine ⟨Char.ofNat v, ?_⟩
  rw [Char.ofNat, dif_pos h]
  rfl

theorem eq_toUInt8 {b : UInt8} {n : Nat} (h : n = b.toNat) : n.toUInt8 = b := by
  rw [h]
  exact UInt8.ofNat_toNat

/-- Sequences of two, three and four bytes, by the numbers that they can come to. -/
theorem encodeChar_long {c : Char} (h : 0x80 ≤ c.toNat) :
    (c.toNat < 0x800 ∧ encodeChar c = (0xC0 + c.toNat / weight 1).toUInt8 :: lastBytes 1 c.toNat) ∨
    (0x800 ≤ c.toNat ∧ c.toNat < 0x10000 ∧
      encodeChar c = (0xE0 + c.toNat / weight 2).toUInt8 :: lastBytes 2 c.toNat) ∨
    (0x10000 ≤ c.toNat ∧
      encodeChar c = (0xF0 + c.toNat / weight 3).toUInt8 :: lastBytes 3 c.toNat) := by
  rw [encodeChar, if_neg (Nat.not_lt.2 h)]
  have ones : c.toNat / weight 0 = c.toNat := Nat.div_one _
  by_cases two : c.toNat < 0x800
  · exact .inl ⟨two, by rw [if_pos two, lastBytes, lastBytes, ones]; rfl⟩
  rw [if_neg two]
  by_cases three : c.toNat < 0x10000
  · exact .inr (.inl ⟨Nat.not_lt.1 two, three,
      by rw [if_pos three, lastBytes, lastBytes, lastBytes, ones]; rfl⟩)
  · refine .inr (.inr ⟨Nat.not_lt.1 three, ?_⟩)
    rw [if_neg three, lastBytes, lastBytes, lastBytes, lastBytes, ones]
    rfl

/-- A first byte is sound if the numbers that it leaves open are those of characters
that begin with it. -/
theorem Pending.Sound.opened {b low high : UInt8} {base further : Nat} (le : base ≤ b.toNat)
    (hl : 0x80 ≤ low.toNat) (hh : high.toNat ≤ 0xBF)
    (comes : ∀ v, ((b.toNat - base) * 64 + (low.toNat - 0x80)) * weight further ≤ v →
      v < ((b.toNat - base) * 64 + (high.toNat - 0x80) + 1) * weight further →
      ∃ c : Char, c.toNat = v ∧
        encodeChar c = (base + v / weight (further + 1)).toUInt8 :: lastBytes (further + 1) v) :
    Pending.Sound ⟨[b], b.toNat - base, further, low, high⟩ where
  low := hl
  high := hh
  comes v least most := by
    obtain ⟨c, hc, bytes⟩ := comes v least most
    refine ⟨c, hc, bytes.trans ?_⟩
    have first : v / weight (further + 1) = b.toNat - base := by
      refine Nat.div_eq_of_lt_le ?_ ?_
      · refine Nat.le_trans ?_ least
        rw [weight, ← Nat.mul_assoc]
        exact Nat.mul_le_mul_right _ (Nat.le_add_right ..)
      · refine Nat.lt_of_lt_of_le most ?_
        rw [weight, ← Nat.mul_assoc]
        exact Nat.mul_le_mul_right _ (by dsimp only; omega)
    rw [first, Nat.add_sub_cancel' le, eq_toUInt8 rfl]
    rfl

/-- A bound on the next byte may depend on the first one. -/
theorem toNat_bound (b k x y : UInt8) :
    b.toNat = k.toNat ∧ (if b = k then x else y).toNat = x.toNat ∨
      b.toNat ≠ k.toNat ∧ (if b = k then x else y).toNat = y.toNat := by
  by_cases h : b = k
  · exact .inl ⟨congrArg UInt8.toNat h, by rw [if_pos h]⟩
  · exact .inr ⟨fun e => h (UInt8.toNat_inj.1 e), by rw [if_neg h]⟩

/-- A byte that opens a sequence leaves a pending one that is sound. -/
theorem lead_sound {b : UInt8} {p : Pending} (h : lead b = .opens p) : p.read = [b] ∧ p.Sound := by
  have ones : weight 0 = 1 := rfl
  have sixes : weight 1 = 64 := rfl
  have twelves : weight 2 = 4096 := rfl
  rw [lead] at h
  split at h
  next => cases h
  split at h
  next => cases h
  next ge =>
  have ge : 0xC2 ≤ b.toNat := UInt8.le_iff_toNat_le.1 (UInt8.not_lt.1 ge)
  split at h
  next lt =>
    have lt : b.toNat < 0xE0 := UInt8.lt_iff_toNat_lt.1 lt
    cases h
    refine ⟨rfl, .opened (by omega) (by decide) (by decide) fun v least most => ?_⟩
    have low : (0x80 : UInt8).toNat = 0x80 := rfl
    have high : (0xBF : UInt8).toNat = 0xBF := rfl
    rw [low, ones] at least
    rw [high, ones] at most
    obtain ⟨c, rfl⟩ := exists_char (v := v) (by omega)
    rcases encodeChar_long (c := c) (by omega) with ⟨-, bytes⟩ | ⟨no, -⟩ | ⟨no, -⟩
    · exact ⟨c, rfl, bytes⟩
    all_goals omega
  next ge' =>
  have ge' : 0xE0 ≤ b.toNat := UInt8.le_iff_toNat_le.1 (UInt8.not_lt.1 ge')
  split at h
  next lt =>
    have lt : b.toNat < 0xF0 := UInt8.lt_iff_toNat_lt.1 lt
    cases h
    refine ⟨rfl, .opened ge' (by split <;> decide) (by split <;> decide) fun v least most => ?_⟩
    have low := toNat_bound b 0xE0 0xA0 0x80
    have high := toNat_bound b 0xED 0x9F 0xBF
    simp only [UInt8.reduceToNat] at low high
    rw [sixes] at least most
    obtain ⟨c, rfl⟩ := exists_char (v := v) (by omega)
    rcases encodeChar_long (c := c) (by omega) with ⟨no, -⟩ | ⟨-, -, bytes⟩ | ⟨no, -⟩
    · omega
    · exact ⟨c, rfl, bytes⟩
    · omega
  next ge' =>
  have ge' : 0xF0 ≤ b.toNat := UInt8.le_iff_toNat_le.1 (UInt8.not_lt.1 ge')
  split at h
  next lt =>
    have lt : b.toNat < 0xF5 := UInt8.lt_iff_toNat_lt.1 lt
    cases h
    refine ⟨rfl, .opened ge' (by split <;> decide) (by split <;> decide) fun v least most => ?_⟩
    have low := toNat_bound b 0xF0 0x90 0x80
    have high := toNat_bound b 0xF4 0x8F 0xBF
    simp only [UInt8.reduceToNat] at low high
    rw [twelves] at least most
    obtain ⟨c, rfl⟩ := exists_char (v := v) (by omega)
    rcases encodeChar_long (c := c) (by omega) with ⟨no, -⟩ | ⟨-, no, -⟩ | ⟨-, bytes⟩
    · omega
    · omega
    · exact ⟨c, rfl, bytes⟩
  next => cases h

/-- A byte in the bounds leaves the sequence sound. -/
theorem Pending.Sound.continues {p : Pending} (sound : p.Sound) {b : UInt8}
    (low : p.low.toNat ≤ b.toNat) (high : b.toNat ≤ p.high.toNat) {n : Nat}
    (h : p.further = n + 1) :
    Pending.Sound ⟨p.read ++ [b], p.value * 64 + (b.toNat - 0x80), n, 0x80, 0xBF⟩ where
  low := Nat.le_refl _
  high := Nat.le_refl _
  comes v least most := by
    have := sound.low
    have := sound.high
    have weighs : weight p.further = 64 * weight n := by rw [h, weight]
    -- The numbers that the longer sequence can come to are a part of those that it
    -- could come to before.
    have first : (0x80 : UInt8).toNat = 0x80 := rfl
    have last : (0xBF : UInt8).toNat = 0xBF := rfl
    dsimp only at least most
    rw [first, Nat.sub_self, Nat.add_zero, Nat.mul_assoc, ← weighs] at least
    rw [last, Nat.add_assoc, ← Nat.succ_mul, Nat.mul_assoc, ← weighs] at most
    obtain ⟨c, hc, bytes⟩ := sound.comes v (Nat.le_trans (Nat.mul_le_mul_right _ (by omega)) least)
      (Nat.lt_of_lt_of_le most (Nat.mul_le_mul_right _ (by omega)))
    refine ⟨c, hc, ?_⟩
    have digit : v / weight p.further = p.value * 64 + (b.toNat - 0x80) :=
      Nat.div_eq_of_lt_le least most
    have next : (0x80 + v / weight p.further % 64).toUInt8 = b := eq_toUInt8 (by rw [digit]; omega)
    rw [bytes, lastBytes, next, h, List.append_assoc]
    rfl

/-- A last byte in the bounds completes a character, which has the bytes that were read. -/
theorem Pending.Sound.completes {p : Pending} (sound : p.Sound) {b : UInt8}
    (low : p.low.toNat ≤ b.toNat) (high : b.toNat ≤ p.high.toNat) (h : p.further = 0) :
    encodeChar (Char.ofNat (p.value * 64 + (b.toNat - 0x80))) = p.read ++ [b] := by
  have := sound.low
  have := sound.high
  obtain ⟨c, hc, bytes⟩ := sound.comes (p.value * 64 + (b.toNat - 0x80)) (by rw [h, weight]; omega)
    (by rw [h, weight]; omega)
  have next : (0x80 + (p.value * 64 + (b.toNat - 0x80)) / weight p.further % 64).toUInt8 = b :=
    eq_toUInt8 (by rw [h, weight]; omega)
  rw [← hc, Char.ofNat_toNat, bytes, lastBytes, next, h, lastBytes]

/-! ## What a scan does -/

/-- A byte that cannot continue a pending sequence is looked at afresh. -/
theorem scanFrom_breaks {p : Pending} {b : UInt8}
    (h : ¬(p.low.toNat ≤ b.toNat ∧ b.toNat ≤ p.high.toNat)) (rest : Bytes) :
    scanFrom (some p) (b :: rest) = .invalid p.read :: scanFrom none (b :: rest) := by
  have outside : ¬(p.low ≤ b ∧ b ≤ p.high) := fun bounds =>
    h ⟨UInt8.le_iff_toNat_le.1 bounds.1, UInt8.le_iff_toNat_le.1 bounds.2⟩
  conv => lhs; rw [scanFrom, if_neg outside]
  rfl

/-- Induction along a scan, which has only sound sequences pending. -/
theorem scanInduction {motive : Option Pending → Bytes → Prop} (done : motive none [])
    (cut : ∀ p : Pending, p.Sound → motive (some p) [])
    (ascii : ∀ b rest, lead b = .ascii → motive none rest → motive none (b :: rest))
    (stray : ∀ b rest, lead b = .stray → motive none rest → motive none (b :: rest))
    (opens : ∀ b p rest, lead b = .opens p → motive (some p) rest → motive none (b :: rest))
    (completes : ∀ (p : Pending) b rest, p.Sound → p.low.toNat ≤ b.toNat → b.toNat ≤ p.high.toNat →
      p.further = 0 → motive none rest → motive (some p) (b :: rest))
    (continues : ∀ (p : Pending) b rest n, p.Sound → p.low.toNat ≤ b.toNat →
      b.toNat ≤ p.high.toNat → p.further = n + 1 →
      motive (some ⟨p.read ++ [b], p.value * 64 + (b.toNat - 0x80), n, 0x80, 0xBF⟩) rest →
      motive (some p) (b :: rest))
    (breaks : ∀ (p : Pending) b rest, p.Sound → ¬(p.low.toNat ≤ b.toNat ∧ b.toNat ≤ p.high.toNat) →
      motive none (b :: rest) → motive (some p) (b :: rest)) (bytes : Bytes) :
    motive none bytes ∧ ∀ p : Pending, p.Sound → motive (some p) bytes := by
  induction bytes with
  | nil => exact ⟨done, cut⟩
  | cons b rest ih =>
    have afresh : motive none (b :: rest) := by
      cases hb : lead b with
      | ascii => exact ascii b rest hb ih.1
      | stray => exact stray b rest hb ih.1
      | opens p => exact opens b p rest hb (ih.2 p (lead_sound hb).2)
    refine ⟨afresh, fun p sound => ?_⟩
    by_cases bounds : p.low.toNat ≤ b.toNat ∧ b.toNat ≤ p.high.toNat
    · cases h : p.further with
      | zero => exact completes p b rest sound bounds.1 bounds.2 h ih.1
      | succ n =>
        exact continues p b rest n sound bounds.1 bounds.2 h
          (ih.2 _ (sound.continues bounds.1 bounds.2 h))
    · exact breaks p b rest sound bounds afresh

/-- The bytes that a piece was read from. -/
def Piece.bytes : Piece → Bytes
  | .char c => encodeChar c
  | .invalid bytes => bytes

theorem lead_ascii_iff {b : UInt8} : lead b = .ascii ↔ b.toNat < 0x80 := by
  refine ⟨fun h => ?_, lead_ascii⟩
  rw [lead] at h
  split at h
  next lt => exact UInt8.lt_iff_toNat_lt.1 lt
  all_goals repeat' split at h
  all_goals cases h

theorem scanFrom_ascii {b : UInt8} (h : lead b = .ascii) (rest : Bytes) :
    scanFrom none (b :: rest) = .char (Char.ofNat b.toNat) :: scanFrom none rest := by
  rw [scanFrom, h]

theorem scanFrom_stray {b : UInt8} (h : lead b = .stray) (rest : Bytes) :
    scanFrom none (b :: rest) = .invalid [b] :: scanFrom none rest := by
  rw [scanFrom, h]

/-- A byte of ASCII is that character. -/
theorem encodeChar_ofNat {b : UInt8} (h : b.toNat < 0x80) :
    encodeChar (Char.ofNat b.toNat) = [b] := by
  obtain ⟨c, hc⟩ := exists_char (v := b.toNat) (by omega)
  rw [← hc, Char.ofNat_toNat, encodeChar_ascii (hc ▸ h), eq_toUInt8 hc]

/-- **Reading loses nothing**: the pieces of a byte string, one after the other, make
up the byte string. -/
theorem bytes_scan (bytes : Bytes) : (scan bytes).flatMap Piece.bytes = bytes := by
  -- What has been read of a pending sequence comes before the rest.
  let motive : Option Pending → Bytes → Prop := fun s rest =>
    (scanFrom s rest).flatMap Piece.bytes = (s.map Pending.read).getD [] ++ rest
  refine (scanInduction (motive := motive) rfl ?cut ?ascii ?stray ?opens ?completes ?continues
    ?breaks bytes).1
  case cut =>
    intro p _
    rfl
  case ascii =>
    intro b rest hb ih
    show (scanFrom none (b :: rest)).flatMap Piece.bytes = b :: rest
    rw [scanFrom_ascii hb, List.flatMap_cons, Piece.bytes,
      encodeChar_ofNat (lead_ascii_iff.1 hb), ih]
    rfl
  case stray =>
    intro b rest hb ih
    show (scanFrom none (b :: rest)).flatMap Piece.bytes = b :: rest
    rw [scanFrom_stray hb, List.flatMap_cons, Piece.bytes, ih]
    rfl
  case opens =>
    intro b p rest hb ih
    show (scanFrom none (b :: rest)).flatMap Piece.bytes = b :: rest
    rw [scanFrom_opens hb, ih, Option.map_some, Option.getD_some, (lead_sound hb).1]
    rfl
  case completes =>
    intro p b rest sound low high h ih
    show (scanFrom (some p) (b :: rest)).flatMap Piece.bytes = p.read ++ b :: rest
    rw [scanFrom_completes low high h, List.flatMap_cons, Piece.bytes,
      sound.completes low high h, ih]
    simp
  case continues =>
    intro p b rest n sound low high h ih
    show (scanFrom (some p) (b :: rest)).flatMap Piece.bytes = p.read ++ b :: rest
    rw [scanFrom_continues low high h, ih]
    simp
  case breaks =>
    intro p b rest _ outside ih
    show (scanFrom (some p) (b :: rest)).flatMap Piece.bytes = p.read ++ b :: rest
    rw [scanFrom_breaks outside, List.flatMap_cons, ih]
    rfl

/-! ## Separators -/

/-- A separator ends what is pending, and is read as itself. -/
theorem scan_append_separator (a b : Bytes) :
    scan (a ++ separator :: b) = scan a ++ .char '/' :: scan b := by
  let motive : Option Pending → Bytes → Prop := fun s rest =>
    scanFrom s (rest ++ separator :: b) = scanFrom s rest ++ .char '/' :: scan b
  refine (scanInduction (motive := motive) rfl ?cut ?ascii ?stray ?opens ?completes ?continues
    ?breaks a).1
  case cut =>
    intro p sound
    have outside : ¬(p.low.toNat ≤ separator.toNat ∧ separator.toNat ≤ p.high.toNat) :=
      fun bounds => absurd (Nat.le_trans sound.low bounds.1) (by decide)
    exact scanFrom_breaks outside b
  case ascii =>
    intro c rest hc ih
    show scanFrom none (c :: (rest ++ separator :: b)) =
      scanFrom none (c :: rest) ++ .char '/' :: scan b
    rw [scanFrom_ascii hc, scanFrom_ascii hc, show scanFrom none (rest ++ _) = _ from ih,
      List.cons_append]
  case stray =>
    intro c rest hc ih
    show scanFrom none (c :: (rest ++ separator :: b)) =
      scanFrom none (c :: rest) ++ .char '/' :: scan b
    rw [scanFrom_stray hc, scanFrom_stray hc, show scanFrom none (rest ++ _) = _ from ih,
      List.cons_append]
  case opens =>
    intro c p rest hc ih
    show scanFrom none (c :: (rest ++ separator :: b)) =
      scanFrom none (c :: rest) ++ .char '/' :: scan b
    rw [scanFrom_opens hc, scanFrom_opens hc, show scanFrom (some p) (rest ++ _) = _ from ih]
  case completes =>
    intro p c rest _ low high h ih
    show scanFrom (some p) (c :: (rest ++ separator :: b)) =
      scanFrom (some p) (c :: rest) ++ .char '/' :: scan b
    rw [scanFrom_completes low high h, scanFrom_completes low high h,
      show scanFrom none (rest ++ _) = _ from ih, List.cons_append]
  case continues =>
    intro p c rest n _ low high h ih
    show scanFrom (some p) (c :: (rest ++ separator :: b)) =
      scanFrom (some p) (c :: rest) ++ .char '/' :: scan b
    rw [scanFrom_continues low high h, scanFrom_continues low high h]
    exact ih
  case breaks =>
    intro p c rest _ outside ih
    show scanFrom (some p) (c :: (rest ++ separator :: b)) =
      scanFrom (some p) (c :: rest) ++ .char '/' :: scan b
    rw [scanFrom_breaks outside, scanFrom_breaks outside,
      show scanFrom none (c :: (rest ++ _)) = _ from ih, List.cons_append]

theorem decodeLossy_append_separator (a b : Bytes) :
    decodeLossy (a ++ separator :: b) = decodeLossy a ++ '/' :: decodeLossy b := by
  rw [decodeLossy, scan_append_separator, List.map_append, List.map_cons]
  rfl

/-- Only a character itself is shown as the character, the replacement character apart. -/
theorem eq_char_of_shown {x : Piece} {c : Char} (h : x.shown = c) (plain : c ≠ '\uFFFD') :
    x = .char c := by
  cases x with
  | char c' => rw [show c' = c from h]
  | invalid bytes => exact absurd h.symm plain

/-- Text without replacement characters is decoded from its own bytes only. -/
theorem decodeLossy_eq_iff {bytes : Bytes} {text : List Char} (plain : '\uFFFD' ∉ text) :
    decodeLossy bytes = text ↔ bytes = encode text := by
  refine ⟨fun h => ?_, fun h => by rw [h, decodeLossy_encode]⟩
  have pieces : scan bytes = text.map .char := by
    rw [← h, decodeLossy, List.map_map]
    refine ((List.map_congr_left fun x mem => ?_).trans (List.map_id _)).symm
    have shown : x.shown ∈ text := h ▸ List.mem_map_of_mem mem
    exact (eq_char_of_shown rfl fun e => plain (e ▸ shown)).symm
  rw [← bytes_scan bytes, pieces, List.flatMap_map]
  rfl

/-- A separator is shown just where there is one. -/
theorem separator_mem_decodeLossy {bytes : Bytes} :
    '/' ∈ decodeLossy bytes ↔ separator ∈ bytes := by
  constructor
  · intro mem
    obtain ⟨x, hx, shown⟩ := List.mem_map.1 mem
    have piece := eq_char_of_shown shown (by decide)
    rw [← bytes_scan bytes]
    exact List.mem_flatMap.2 ⟨x, hx, by rw [piece]; exact List.mem_singleton_self separator⟩
  · intro mem
    obtain ⟨a, b, rfl⟩ := List.append_of_mem mem
    rw [decodeLossy_append_separator]
    exact List.mem_append_right _ List.mem_cons_self

end Utf8

end MountSpace
