import MountSpace.Inode.Basic

/-!
# The inode format

The fields of a record are written at the offsets at which they are read, and lie there without a
gap. So a record is what its bytes decode to, and bytes are what the record encodes to that they
decode to: there is one record for each string of bytes that is long enough and ends in ASCII.

- `Inode.Adjoining`, `writeOver_adjoining`: chunks written one behind the other.
- `Inode.writeFields_eq`, `encode_eq`: the fields written over a buffer are the
  header and the content id.
- `Inode.decode_encode`, `encode_of_decode`: reading after writing, and writing after reading.
- `Inode.format_exact`: the format as a whole.
-/

namespace MountSpace.Inode

/-! ## Fields -/

@[simp] theorem length_littleEndian : ∀ (width n : Nat), (littleEndian width n).length = width
  | 0, _ => rfl
  | width + 1, n => by rw [littleEndian, List.length_cons, length_littleEndian width]

/-- The bytes of a number give it back up to the bits they can hold. -/
theorem ofLittleEndian_littleEndian :
    ∀ (width n : Nat), ofLittleEndian (littleEndian width n) = n % Nat.pow 256 width
  | 0, n => (Nat.mod_one n).symm
  | width + 1, n => by
    have hpow : Nat.pow 256 (width + 1) = 256 * Nat.pow 256 width := Nat.mul_comm ..
    rw [littleEndian, ofLittleEndian, ofLittleEndian_littleEndian width, hpow, Nat.mod_mul]
    congr 1

/-- The bytes of a number that fits give it back. -/
theorem ofLittleEndian_of_lt {width n : Nat} (h : n < Nat.pow 256 width) :
    ofLittleEndian (littleEndian width n) = n := by
  rw [ofLittleEndian_littleEndian, Nat.mod_eq_of_lt h]

/-- A field between what stands before and after it. -/
theorem field_append (before chunk after : Bytes) :
    field (before ++ (chunk ++ after)) before.length chunk.length = ofLittleEndian chunk := by
  rw [field, List.drop_left, List.take_left]

/-! ## Writing -/

/-- The bytes before the content id. -/
def header (i : Inode) : Bytes :=
  littleEndian 4 i.dev.toNat ++ littleEndian 4 i.ino.toNat ++ littleEndian 4 i.size.toNat
    ++ littleEndian 2 i.mode.toNat ++ littleEndian 8 i.atime.bits.toNat
    ++ littleEndian 8 i.mtime.bits.toNat ++ littleEndian 8 i.ctime.bits.toNat

@[simp] theorem length_header (i : Inode) : i.header.length = headerLength := by
  simp [header, headerLength]

@[simp] theorem length_idBytes (i : Inode) : i.idBytes.length = i.contentId.toList.length :=
  List.length_map ..

/-- Each chunk begins where the one before it ends, and the first one at a given offset. -/
def Adjoining : Nat → List (Nat × Bytes) → Prop
  | _, [] => True
  | start, (offset, chunk) :: rest => offset = start ∧ Adjoining (start + chunk.length) rest

theorem writeOver_append (before chunk after : Bytes) :
    writeOver (before ++ after) before.length chunk =
    before ++ chunk ++ after.drop chunk.length := by
  simp [writeOver]

/-- Chunks written one behind the other stand behind each other, and the rest of
the buffer is kept. -/
theorem writeOver_adjoining (chunks : List (Nat × Bytes)) (before after : Bytes)
    (adjoining : Adjoining before.length chunks) :
    chunks.foldl (fun buffer field => writeOver buffer field.1 field.2) (before ++ after) =
      before ++ chunks.flatMap (·.2) ++ after.drop (chunks.flatMap (·.2)).length := by
  induction chunks generalizing before after with
  | nil => simp
  | cons field rest ih =>
    obtain ⟨offset, chunk⟩ := field
    obtain ⟨rfl, adjoining⟩ := adjoining
    rw [← List.length_append] at adjoining
    rw [List.foldl_cons, writeOver_append, ih _ _ adjoining]
    simp

theorem layout_adjoining (i : Inode) : Adjoining 0 i.layout := by
  simp [Adjoining, layout, headerLength]

theorem flatMap_layout (i : Inode) : i.layout.flatMap (·.2) = i.header ++ i.idBytes := by
  simp [layout, header]

/-- The fields take up the length of the record, and the rest of a buffer is kept. -/
theorem writeFields_eq (i : Inode) (buffer : Bytes) :
    i.writeFields buffer = i.header ++ i.idBytes ++ buffer.drop i.encodedLength := by
  have written := writeOver_adjoining i.layout [] buffer (layout_adjoining i)
  rw [flatMap_layout] at written
  simpa [writeFields, encodedLength] using written

/-- The bytes of a record are its header and its content id. -/
theorem encode_eq (i : Inode) : i.encode = i.header ++ i.idBytes := by
  simp [encode, writeFields_eq]

theorem length_encode (i : Inode) : i.encode.length = i.encodedLength := by
  simp [encode_eq, encodedLength]

/-- A record written over a buffer of its length leaves nothing of the buffer. -/
theorem writeFields_eq_encode {i : Inode} {buffer : Bytes} (h : buffer.length = i.encodedLength) :
    i.writeFields buffer = i.encode := by
  simp [writeFields_eq, encode_eq, ← h]

/-! ## Reading what was written -/

/-- The fields of a header, each read at its offset. -/
theorem fields_header (i : Inode) (after : Bytes) :
    field (i.header ++ after) 0 4 = i.dev.toNat ∧ field (i.header ++ after) 4 4 = i.ino.toNat ∧
    field (i.header ++ after) 8 4 = i.size.toNat ∧ field (i.header ++ after) 12 2 = i.mode.toNat ∧
    field (i.header ++ after) 14 8 = i.atime.bits.toNat ∧
    field (i.header ++ after) 22 8 = i.mtime.bits.toNat ∧
    field (i.header ++ after) 30 8 = i.ctime.bits.toNat := by
  have read : ∀ (before : Bytes) (width n : Nat) (rest : Bytes), n < Nat.pow 256 width →
      field (before ++ (littleEndian width n ++ rest)) before.length width = n := by
    intro before width n rest h
    have := field_append before (littleEndian width n) rest
    rw [length_littleEndian, ofLittleEndian_of_lt h] at this
    exact this
  have h32 : ∀ n : UInt32, n.toNat < Nat.pow 256 4 := fun n => n.toNat_lt
  have h16 : ∀ n : UInt16, n.toNat < Nat.pow 256 2 := fun n => n.toNat_lt
  have h64 : ∀ n : UInt64, n.toNat < Nat.pow 256 8 := fun n => n.toNat_lt
  simp only [header, List.append_assoc]
  refine ⟨read [] 4 _ _ (h32 _), ?_, ?_, ?_, ?_, ?_, ?_⟩
  · simpa using read (littleEndian 4 i.dev.toNat) 4 _ _ (h32 i.ino)
  · simpa using read (littleEndian 4 i.dev.toNat ++ littleEndian 4 i.ino.toNat) 4 _ _ (h32 i.size)
  · simpa using read (littleEndian 4 i.dev.toNat ++ littleEndian 4 i.ino.toNat
      ++ littleEndian 4 i.size.toNat) 2 _ _ (h16 i.mode)
  · simpa using read (littleEndian 4 i.dev.toNat ++ littleEndian 4 i.ino.toNat
      ++ littleEndian 4 i.size.toNat ++ littleEndian 2 i.mode.toNat) 8 _ _ (h64 i.atime.bits)
  · simpa using read (littleEndian 4 i.dev.toNat ++ littleEndian 4 i.ino.toNat
      ++ littleEndian 4 i.size.toNat ++ littleEndian 2 i.mode.toNat
      ++ littleEndian 8 i.atime.bits.toNat) 8 _ _ (h64 i.mtime.bits)
  · simpa using read (littleEndian 4 i.dev.toNat ++ littleEndian 4 i.ino.toNat
      ++ littleEndian 4 i.size.toNat ++ littleEndian 2 i.mode.toNat
      ++ littleEndian 8 i.atime.bits.toNat ++ littleEndian 8 i.mtime.bits.toNat) 8 _ after
      (h64 i.ctime.bits)

/-! ## The content id -/

theorem ofNat_toUInt8 {c : Char} (h : c.toNat < 128) : Char.ofNat c.toNat.toUInt8.toNat = c := by
  have : c.toNat.toUInt8.toNat = c.toNat := by
    rw [Nat.toUInt8_eq, UInt8.toNat_ofNat']
    exact Nat.mod_eq_of_lt (by omega)
  rw [this, Char.ofNat_toNat]

/-- The bytes after the header spell the content id. -/
theorem contentId_tail (i : Inode) :
    String.ofList ((i.encode.drop headerLength).map fun b => Char.ofNat b.toNat) = i.contentId := by
  rw [encode_eq, ← length_header i, List.drop_left, idBytes, List.map_map]
  have spelled : i.contentId.toList.map ((fun b : UInt8 => Char.ofNat b.toNat) ∘
      fun c => c.toNat.toUInt8) = i.contentId.toList := by
    conv => rhs; rw [← List.map_id i.contentId.toList]
    exact List.map_congr_left fun c hc => ofNat_toUInt8 (i.ascii c hc)
  rw [spelled]
  exact String.ofList_toList

/-- A record is what its bytes decode to. -/
theorem decode_encode (i : Inode) : decode i.encode = .ok i := by
  have long : ¬i.encode.length < headerLength := by
    rw [length_encode, encodedLength]
    omega
  have ascii : IsAscii (String.ofList
      ((i.encode.drop headerLength).map fun b => Char.ofNat b.toNat)) := by
    rw [contentId_tail]
    exact i.ascii
  obtain ⟨hdev, hino, hsize, hmode, hatime, hmtime, hctime⟩ :=
    fields_header i i.idBytes
  have fields := contentId_tail i
  unfold decode
  simp only [if_neg long, dif_pos ascii]
  simp only [encode_eq] at fields ⊢
  simp only [hdev, hino, hsize, hmode, hatime, hmtime, hctime, fields]
  simp

/-! ## Writing what was read -/

theorem ofLittleEndian_lt (bytes : Bytes) : ofLittleEndian bytes < Nat.pow 256 bytes.length := by
  induction bytes with
  | nil => exact Nat.one_pos
  | cons b rest ih =>
    have low := b.toNat_lt
    have hpow : Nat.pow 256 (rest.length + 1) = 256 * Nat.pow 256 rest.length := Nat.mul_comm ..
    rw [ofLittleEndian, List.length_cons, hpow]
    omega

/-- The number in some bytes gives them back. -/
theorem littleEndian_ofLittleEndian (bytes : Bytes) :
    littleEndian bytes.length (ofLittleEndian bytes) = bytes := by
  induction bytes with
  | nil => rfl
  | cons b rest ih =>
    have low := b.toNat_lt
    have first : (b.toNat + 256 * ofLittleEndian rest).toUInt8 = b := by
      rw [← UInt8.toNat_inj, Nat.toUInt8_eq, UInt8.toNat_ofNat']
      omega
    have others : (b.toNat + 256 * ofLittleEndian rest) / 256 = ofLittleEndian rest := by omega
    rw [ofLittleEndian, List.length_cons, littleEndian, first, others, ih]

section

variable {bytes : Bytes} {offset width : Nat} (inside : offset + width ≤ bytes.length)
include inside

theorem field_lt : field bytes offset width < Nat.pow 256 width := by
  have length : ((bytes.drop offset).take width).length = width := by
    rw [List.length_take, List.length_drop]
    omega
  have := ofLittleEndian_lt ((bytes.drop offset).take width)
  rwa [length] at this

/-- The bytes of a field are those that its number is written with. -/
theorem littleEndian_field :
    littleEndian width (field bytes offset width) = (bytes.drop offset).take width := by
  have length : ((bytes.drop offset).take width).length = width := by
    rw [List.length_take, List.length_drop]
    omega
  have := littleEndian_ofLittleEndian ((bytes.drop offset).take width)
  rwa [length] at this

end

/-- The bytes of two fields of which the second follows the first. -/
theorem take_drop_append (bytes : Bytes) (offset width width' : Nat) :
    (bytes.drop offset).take width ++ (bytes.drop (offset + width)).take width' =
      (bytes.drop offset).take (width + width') := by
  rw [List.take_add, List.drop_drop]

theorem toNat_ofNat_byte (b : UInt8) : (Char.ofNat b.toNat).toNat = b.toNat := by
  have valid : b.toNat.isValidChar := .inl (by have := b.toNat_lt; omega)
  rw [Char.ofNat, dif_pos valid]
  rfl

/-- Bytes spell an ASCII text just if they are ASCII. -/
theorem isAscii_ofList {bytes : Bytes} :
    IsAscii (String.ofList (bytes.map fun b => Char.ofNat b.toNat)) ↔ ∀ b ∈ bytes, b < 128 := by
  simp [IsAscii, toNat_ofNat_byte, UInt8.lt_iff_toNat_lt]

/-- The fields that are read from bytes, each at its offset, make up the beginning of the bytes. -/
theorem header_fields {bytes : Bytes} (long : headerLength ≤ bytes.length) (contentId : String)
    (ascii : IsAscii contentId) :
    header {
      contentId, ascii
      dev := (field bytes 0 4).toUInt32
      ino := (field bytes 4 4).toUInt32
      size := (field bytes 8 4).toUInt32
      mode := (field bytes 12 2).toUInt16
      atime := ⟨(field bytes 14 8).toUInt64⟩
      mtime := ⟨(field bytes 22 8).toUInt64⟩
      ctime := ⟨(field bytes 30 8).toUInt64⟩ } = bytes.take headerLength := by
  have long : 38 ≤ bytes.length := long
  -- A number that was read in a field fits the type of the field.
  have fits32 : ∀ offset, offset + 4 ≤ bytes.length →
      littleEndian 4 (field bytes offset 4).toUInt32.toNat = (bytes.drop offset).take 4 := by
    intro offset inside
    rw [Nat.toUInt32_eq, UInt32.toNat_ofNat', Nat.mod_eq_of_lt (field_lt inside),
      littleEndian_field inside]
  have fits16 : littleEndian 2 (field bytes 12 2).toUInt16.toNat = (bytes.drop 12).take 2 := by
    have inside : 12 + 2 ≤ bytes.length := by omega
    rw [Nat.toUInt16_eq, UInt16.toNat_ofNat', Nat.mod_eq_of_lt (field_lt inside),
      littleEndian_field inside]
  have fits64 : ∀ offset, offset + 8 ≤ bytes.length →
      littleEndian 8 (field bytes offset 8).toUInt64.toNat = (bytes.drop offset).take 8 := by
    intro offset inside
    rw [Nat.toUInt64_eq, UInt64.toNat_ofNat', Nat.mod_eq_of_lt (field_lt inside),
      littleEndian_field inside]
  rw [header]
  dsimp only
  rw [fits32 0 (by omega), fits32 4 (by omega), fits32 8 (by omega), fits16, fits64 14 (by omega),
    fits64 22 (by omega), fits64 30 (by omega)]
  rw [take_drop_append bytes 0 4 4, take_drop_append bytes 0 8 4, take_drop_append bytes 0 12 2,
    take_drop_append bytes 0 14 8, take_drop_append bytes 0 22 8, take_drop_append bytes 0 30 8]
  rfl

/-- The characters that are read from bytes are written as these bytes. -/
theorem idBytes_chars {bytes : Bytes} :
    (String.ofList (bytes.map fun b => Char.ofNat b.toNat)).toList.map (fun c => c.toNat.toUInt8) =
      bytes := by
  rw [String.toList_ofList, List.map_map]
  conv => rhs; rw [← List.map_id bytes]
  refine List.map_congr_left fun b _ => ?_
  simp [toNat_ofNat_byte]

/-- A record is what some bytes decode to only if it encodes to them. -/
theorem encode_of_decode {bytes : Bytes} {i : Inode} (h : decode bytes = .ok i) :
    i.encode = bytes := by
  unfold decode at h
  dsimp only at h
  split at h
  next => cases h
  next long =>
    split at h
    next ascii =>
      cases h
      rw [encode_eq, header_fields (Nat.le_of_not_lt long), idBytes, idBytes_chars,
        List.take_append_drop]
    next => cases h

/-- What can be decoded is long enough to hold a header, and ASCII from there on. -/
theorem decode_isOk_iff {bytes : Bytes} :
    (∃ i, decode bytes = .ok i) ↔
      headerLength ≤ bytes.length ∧ ∀ b ∈ bytes.drop headerLength, b < 128 := by
  rw [← isAscii_ofList]
  unfold decode
  dsimp only
  by_cases short : bytes.length < headerLength
  · rw [if_pos short]
    exact ⟨fun ⟨_, h⟩ => (by cases h), fun h => absurd h.1 (Nat.not_le_of_lt short)⟩
  · rw [if_neg short]
    split
    next ascii => exact ⟨fun _ => ⟨Nat.le_of_not_lt short, ascii⟩, fun _ => ⟨_, rfl⟩⟩
    next other => exact ⟨fun ⟨_, h⟩ => (by cases h), fun h => absurd h.2 other⟩

/-! ## The format as a whole -/

/-- An ASCII text takes one byte for each character. -/
theorem utf8ByteSize_of_isAscii {text : String} (ascii : IsAscii text) :
    text.utf8ByteSize = text.toList.length := by
  have sized : ∀ chars : List Char, (∀ c ∈ chars, c.toNat < 128) →
      (String.ofList chars).utf8ByteSize = chars.length := by
    intro chars all
    induction chars with
    | nil => rfl
    | cons c chars ih =>
      have one : c.utf8Size = 1 := by
        have small := all c List.mem_cons_self
        exact Char.utf8Size_eq_one_iff.2 (UInt32.le_iff_toNat_le.2 (Nat.le_of_lt_succ small))
      have rest := ih fun d mem => all d (List.mem_cons_of_mem c mem)
      rw [← List.singleton_append, String.ofList_append, String.utf8ByteSize_append, rest,
        ← String.singleton_eq_ofList, String.utf8ByteSize_singleton, one, List.length_append]
      rfl
  have whole := sized text.toList ascii
  rwa [String.ofList_toList] at whole

/-- A record goes to the start of a buffer that it fits, and a buffer that it does
not fit is left alone. -/
theorem writeTo_eq (i : Inode) (buffer : Bytes) :
    i.writeTo buffer =
      if i.encodedLength ≤ buffer.length then
        (.ok i.encodedLength, i.encode ++ buffer.drop i.encodedLength)
      else (.error (.bufferTooSmall i.encodedLength buffer.length), buffer) := by
  rw [writeTo]
  by_cases short : buffer.length < i.encodedLength
  · rw [if_pos short, if_neg (Nat.not_le_of_lt short)]
  · have room : i.encodedLength ≤ buffer.length := Nat.le_of_not_lt short
    rw [if_neg short, if_pos room, writeFields_eq_encode (List.length_take_of_le room)]

/-- **The format is exact**: records and the strings of bytes that are long enough to hold a header
and ASCII from there on correspond to each other one by one, bit for bit; and a record is written
into a buffer where its bytes fit, with nothing else in the buffer changed. -/
theorem format_exact (i : Inode) (bytes : Bytes) :
    make i.contentId i.dev i.ino i.size i.mode i.atime i.mtime i.ctime = .ok i ∧
    i.encodedLength = 38 + i.contentId.utf8ByteSize ∧ i.encode.length = i.encodedLength ∧
    decode i.encode = .ok i ∧ (decode bytes = .ok i ↔ i.encode = bytes) ∧
    ((∃ j, decode bytes = .ok j) ↔ 38 ≤ bytes.length ∧ ∀ b ∈ bytes.drop 38, b < 128) ∧
    i.writeTo bytes =
      if i.encodedLength ≤ bytes.length then (.ok i.encodedLength,
        i.encode ++ bytes.drop i.encodedLength)
      else (.error (.bufferTooSmall i.encodedLength bytes.length), bytes) := by
  refine ⟨dif_pos i.ascii, ?_, length_encode i, decode_encode i, ⟨encode_of_decode, ?_⟩,
    decode_isOk_iff, writeTo_eq i bytes⟩
  · rw [utf8ByteSize_of_isAscii i.ascii]
    rfl
  · rintro rfl
    exact decode_encode i

end MountSpace.Inode
