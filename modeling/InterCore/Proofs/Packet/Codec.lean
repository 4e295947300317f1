import InterCore.Packet.Announcement
import InterCore.Packet.Header
import InterCore.Proofs.Bytes.Fields

/-!
# Headers and announcements as bytes

A header and its sixteen bytes tell each other. An announcement tells its forty bytes, but bytes
tell an announcement only up to the word for its purpose, in which every number but one means that
the channel comes.
-/

namespace InterCore

namespace LittleEndian

theorem encode32_inj {w w' : UInt32} : encode32 w = encode32 w' ↔ w = w' := by
  constructor
  · intro same
    rw [← decode32_encode32 w, same, decode32_encode32]
  · exact congrArg encode32

end LittleEndian

namespace Packet

open LittleEndian (decode16_append decode16_encode16 decode32 decode32_append decode32_encode32
  drop_encode16 drop_encode32 encode32 encode32_inj fieldAt take_append_word16 take_append_word32
  toNat_decode32 value_take_encode16 value_take_encode32)

/-! ## Headers -/

namespace Header

variable {bytes : List UInt8}

/-- Where the fields of a header lie in its bytes. -/
structure LaidOut (h : Header) (bytes : List UInt8) : Prop where
  length : bytes.length = 16
  src : fieldAt bytes 0 4 = h.src.toNat
  dst : fieldAt bytes 4 4 = h.dst.toNat
  reserved : fieldAt bytes 8 4 = h.reserved.toNat
  len : fieldAt bytes 12 2 = h.len.toNat
  flags : fieldAt bytes 14 2 = h.flags.toNat

theorem laidOut_encode (h : Header) : h.LaidOut h.encode where
  length := h.length_encode
  src := by
    simp only [fieldAt, encode, List.append_assoc, List.drop_zero, value_take_encode32]
  dst := by
    simp only [fieldAt, encode, List.append_assoc, drop_encode32, List.drop_zero,
      value_take_encode32]
  reserved := by
    simp only [fieldAt, encode, List.append_assoc, drop_encode32, List.drop_zero,
      value_take_encode32]
  len := by
    simp only [fieldAt, encode, List.append_assoc, drop_encode32, List.drop_zero,
      value_take_encode16]
  flags := by
    -- Nothing lies behind the last word.
    have last := value_take_encode16 h.flags []
    rw [List.append_nil] at last
    simp only [fieldAt, encode, List.append_assoc, drop_encode32, drop_encode16, List.drop_zero,
      last]

/-- A header is read back as it was written. -/
theorem decode_encode (h : Header) : decode h.encode = h := by
  simp only [decode, encode, srcOffset, dstOffset, reservedOffset, lenOffset, flagsOffset,
    List.append_assoc, drop_encode32, drop_encode16, List.drop_zero, decode32_append,
    decode16_append, decode16_encode16]

theorem encode_decode (whole : bytes.length = 16) : (decode bytes).encode = bytes := by
  have first : encode32 (decode32 (bytes.drop 0)) = bytes.take 4 :=
    LittleEndian.encode32_decode32 (by rw [List.drop_zero, whole]; decide)
  simp only [encode, decode, srcOffset, dstOffset, reservedOffset, lenOffset, flagsOffset]
  rw [first, take_append_word32 (by omega), take_append_word32 (by omega),
    take_append_word16 (by omega), take_append_word16 (by omega)]
  exact List.take_of_length_le (by omega)

end Header

/-! ## Announcements -/

theorem Purpose.toWord_ofWord (w : UInt32) : (ofWord w).toWord = if w = 1 then 1 else 0 := by
  rw [ofWord]
  split <;> rfl

theorem Purpose.ofWord_toWord (p : Purpose) : ofWord p.toWord = p := by
  cases p <;> rfl

namespace Announcement

variable {bytes : List UInt8}

/-- Where the fields of an announcement lie in its bytes. -/
structure LaidOut (a : Announcement) (bytes : List UInt8) : Prop where
  length : bytes.length = 40
  name : bytes.take 32 = a.name.toList
  addr : fieldAt bytes 32 4 = a.addr.toNat
  purpose : fieldAt bytes 36 4 = a.purpose.toWord.toNat

theorem take_encode (a : Announcement) (rest : List UInt8) :
    (a.encode ++ rest).take nameSize = a.name.toList := by
  simp only [encode, List.append_assoc]
  exact List.take_left' Vector.length_toList

theorem drop_encode (a : Announcement) (rest : List UInt8) (k : Nat) :
    (a.encode ++ rest).drop (nameSize + k) =
      (encode32 a.addr ++ (encode32 a.purpose.toWord ++ rest)).drop k := by
  rw [← List.drop_drop]
  congr 1
  simp only [encode, List.append_assoc]
  exact List.drop_left' Vector.length_toList

@[simp]
theorem length_encode (a : Announcement) : a.encode.length = size := by
  simp [encode, size]

theorem laidOut_encode (a : Announcement) : a.LaidOut a.encode := by
  have behind (k : Nat) := a.drop_encode [] k
  have before := a.take_encode []
  simp only [List.append_nil] at behind before
  have last := value_take_encode32 a.purpose.toWord []
  rw [List.append_nil] at last
  refine ⟨a.length_encode, before, ?_, ?_⟩
  · show LittleEndian.value ((a.encode.drop (nameSize + 0)).take 4) = _
    rw [behind, List.drop_zero, value_take_encode32]
  · show LittleEndian.value ((a.encode.drop (nameSize + 4)).take 4) = _
    rw [behind, drop_encode32, List.drop_zero, last]

/-- The announcement that bytes are read as, if they are long enough. -/
def ofBytes (bytes : List UInt8) : Announcement where
  name := Area.ofBytes nameSize bytes
  addr := decode32 (bytes.drop 32)
  purpose := .ofWord (decode32 (bytes.drop 36))

theorem decode_of_long (long : 40 ≤ bytes.length) : decode bytes = .ok (ofBytes bytes) :=
  if_neg (Nat.not_lt.mpr long)

theorem decode_eq_error_iff : decode bytes = .error .bufferTooSmall ↔ bytes.length < 40 := by
  constructor
  · intro refused
    refine Nat.lt_of_not_le fun long => ?_
    rw [decode_of_long long] at refused
    cases refused
  · exact fun short => if_pos short

/-- An announcement is read back as it was written, whatever lies behind it. -/
theorem decode_encode_append (a : Announcement) (rest : List UInt8) :
    decode (a.encode ++ rest) = .ok a := by
  have long : 40 ≤ (a.encode ++ rest).length := by
    rw [List.length_append, length_encode]
    exact Nat.le_add_right _ _
  have name : Area.ofBytes nameSize (a.encode ++ rest) = a.name := by
    rw [← Area.ofBytes_take (Nat.le_refl nameSize), take_encode, Area.ofBytes_toList]
  have addr : decode32 ((a.encode ++ rest).drop (nameSize + 0)) = a.addr := by
    rw [drop_encode, List.drop_zero, decode32_append]
  have purpose : decode32 ((a.encode ++ rest).drop (nameSize + 4)) = a.purpose.toWord := by
    rw [drop_encode, drop_encode32, List.drop_zero, decode32_append]
  rw [decode_of_long long, ofBytes, name]
  show Except.ok (⟨_, decode32 ((a.encode ++ rest).drop (nameSize + 0)),
    .ofWord (decode32 ((a.encode ++ rest).drop (nameSize + 4)))⟩ : Announcement) = _
  rw [addr, purpose, Purpose.ofWord_toWord]

/-- The bytes come back up to the word for the purpose, of which is kept whether it is one. -/
theorem encode_ofBytes (long : 40 ≤ bytes.length) :
    (ofBytes bytes).encode =
      bytes.take 36 ++ encode32 (if decode32 (bytes.drop 36) = 1 then 1 else 0) := by
  have name : fit nameSize bytes = bytes.take 32 := fit_of_le (Nat.le_trans (by decide) long)
  simp only [encode, ofBytes, Area.toList_ofBytes, name, Purpose.toWord_ofWord]
  rw [take_append_word32 (by omega)]

theorem encode_ofBytes_eq_take_iff (long : 40 ≤ bytes.length) :
    (ofBytes bytes).encode = bytes.take 40 ↔
      decode32 (bytes.drop 36) = 0 ∨ decode32 (bytes.drop 36) = 1 := by
  have whole : bytes.take 36 ++ encode32 (decode32 (bytes.drop 36)) = bytes.take 40 :=
    take_append_word32 (by omega)
  rw [encode_ofBytes long, ← whole, List.append_cancel_left_eq, encode32_inj]
  by_cases one : decode32 (bytes.drop 36) = 1
  · rw [if_pos one, one]
    simp
  · rw [if_neg one]
    simp [one, eq_comm]

/-- The word for the purpose as a number. -/
theorem decode32_drop_eq_iff (long : 40 ≤ bytes.length) (w : UInt32) :
    decode32 (bytes.drop 36) = w ↔ fieldAt bytes 36 4 = w.toNat := by
  have enough : 4 ≤ (bytes.drop 36).length := by
    rw [List.length_drop]
    omega
  have word := toNat_decode32 enough
  rw [← UInt32.toNat_inj, word, fieldAt, fieldAt, List.drop_zero]

end Announcement

/-- A header is got back from its bytes, and sixteen bytes from the header that they are read as. An
announcement is got back from its bytes, whatever lies behind them. Bytes that are too short for an
announcement are refused, and only these. Any other bytes come back from the announcement that they
are read as, except that the word for the purpose comes back as one if it was one, and as zero if it
was anything else. In both formats each field has its place. -/
theorem header_and_announcement_tell_their_bytes :
    (∀ h : Header, Header.decode h.encode = h ∧ h.LaidOut h.encode) ∧
      (∀ bytes : List UInt8, bytes.length = 16 → (Header.decode bytes).encode = bytes) ∧
      (∀ (a : Announcement) (rest : List UInt8),
        Announcement.decode (a.encode ++ rest) = .ok a ∧ a.LaidOut a.encode) ∧
      (∀ bytes, Announcement.decode bytes = .error .bufferTooSmall ↔ bytes.length < 40) ∧
      ∀ bytes : List UInt8, 40 ≤ bytes.length → ∃ a, Announcement.decode bytes = .ok a ∧
        a.encode = bytes.take 36 ++ (if fieldAt bytes 36 4 = 1 then [1, 0, 0, 0] else [0, 0, 0, 0]) ∧
        (a.encode = bytes.take 40 ↔ fieldAt bytes 36 4 = 0 ∨ fieldAt bytes 36 4 = 1) := by
  refine ⟨fun h => ⟨h.decode_encode, h.laidOut_encode⟩, fun _ => Header.encode_decode,
    fun a rest => ⟨a.decode_encode_append rest, a.laidOut_encode⟩,
    fun _ => Announcement.decode_eq_error_iff, ?_⟩
  intro bytes long
  have one : decode32 (bytes.drop 36) = 1 ↔ fieldAt bytes 36 4 = 1 :=
    Announcement.decode32_drop_eq_iff long 1
  have zero : decode32 (bytes.drop 36) = 0 ↔ fieldAt bytes 36 4 = 0 :=
    Announcement.decode32_drop_eq_iff long 0
  refine ⟨_, Announcement.decode_of_long long, ?_, ?_⟩
  · rw [Announcement.encode_ofBytes long]
    by_cases destroys : decode32 (bytes.drop 36) = 1
    · rw [if_pos destroys, if_pos (one.mp destroys)]
      rfl
    · rw [if_neg destroys, if_neg (mt one.mpr destroys)]
      rfl
  · rw [Announcement.encode_ofBytes_eq_take_iff long, zero, one]

/-- An announcement of the address 0x51 with no purpose that is known, and two more bytes. -/
def oddAnnouncement : List UInt8 :=
  List.replicate 32 0x78 ++ [0x51, 0, 0, 0, 2, 1, 0, 0, 7, 7]

theorem header_and_announcement_tell_their_bytes_of_odd :
    (Header.decode (oddAnnouncement.take 16)).encode = oddAnnouncement.take 16 ∧
      ∃ a, Announcement.decode oddAnnouncement = .ok a ∧ a.purpose = .create ∧
        a.encode = oddAnnouncement.take 36 ++ [0, 0, 0, 0] := by
  obtain ⟨-, header, -, -, read⟩ := header_and_announcement_tell_their_bytes
  refine ⟨header _ (by decide), ?_⟩
  obtain ⟨a, decoded, encoded, -⟩ := read oddAnnouncement (by decide)
  refine ⟨a, decoded, ?_, encoded.trans (by decide)⟩
  obtain rfl : Announcement.ofBytes oddAnnouncement = a :=
    Except.ok.inj ((Announcement.decode_of_long (by decide)).symm.trans decoded)
  decide

end Packet

end InterCore
