import InterCore.Config.Message
import InterCore.Proofs.Bytes.Fields

/-!
# Messages as bytes

A message is got back whole from its bytes, whatever its fields say, and bytes are got back from the
message that they are read as, as far as a message reaches: what is missing of its data comes back
as zero bytes, and nothing is seen of what lies behind it. Text that was set as data reads back as
far as it fits.
-/

namespace InterCore

namespace Config.Message

open LittleEndian (decode32 decode32_append decode32_drop_take drop_encode32 encode32 fieldAt
  take_append_word32 value_take_encode32)

/-! ## From a message to bytes and back -/

/-- Where the fields of a message lie in its bytes. Numbers with a sign are there as words. -/
structure LaidOut (m : Message) (bytes : List UInt8) : Prop where
  length : bytes.length = 420
  seq : fieldAt bytes 0 4 = m.seq.toNat
  kind : fieldAt bytes 4 4 = m.kind.toNat
  index : fieldAt bytes 8 4 = m.index.toUInt32.toNat
  value : fieldAt bytes 12 4 = m.value.toUInt32.toNat
  dataLen : fieldAt bytes 16 4 = m.dataLen.toNat
  data : bytes.drop 20 = m.data.toList

theorem laidOut_encode (m : Message) : m.LaidOut m.encode where
  length := m.length_encode
  seq := by
    simp only [fieldAt, encode, List.append_assoc, List.drop_zero, value_take_encode32]
  kind := by
    simp only [fieldAt, encode, List.append_assoc, drop_encode32, List.drop_zero,
      value_take_encode32]
  index := by
    simp only [fieldAt, encode, List.append_assoc, drop_encode32, List.drop_zero,
      value_take_encode32]
  value := by
    simp only [fieldAt, encode, List.append_assoc, drop_encode32, List.drop_zero,
      value_take_encode32]
  dataLen := by
    simp only [fieldAt, encode, List.append_assoc, drop_encode32, List.drop_zero,
      value_take_encode32]
  data := by simp only [encode, List.append_assoc, drop_encode32, List.drop_zero]

theorem decode_encode (m : Message) : decode m.encode = .ok m := by
  have long : ¬m.encode.length < headerSize := by
    rw [length_encode]
    decide
  rw [decode, if_neg long]
  simp only [encode, headerSize, List.append_assoc, drop_encode32, decode32_append, List.drop_zero,
    Area.ofBytes_toList, Int32.toInt32_toUInt32]

/-- A message begins with its sequence number. -/
theorem decode32_encode (m : Message) : LittleEndian.decode32 m.encode = m.seq := by
  simp only [encode, List.append_assoc, decode32_append]

theorem validData_setData (m : Message) (bytes : List UInt8) :
    (m.setData bytes).validData = bytes.take dataSize := by
  have small : min bytes.length dataSize < UInt32.size :=
    Nat.lt_of_le_of_lt (Nat.min_le_right _ _) (by decide)
  show ((Area.ofBytes dataSize bytes).toList).take (UInt32.ofNat _).toNat = _
  rw [UInt32.toNat_ofNat_of_lt' small, Area.toList_ofBytes,
    take_fit bytes _ (Nat.min_le_left _ _) (Nat.min_le_right _ _), Nat.min_comm,
    ← List.take_eq_take_min]

/-! ## From bytes to a message and back -/

variable {bytes : List UInt8}

/-- The message that bytes are read as, if they are long enough. -/
def ofBytes (bytes : List UInt8) : Message where
  seq := decode32 bytes
  kind := decode32 (bytes.drop 4)
  index := (decode32 (bytes.drop 8)).toInt32
  value := (decode32 (bytes.drop 12)).toInt32
  dataLen := decode32 (bytes.drop 16)
  data := Area.ofBytes dataSize (bytes.drop headerSize)

theorem decode_of_short (short : bytes.length < headerSize) :
    decode bytes = .error .bufferTooSmall :=
  if_pos short

theorem decode_of_long (long : headerSize ≤ bytes.length) : decode bytes = .ok (ofBytes bytes) :=
  if_neg (Nat.not_lt.mpr long)

theorem decode_eq_error_iff :
    decode bytes = .error .bufferTooSmall ↔ bytes.length < headerSize := by
  constructor
  · intro refused
    refine Nat.lt_of_not_le fun long => ?_
    rw [decode_of_long long] at refused
    cases refused
  · exact decode_of_short

/-- The words come back as they stand, and the data as far as it is there. -/
theorem encode_ofBytes (long : headerSize ≤ bytes.length) :
    (ofBytes bytes).encode =
      bytes.take messageSize ++ List.replicate (messageSize - bytes.length) 0 := by
  have long : 20 ≤ bytes.length := long
  have first : encode32 (decode32 bytes) = bytes.take 4 := LittleEndian.encode32_decode32 (by omega)
  have data : fit dataSize (bytes.drop headerSize) =
      (bytes.drop 20).take 400 ++ List.replicate (420 - bytes.length) 0 := by
    rw [fit_eq, List.length_drop]
    show _ ++ List.replicate (400 - (bytes.length - 20)) 0 = _
    rw [show 400 - (bytes.length - 20) = 420 - bytes.length by omega]
    rfl
  simp only [encode, ofBytes, UInt32.toUInt32_toInt32, Area.toList_ofBytes]
  rw [first, take_append_word32 (by omega), take_append_word32 (by omega),
    take_append_word32 (by omega), take_append_word32 (by omega), data, ← List.append_assoc,
    ← List.take_add]
  rfl

/-- What lies behind a whole message is not looked at. -/
theorem decode_take (bytes : List UInt8) : decode (bytes.take messageSize) = decode bytes := by
  by_cases short : bytes.length < headerSize
  · rw [List.take_of_length_le (Nat.le_trans (Nat.le_of_lt short) (by decide))]
  · have long : headerSize ≤ bytes.length := Nat.le_of_not_lt short
    have long' : headerSize ≤ (bytes.take messageSize).length := by
      rw [List.length_take]
      exact Nat.le_min.mpr ⟨by decide, long⟩
    have first : decode32 (bytes.take messageSize) = decode32 bytes :=
      decode32_drop_take (j := 0) (by decide) bytes
    rw [decode_of_long long, decode_of_long long']
    simp only [ofBytes, first]
    rw [decode32_drop_take (by decide), decode32_drop_take (by decide),
      decode32_drop_take (by decide), decode32_drop_take (by decide), List.drop_take,
      Area.ofBytes_take (by decide)]

/-- A message is got back from its bytes, in which each field has its place. Bytes that are too
short for the words are refused, and only these. Any other bytes are got back from the message that
they are read as, cut or filled up with zero bytes to the size of a message; so they come back as
they are if they have that size, and what lies behind it makes no difference. -/
theorem message_tells_its_bytes :
    (∀ m : Message, decode m.encode = .ok m ∧ m.LaidOut m.encode) ∧
      (∀ bytes, decode bytes = .error .bufferTooSmall ↔ bytes.length < 20) ∧
      (∀ bytes : List UInt8, 20 ≤ bytes.length → ∃ m, decode bytes = .ok m ∧
        m.encode = bytes.take 420 ++ List.replicate (420 - bytes.length) 0) ∧
      (∀ bytes : List UInt8, bytes.length = 420 → ∃ m, decode bytes = .ok m ∧ m.encode = bytes) ∧
      ∀ bytes, decode (bytes.take 420) = decode bytes := by
  refine ⟨fun m => ⟨m.decode_encode, m.laidOut_encode⟩, fun _ => decode_eq_error_iff, ?_, ?_,
    decode_take⟩
  · intro bytes long
    exact ⟨_, decode_of_long long, encode_ofBytes long⟩
  · intro bytes whole
    have long : headerSize ≤ bytes.length := whole ▸ (by decide)
    refine ⟨_, decode_of_long long, ?_⟩
    rw [encode_ofBytes long, show messageSize = bytes.length from whole.symm, List.take_length,
      Nat.sub_self, List.replicate_zero, List.append_nil]

/-- A response without its data, and one byte of what was announced. -/
def shortResponse : List UInt8 :=
  [7, 0, 0, 0, 129, 0, 0, 0, 255, 255, 255, 255, 3, 0, 0, 0, 200, 1, 0, 0, 65]

theorem message_tells_its_bytes_of_short :
    ∃ m, decode shortResponse = .ok m ∧ m.seq = 7 ∧ m.index = -1 ∧ m.dataLen = 456 ∧
      m.encode = shortResponse ++ List.replicate 399 0 := by
  obtain ⟨-, -, read, -, -⟩ := message_tells_its_bytes
  obtain ⟨m, decoded, encoded⟩ := read shortResponse (by decide)
  have same : m = ofBytes shortResponse := (Except.ok.inj decoded).symm
  subst same
  exact ⟨_, decoded, by decide, by decide, by decide, encoded⟩

end Config.Message

end InterCore
