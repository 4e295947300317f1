import InterCore.Bytes.LittleEndian

/-!
# Packet headers

A packet fills one buffer: a header of sixteen bytes, then up to 496 bytes of payload. The header
names the sending and the receiving channel address and the payload's length.
-/

namespace InterCore.Packet

/-- Size of a buffer, header included. -/
def maxLen : Nat := 512

/-- Address that stands for "not known yet". -/
def anyAddr : UInt32 := 0xFFFFFFFF

/-- Address at which the driver's core receives announcements of channels. -/
def nameServiceAddr : UInt32 := 0x35

/-- What stands before the payload. The words `reserved` and `flags` are sent as zero. -/
structure Header where
  src : UInt32
  dst : UInt32
  reserved : UInt32 := 0
  len : UInt16
  flags : UInt16 := 0
  deriving DecidableEq, Repr

namespace Header

/-- Number of bytes of a header. -/
def size : Nat := 16

/-- Where the sender stands in a header. -/
def srcOffset : Nat := 0

/-- Where the receiver stands in a header. -/
def dstOffset : Nat := 4

/-- Where the reserved word stands in a header. -/
def reservedOffset : Nat := 8

/-- Where the length of the payload stands in a header. -/
def lenOffset : Nat := 12

/-- Where the flags stand in a header. -/
def flagsOffset : Nat := 14

/-- The bytes of a header in the order of its fields. -/
def encode (h : Header) : List UInt8 :=
  LittleEndian.encode32 h.src ++ LittleEndian.encode32 h.dst ++ LittleEndian.encode32 h.reserved
    ++ LittleEndian.encode16 h.len ++ LittleEndian.encode16 h.flags

/-- The header in the first sixteen bytes. -/
def decode (bytes : List UInt8) : Header where
  src := LittleEndian.decode32 (bytes.drop srcOffset)
  dst := LittleEndian.decode32 (bytes.drop dstOffset)
  reserved := LittleEndian.decode32 (bytes.drop reservedOffset)
  len := LittleEndian.decode16 (bytes.drop lenOffset)
  flags := LittleEndian.decode16 (bytes.drop flagsOffset)

@[simp]
theorem length_encode (h : Header) : h.encode.length = size := by
  simp [encode, size]

end Header

/-- Most payload bytes of one packet. -/
def maxPayload : Nat := maxLen - Header.size

end InterCore.Packet
