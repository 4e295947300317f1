import InterCore.Memory.Bus
import InterCore.Ring.Layout

/-!
# Descriptors and used elements

A descriptor says where a buffer is and how long it is. A used element says which buffer is handed
back and how much was written into it.
-/

namespace InterCore.Ring

/-- One entry of the descriptor table. -/
structure Descriptor where
  addr : UInt32
  /-- Upper half of the address, zero on this system. -/
  addrHigh : UInt32
  len : UInt32
  flags : UInt16
  /-- The descriptor that follows in a chain. -/
  next : UInt16
  deriving DecidableEq, Repr

namespace Descriptor

/-- Where the lower half of the address stands in a descriptor. -/
def addrOffset : Nat := 0

/-- Where the upper half of the address stands in a descriptor. -/
def addrHighOffset : Nat := 4

/-- Where the length of the buffer stands in a descriptor. -/
def lenOffset : Nat := 8

/-- Where the flags stand in a descriptor. -/
def flagsOffset : Nat := 12

/-- Where the next descriptor of the chain stands in a descriptor. -/
def nextOffset : Nat := 14

/-- The flag of a descriptor that goes on in another one. -/
def chained : UInt16 := 1

/-- The flag of a buffer that only the device writes. -/
def deviceWrites : UInt16 := 2

end Descriptor

/-- One entry of the used ring. -/
structure UsedElem where
  /-- The descriptor handed back. -/
  id : UInt32
  /-- The number of bytes written to its buffer. -/
  len : UInt32
  deriving DecidableEq, Repr

namespace UsedElem

/-- Where the descriptor stands in a used element. -/
def idOffset : Nat := 0

/-- Where the number of bytes stands in a used element. -/
def lenOffset : Nat := 4

end UsedElem

namespace Layout

/-- Reads descriptor `idx`. The index is not held against the size of the table. -/
def readDescriptor (l : Layout) (idx : UInt16) : OnBus Descriptor := do
  let start := l.descriptorAddr idx
  let addr ← Bus.read32 (start + Descriptor.addrOffset)
  let addrHigh ← Bus.read32 (start + Descriptor.addrHighOffset)
  let len ← Bus.read32 (start + Descriptor.lenOffset)
  let flags ← Bus.read16 (start + Descriptor.flagsOffset)
  let next ← Bus.read16 (start + Descriptor.nextOffset)
  return { addr, addrHigh, len, flags, next }

/-- Writes all of descriptor `idx`, field by field. -/
def writeDescriptor (l : Layout) (idx : UInt16) (d : Descriptor) : OnBus Unit := do
  let start := l.descriptorAddr idx
  Bus.write32 (start + Descriptor.addrOffset) d.addr
  Bus.write32 (start + Descriptor.addrHighOffset) d.addrHigh
  Bus.write32 (start + Descriptor.lenOffset) d.len
  Bus.write16 (start + Descriptor.flagsOffset) d.flags
  Bus.write16 (start + Descriptor.nextOffset) d.next

end Layout

end InterCore.Ring
