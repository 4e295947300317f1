import InterCore.Error
import InterCore.Ring.Descriptor

/-!
# Placement of the rings

Where the two rings of a link are. Either the addresses and the size are known, or the other core
has entered them in a resource table. Both ways end in the same checks: the size is a power of two,
and each address is assigned and aligned.
-/

namespace InterCore.Link

/-- What a resource table says of one ring. -/
structure ResourceEntry where
  /-- Address of the ring, filled in by the other core. -/
  address : UInt32
  align : UInt32
  num : UInt32
  notifyId : UInt32
  reserved : UInt32
  deriving DecidableEq, Repr

namespace ResourceEntry

/-- Where the address stands in an entry. -/
def addressOffset : Nat := 0

/-- Where the alignment stands in an entry. -/
def alignOffset : Nat := 4

/-- Where the number of descriptors stands in an entry. -/
def numOffset : Nat := 8

/-- Where the identifier of the interrupt stands in an entry. -/
def notifyIdOffset : Nat := 12

/-- Where the reserved word stands in an entry. -/
def reservedOffset : Nat := 16

/-- Reads the entry at `addr`. -/
def read (addr : Nat) : OnBus ResourceEntry := do
  let address ← Bus.read32 (addr + addressOffset)
  let align ← Bus.read32 (addr + alignOffset)
  let num ← Bus.read32 (addr + numOffset)
  let notifyId ← Bus.read32 (addr + notifyIdOffset)
  let reserved ← Bus.read32 (addr + reservedOffset)
  return { address, align, num, notifyId, reserved }

end ResourceEntry

/-- Where the rings of a link are, and how many descriptors each of them has. -/
structure Rings where
  tx : UInt32
  rx : UInt32
  num : UInt16
  deriving DecidableEq, Repr

namespace Rings

/-- An address at which a ring may be. -/
def checkAddr (addr : UInt32) : Answer Unit :=
  if addr = 0 then .error .unassigned
  else if addr.toNat % 16 ≠ 0 then .error .notAligned
  else .ok ()

/-- A number of descriptors that a ring may have. -/
def checkSize (num : UInt16) : Answer Unit :=
  if num.toNat.isPowerOfTwo then .ok () else .error .invalidRingSize

/-- The rings, if their size and both addresses may be used. The size is looked at first. -/
def check (r : Rings) : Answer Rings := do
  checkSize r.num
  checkAddr r.tx
  checkAddr r.rx
  return r

/-- The rings of two resource table entries, which have to agree on the size. -/
def ofEntries (tx rx : ResourceEntry) : Answer Rings :=
  if tx.num ≠ rx.num then .error .invalidRingSize
  else if tx.num.toNat < UInt16.size then .ok ⟨tx.address, rx.address, tx.num.toUInt16⟩
  else .error .invalidRingSize

end Rings

/-- How the rings are found. -/
inductive Placement where
  | direct (rings : Rings)
  | resourceTable (txEntry rxEntry : UInt32)
  deriving DecidableEq, Repr

namespace Placement

/-- The placement where nothing is assigned yet. -/
def unassigned : Placement :=
  .direct ⟨0, 0, Ring.defaultSize⟩

/-- Finds the rings and checks them. -/
def resolve : Placement → OnBus (Answer Rings)
  | direct rings => return rings.check
  | resourceTable txEntry rxEntry => do
    let tx ← ResourceEntry.read txEntry.toNat
    let rx ← ResourceEntry.read rxEntry.toNat
    return Rings.ofEntries tx rx >>= Rings.check

end Placement

end InterCore.Link
