import InterCore.Fault

/-!
# Ring layout

A ring moves buffers between two cores. It is a table of descriptors, an available ring that one
core writes and a used ring that the other core writes, one after the other:

* at `base`, `num` descriptors of sixteen bytes;
* then the available ring: flags, a 16-bit index, `num` 16-bit entries and one more word;
* from the next multiple of 4096 on, the used ring: flags, a 16-bit index and `num` entries of
  eight bytes.

Both indices run freely through all 16-bit values. Entry number `i` stands in slot `i % num`, and
because `num` is a power of two the slots follow each other also where an index wraps.
-/

namespace InterCore.Ring

/-- Number of descriptors of a ring where nothing else is agreed. -/
def defaultSize : UInt16 := 256

/-- The used ring starts at a multiple of this. -/
def usedAlign : Nat := 4096

/-- Where a ring is, and how many descriptors it has. -/
structure Place where
  base : UInt32
  num : UInt16
  deriving DecidableEq, Repr

/-- The least multiple of `align` at or above `n`. -/
def roundUp (n align : Nat) : Nat :=
  (n + align - 1) / align * align

/-- Number of bytes of a descriptor. -/
def descriptorSize : Nat := 16

/-- Number of bytes of an entry of the used ring. -/
def usedElemSize : Nat := 8

namespace Place

/-- Start of the available ring, right behind the descriptors. -/
def avail (p : Place) : Nat :=
  p.base.toNat + descriptorSize * p.num.toNat

/-- End of the available ring: flags, index, the entries and the event word. -/
def availEnd (p : Place) : Nat :=
  p.avail + 4 + 2 * p.num.toNat + 2

/-- Start of the used ring. -/
def used (p : Place) : Nat :=
  roundUp p.availEnd usedAlign

/-- End of the ring, which is the end of the used ring. -/
def ringEnd (p : Place) : Nat :=
  p.used + 4 + usedElemSize * p.num.toNat

/-- Number of bytes from the start to the end of the ring, padding included. -/
def len (p : Place) : Nat :=
  p.ringEnd - p.base.toNat

end Place

/-- The number of bytes of a ring that starts on a page. -/
def byteSize (num : UInt16) : Nat :=
  Place.len ⟨0, num⟩

/-- A place at which a ring can be: its size is a power of two, and the ring ends within the address
space. -/
structure Layout extends Place where
  powerOfTwo : num.toNat.isPowerOfTwo
  inAddressSpace : toPlace.ringEnd < UInt32.size
  deriving DecidableEq

namespace Layout

/-- The layout of a ring of `num` descriptors at `base`. -/
def place (base : UInt32) (num : UInt16) : Except Fault Layout :=
  let p : Place := ⟨base, num⟩
  if powerOfTwo : p.num.toNat.isPowerOfTwo then
    if inAddressSpace : p.ringEnd < UInt32.size then
      .ok ⟨p, powerOfTwo, inAddressSpace⟩
    else
      .error .addressSpace
  else
    .error .ringSize

/-- The slot of entry number `idx` in either ring. -/
def slot (l : Layout) (idx : UInt16) : Nat :=
  idx.toNat % l.num.toNat

/-- Address of descriptor `idx`, which lies in the table only if `idx` is below `num`. -/
def descriptorAddr (l : Layout) (idx : UInt16) : Nat :=
  l.base.toNat + descriptorSize * idx.toNat

/-- Address of the available ring's flags. -/
def availFlagsAddr (l : Layout) : Nat :=
  l.avail

/-- Address of the available ring's index. -/
def availIdxAddr (l : Layout) : Nat :=
  l.avail + 2

/-- Address of entry number `idx` of the available ring. -/
def availEntryAddr (l : Layout) (idx : UInt16) : Nat :=
  l.avail + 4 + 2 * l.slot idx

/-- Address of the used ring's flags. -/
def usedFlagsAddr (l : Layout) : Nat :=
  l.used

/-- Address of the used ring's index. -/
def usedIdxAddr (l : Layout) : Nat :=
  l.used + 2

/-- Address of entry number `idx` of the used ring. -/
def usedEntryAddr (l : Layout) (idx : UInt16) : Nat :=
  l.used + 4 + usedElemSize * l.slot idx

end Layout

end InterCore.Ring
