import InterCore.Ring.Descriptor

/-!
# The device end of a ring

The device takes the buffers that the driver offers and hands each one back through the used ring.
It writes no index but the used ring's and keeps to itself how far it has read the available ring.
-/

namespace InterCore.Ring

/-- The device end: the ring, and the number of the next available entry to take. -/
structure Device where
  layout : Layout
  tail : UInt16 := 0
  deriving DecidableEq

namespace Device

/-- The device end of a ring that the driver has set up. -/
def attach (base : UInt32) (num : UInt16) : Except Fault Device := do
  return { layout := ← Layout.place base num }

/-- Takes the next available entry, if the driver has offered one that was not taken yet. -/
def take? (d : Device) : OnBus (Option UInt16 × Device) := do
  let head ← Bus.read16 d.layout.availIdxAddr
  if head = d.tail then
    return (none, d)
  let idx ← Bus.read16 (d.layout.availEntryAddr d.tail)
  return (some idx, { d with tail := d.tail + 1 })

/-- Whether an entry is there to be taken. -/
def hasIncoming (d : Device) : OnBus Bool := do
  let head ← Bus.read16 d.layout.availIdxAddr
  return head != d.tail

/-- Writes the cache back over the whole ring. -/
def flush (d : Device) : OnBus Unit :=
  Bus.flush d.layout.base.toNat d.layout.len

/-- Unchains descriptor `idx`, which the driver may have left chained. -/
def unchain (d : Device) (idx : UInt16) : OnBus Unit := do
  let addr := d.layout.descriptorAddr idx
  let flags ← Bus.read16 (addr + Descriptor.flagsOffset)
  Bus.write16 (addr + Descriptor.flagsOffset) (flags &&& ~~~ Descriptor.chained)
  Bus.write16 (addr + Descriptor.nextOffset) 0

/-- Hands descriptor `idx` back with `len` bytes written, and interrupts the driver if `kick` is
set. The entry is visible before the index that covers it. An index outside the ring is ignored. -/
def publish (d : Device) (idx : UInt16) (len : UInt32) (kick : Bool) : OnBus Unit := do
  if idx < d.layout.num then
    let usedIdx ← Bus.read16 d.layout.usedIdxAddr
    d.unchain idx
    let entry := d.layout.usedEntryAddr usedIdx
    Bus.write32 (entry + UsedElem.idOffset) idx.toUInt32
    Bus.write32 (entry + UsedElem.lenOffset) len
    Bus.barrier
    Bus.write16 d.layout.usedIdxAddr (usedIdx + 1)
    Bus.barrier
    d.flush
    if kick then
      Bus.notify

/-- Reads the descriptor of an entry that was taken. -/
def descriptor (d : Device) (idx : UInt16) : OnBus Descriptor :=
  d.layout.readDescriptor idx

end Device

end InterCore.Ring
