import InterCore.Ring.Descriptor

/-!
# The driver end of a ring

The driver owns the buffers. It offers them through the available ring and gets them back through
the used ring. It writes no index but the available ring's and keeps to itself how far it has read
the used ring.
-/

namespace InterCore.Ring

/-- The driver end: the ring, the number of the next entry to offer, and the number of the next
used element to take. -/
structure Driver where
  layout : Layout
  head : UInt16 := 0
  lastUsed : UInt16 := 0
  deriving DecidableEq

namespace Driver

/-- Points descriptors `idx`, `idx + 1`, … at buffers of `bufSize` bytes that follow each other from
`buffers` on. -/
def pointBuffers (l : Layout) (buffers bufSize : UInt32) : (count idx : Nat) → OnBus Unit
  | 0, _ => pure ()
  | count + 1, idx => do
    let addr := buffers.toNat + idx * bufSize.toNat
    if addr < UInt32.size then
      l.writeDescriptor (UInt16.ofNat idx)
        { addr := UInt32.ofNat addr, addrHigh := 0, len := bufSize, flags := 0, next := 0 }
      pointBuffers l buffers bufSize count (idx + 1)
    else
      throw .addressSpace

/-- Sets up a ring of `num` descriptors at `base`, with both of its rings empty. -/
def create (base : UInt32) (num : UInt16) (buffers bufSize : UInt32) : OnBus Driver := do
  let layout ← Layout.place base num
  pointBuffers layout buffers bufSize num.toNat 0
  Bus.write16 layout.availFlagsAddr 0
  Bus.write16 layout.availIdxAddr 0
  Bus.write16 layout.usedFlagsAddr 0
  Bus.write16 layout.usedIdxAddr 0
  Bus.barrier
  return { layout }

/-- Offers descriptor `idx`. The entry is visible before the index that covers it. -/
def offer (d : Driver) (idx : UInt16) : OnBus Driver := do
  Bus.write16 (d.layout.availEntryAddr d.head) idx
  Bus.barrier
  let head := d.head + 1
  Bus.write16 d.layout.availIdxAddr head
  Bus.barrier
  return { d with head }

/-- Takes the next used element, if the device has handed one back that was not taken yet. -/
def takeUsed? (d : Driver) : OnBus (Option UsedElem × Driver) := do
  let usedIdx ← Bus.read16 d.layout.usedIdxAddr
  if usedIdx = d.lastUsed then
    return (none, d)
  let entry := d.layout.usedEntryAddr d.lastUsed
  let id ← Bus.read32 (entry + UsedElem.idOffset)
  let len ← Bus.read32 (entry + UsedElem.lenOffset)
  return (some { id, len }, { d with lastUsed := d.lastUsed + 1 })

/-- Whether a used element is there to be taken. -/
def hasUsed (d : Driver) : OnBus Bool := do
  let usedIdx ← Bus.read16 d.layout.usedIdxAddr
  return usedIdx != d.lastUsed

/-- Reads a descriptor, as the device may have changed it. -/
def descriptor (d : Driver) (idx : UInt16) : OnBus Descriptor :=
  d.layout.readDescriptor idx

end Driver

end InterCore.Ring
