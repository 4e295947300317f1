import InterCore.Proofs.Ring.Areas
import InterCore.Ring.Device
import InterCore.Ring.Driver

/-!
# What the operations of a ring do

On a ring that lies within the memory no operation faults. Each one is its answer, read off the
memory, and the list of events it performs on the bus.
-/

namespace InterCore.Ring

open LittleEndian (encode16 encode32)

variable {bus : Bus}

namespace Layout

variable {l : Layout}

/-- The events that write a descriptor. -/
def descriptorEvents (l : Layout) (idx : UInt16) (d : Descriptor) : List Event :=
  [.write (l.descriptorAddr idx + Descriptor.addrOffset) (encode32 d.addr),
    .write (l.descriptorAddr idx + Descriptor.addrHighOffset) (encode32 d.addrHigh),
    .write (l.descriptorAddr idx + Descriptor.lenOffset) (encode32 d.len),
    .write (l.descriptorAddr idx + Descriptor.flagsOffset) (encode16 d.flags),
    .write (l.descriptorAddr idx + Descriptor.nextOffset) (encode16 d.next)]

theorem writeDescriptor_eq (within : l.Within bus.memory) {idx : UInt16}
    (inRing : idx.toNat < l.num.toNat) (d : Descriptor) :
    l.writeDescriptor idx d bus = .ok ((), bus.after (l.descriptorEvents idx d)) := by
  have h1 (es : List Event) : l.Within (bus.after es).memory := within.after es
  have h2 (es fs) := (h1 es).after fs
  have h3 (es fs gs) := (h2 es fs).after gs
  have h4 (es fs gs hs) := (h3 es fs gs).after hs
  unfold writeDescriptor
  rw [OnBus.bind_eq (Bus.write32_eq _ (within.covers_descriptor inRing (by decide))),
    OnBus.bind_eq (Bus.write32_eq _ ((h1 _).covers_descriptor inRing (by decide))),
    OnBus.bind_eq (Bus.write32_eq _ ((h2 _ _).covers_descriptor inRing (by decide))),
    OnBus.bind_eq (Bus.write16_eq _ ((h3 _ _ _).covers_descriptor inRing (by decide))),
    Bus.write16_eq _ ((h4 _ _ _ _).covers_descriptor inRing (by decide))]
  simp only [descriptorEvents, Bus.after_cons, Bus.after_nil]

end Layout

namespace Driver

variable {d : Driver}

/-- The events that offer descriptor `idx`. -/
def offerEvents (d : Driver) (idx : UInt16) : List Event :=
  [.write (d.layout.availEntryAddr d.head) (encode16 idx), .barrier,
    .write d.layout.availIdxAddr (encode16 (d.head + 1)), .barrier]

theorem offer_eq (within : d.layout.Within bus.memory) (idx : UInt16) :
    d.offer idx bus = .ok ({ d with head := d.head + 1 }, bus.after (d.offerEvents idx)) := by
  have first (es : List Event) : d.layout.Within (bus.after es).memory := within.after es
  have later (es fs) := (first es).after fs
  unfold offer
  rw [OnBus.bind_eq (Bus.write16_eq _ (within.covers_availEntry _)), OnBus.bind_eq (Bus.barrier_eq _),
    OnBus.bind_eq (Bus.write16_eq _ (later _ _).covers_availIdx), OnBus.bind_eq (Bus.barrier_eq _),
    OnBus.pure_eq]
  simp only [offerEvents, Bus.after_cons, Bus.after_nil]

theorem hasUsed_eq (within : d.layout.Within bus.memory) :
    d.hasUsed bus = .ok (bus.memory.word16 d.layout.usedIdxAddr != d.lastUsed, bus) := by
  unfold hasUsed
  rw [OnBus.bind_eq (OnBus.read16_eq within.covers_usedIdx)]
  rfl

end Driver

/-! ## Setting up a ring -/

theorem Layout.place_eq (l : Layout) : Layout.place l.base l.num = .ok l := by
  unfold Layout.place
  rw [dif_pos l.powerOfTwo, dif_pos l.inAddressSpace]

namespace Driver

variable {l : Layout} {buffers bufSize : UInt32}

/-- The descriptor of buffer number `idx` among those that follow each other from `buffers` on. -/
def bufferDescriptor (buffers bufSize : UInt32) (idx : Nat) : Descriptor :=
  { addr := UInt32.ofNat (buffers.toNat + idx * bufSize.toNat)
    addrHigh := 0
    len := bufSize
    flags := 0
    next := 0 }

/-- The events that point descriptors `idx`, `idx + 1`, … at their buffers. -/
def pointEvents (l : Layout) (buffers bufSize : UInt32) : (count idx : Nat) → List Event
  | 0, _ => []
  | count + 1, idx =>
    l.descriptorEvents (UInt16.ofNat idx) (bufferDescriptor buffers bufSize idx)
      ++ pointEvents l buffers bufSize count (idx + 1)

theorem pointBuffers_eq {count idx : Nat} (within : l.Within bus.memory)
    (inRing : idx + count ≤ l.num.toNat)
    (inSpace : ∀ i < l.num.toNat, buffers.toNat + i * bufSize.toNat < UInt32.size) :
    pointBuffers l buffers bufSize count idx bus =
      .ok ((), bus.after (pointEvents l buffers bufSize count idx)) := by
  induction count generalizing bus idx with
  | zero => rfl
  | succ count ih =>
    have small : idx < 2 ^ 16 := by
      have := l.num_le
      omega
    have own : (UInt16.ofNat idx).toNat < l.num.toNat := by
      rw [UInt16.toNat_ofNat', Nat.mod_eq_of_lt small]
      omega
    rw [pointBuffers, if_pos (inSpace idx (by omega)),
      OnBus.bind_eq (Layout.writeDescriptor_eq within own _), ih (within.after _) (by omega),
      pointEvents, Bus.after_append]
    rfl

/-- The events that empty both rings. -/
def clearEvents (l : Layout) : List Event :=
  [.write l.availFlagsAddr (encode16 0), .write l.availIdxAddr (encode16 0),
    .write l.usedFlagsAddr (encode16 0), .write l.usedIdxAddr (encode16 0), .barrier]

/-- The events that set up a ring. -/
def createEvents (l : Layout) (buffers bufSize : UInt32) : List Event :=
  pointEvents l buffers bufSize l.num.toNat 0 ++ clearEvents l

theorem create_eq (within : l.Within bus.memory)
    (inSpace : ∀ i < l.num.toNat, buffers.toNat + i * bufSize.toNat < UInt32.size) :
    create l.base l.num buffers bufSize bus =
      .ok ({ layout := l }, bus.after (createEvents l buffers bufSize)) := by
  have h1 (es : List Event) : l.Within (bus.after es).memory := within.after es
  have h2 (es fs) := (h1 es).after fs
  have h3 (es fs gs) := (h2 es fs).after gs
  have h4 (es fs gs hs) := (h3 es fs gs).after hs
  unfold create
  rw [l.place_eq, OnBus.bind_eq (OnBus.lift_eq l bus),
    OnBus.bind_eq (pointBuffers_eq within (by omega) inSpace),
    OnBus.bind_eq (Bus.write16_eq _ (h1 _).covers_availFlags),
    OnBus.bind_eq (Bus.write16_eq _ (h2 _ _).covers_availIdx),
    OnBus.bind_eq (Bus.write16_eq _ (h3 _ _ _).covers_usedFlags),
    OnBus.bind_eq (Bus.write16_eq _ (h4 _ _ _ _).covers_usedIdx),
    OnBus.bind_eq (Bus.barrier_eq _), OnBus.pure_eq]
  simp only [createEvents, clearEvents, Bus.after_append, Bus.after_cons, Bus.after_nil]

end Driver

/-- Entry number `idx` of the used ring as it stands in memory. -/
def Layout.usedElem (l : Layout) (m : Memory) (idx : UInt16) : UsedElem :=
  ⟨m.word32 (l.usedEntryAddr idx + UsedElem.idOffset),
    m.word32 (l.usedEntryAddr idx + UsedElem.lenOffset)⟩

theorem Driver.takeUsed?_eq {d : Driver} (within : d.layout.Within bus.memory) :
    d.takeUsed? bus = .ok (if bus.memory.word16 d.layout.usedIdxAddr = d.lastUsed then (none, d)
      else (some (d.layout.usedElem bus.memory d.lastUsed),
        { d with lastUsed := d.lastUsed + 1 }), bus) := by
  unfold takeUsed?
  rw [OnBus.bind_eq (OnBus.read16_eq within.covers_usedIdx)]
  split
  · rfl
  · rw [OnBus.bind_eq (OnBus.read32_eq (within.covers_usedEntry _ (by decide))),
      OnBus.bind_eq (OnBus.read32_eq (within.covers_usedEntry _ (by decide)))]
    rfl

/-! ## The device end -/

namespace Device

variable {d : Device}

theorem attach_eq (l : Layout) : attach l.base l.num = .ok { layout := l } := by
  unfold attach
  rw [l.place_eq]
  rfl

theorem hasIncoming_eq (within : d.layout.Within bus.memory) :
    d.hasIncoming bus = .ok (bus.memory.word16 d.layout.availIdxAddr != d.tail, bus) := by
  unfold hasIncoming
  rw [OnBus.bind_eq (OnBus.read16_eq within.covers_availIdx)]
  rfl

theorem take?_eq (within : d.layout.Within bus.memory) :
    d.take? bus = .ok (if bus.memory.word16 d.layout.availIdxAddr = d.tail then (none, d)
      else (some (bus.memory.word16 (d.layout.availEntryAddr d.tail)),
        { d with tail := d.tail + 1 }), bus) := by
  unfold take?
  rw [OnBus.bind_eq (OnBus.read16_eq within.covers_availIdx)]
  split
  · rfl
  · rw [OnBus.bind_eq (OnBus.read16_eq (within.covers_availEntry _))]
    rfl

/-- The events that unchain descriptor `idx`. -/
def unchainEvents (d : Device) (m : Memory) (idx : UInt16) : List Event :=
  [.write (d.layout.descriptorAddr idx + Descriptor.flagsOffset)
      (encode16 (m.word16 (d.layout.descriptorAddr idx + Descriptor.flagsOffset)
        &&& ~~~ Descriptor.chained)),
    .write (d.layout.descriptorAddr idx + Descriptor.nextOffset) (encode16 0)]

theorem unchain_eq (within : d.layout.Within bus.memory) {idx : UInt16}
    (inRing : idx.toNat < d.layout.num.toNat) :
    d.unchain idx bus = .ok ((), bus.after (d.unchainEvents bus.memory idx)) := by
  unfold unchain
  rw [OnBus.bind_eq (OnBus.read16_eq (within.covers_descriptor inRing (by decide))),
    OnBus.bind_eq (Bus.write16_eq _ (within.covers_descriptor inRing (by decide))),
    Bus.write16_eq _ ((within.after _).covers_descriptor inRing (by decide))]
  simp only [unchainEvents, Bus.after_cons, Bus.after_nil]

/-- The events that put an entry into the used ring and move its index past it. -/
def returnEvents (d : Device) (m : Memory) (idx : UInt16) (len : UInt32) : List Event :=
  let usedIdx := m.word16 d.layout.usedIdxAddr
  [.write (d.layout.usedEntryAddr usedIdx + UsedElem.idOffset) (encode32 idx.toUInt32),
    .write (d.layout.usedEntryAddr usedIdx + UsedElem.lenOffset) (encode32 len), .barrier,
    .write d.layout.usedIdxAddr (encode16 (usedIdx + 1)), .barrier,
    .flush d.layout.base.toNat d.layout.len]

/-- The event of a kick, if there is one. -/
def kickEvents (kick : Bool) : List Event :=
  if kick then [.notify] else []

theorem kick_eq (kick : Bool) (bus : Bus) :
    (if kick then Bus.notify else pure ()) bus = .ok ((), bus.after (kickEvents kick)) := by
  cases kick <;> rfl

/-- The events that hand descriptor `idx` back. -/
def publishEvents (d : Device) (m : Memory) (idx : UInt16) (len : UInt32) (kick : Bool) :
    List Event :=
  d.unchainEvents m idx ++ d.returnEvents m idx len ++ kickEvents kick

theorem publish_eq (within : d.layout.Within bus.memory) {idx : UInt16}
    (inRing : idx.toNat < d.layout.num.toNat) (len : UInt32) (kick : Bool) :
    d.publish idx len kick bus =
      .ok ((), bus.after (d.publishEvents bus.memory idx len kick)) := by
  have h1 (es : List Event) : d.layout.Within (bus.after es).memory := within.after es
  have h2 (es fs) := (h1 es).after fs
  have h4 (es fs gs hs) := ((h2 es fs).after gs).after hs
  have below : idx < d.layout.num := UInt16.lt_iff_toNat_lt.mpr inRing
  unfold publish
  rw [if_pos below, OnBus.bind_eq (OnBus.read16_eq within.covers_usedIdx),
    OnBus.bind_eq (unchain_eq within inRing),
    OnBus.bind_eq (Bus.write32_eq _ ((h1 _).covers_usedEntry _ (by decide))),
    OnBus.bind_eq (Bus.write32_eq _ ((h2 _ _).covers_usedEntry _ (by decide))),
    OnBus.bind_eq (Bus.barrier_eq _),
    OnBus.bind_eq (Bus.write16_eq _ (h4 _ _ _ _).covers_usedIdx),
    OnBus.bind_eq (Bus.barrier_eq _), flush, OnBus.bind_eq (Bus.flush_eq _ _ _), kick_eq]
  simp only [publishEvents, returnEvents, Bus.after_append, Bus.after_cons, Bus.after_nil]

/-- A descriptor outside the ring is not handed back. -/
theorem publish_outside {idx : UInt16} (outside : d.layout.num.toNat ≤ idx.toNat) (len : UInt32)
    (kick : Bool) : d.publish idx len kick bus = .ok ((), bus) := by
  have above : ¬ idx < d.layout.num := by
    rw [UInt16.lt_iff_toNat_lt]
    omega
  unfold publish
  rw [if_neg above]
  rfl

end Device

end InterCore.Ring
