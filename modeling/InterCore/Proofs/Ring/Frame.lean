import InterCore.Proofs.Memory.Footprint
import InterCore.Proofs.Ring.Flushing
import InterCore.Proofs.Ring.Handover
import InterCore.Proofs.Ring.Run

/-!
# Each end writes its own part of a ring

The two ends of a ring share its memory without a lock, which works because no byte is written by
both. The device writes the used ring and the last four bytes of the descriptor that it hands back
(`Device.ownPart`), the driver writes the available ring (`Driver.ownPart`), and what only looks
changes nothing at all.
-/

namespace InterCore.Ring

variable {bus : Bus} {m m' : Memory} {idx : UInt16} {len : UInt32} {kick : Bool}

/-- A look at the memory that gets its answer and leaves the bus as it is. -/
def Looks {α : Type} (work : OnBus α) (bus : Bus) : Prop :=
  ∃ answer, work bus = .ok (answer, bus)

/-! ## The device end -/

namespace Device

variable {d : Device}

/-- The addresses that may change when descriptor `idx` is handed back: the next entry of the used
ring, the index of the used ring, and the flags and the link of the descriptor. -/
def ownPart (d : Device) (m : Memory) (idx : UInt16) : Set Nat :=
  let entry := d.layout.usedEntryAddr (m.word16 d.layout.usedIdxAddr)
  let descriptor := d.layout.descriptorAddr idx
  Set.Ico entry (entry + usedElemSize) ∪ Set.Ico d.layout.usedIdxAddr (d.layout.usedIdxAddr + 2) ∪
    Set.Ico (descriptor + Descriptor.flagsOffset) (descriptor + descriptorSize)

/-- What handing descriptor `idx` back does to the memory, and what it leaves as it was. -/
structure Returns (d : Device) (idx : UInt16) (len : UInt32) (m m' : Memory) : Prop where
  own : m.SameOutside (d.ownPart m idx) m'
  elem : d.layout.usedElem m' (m.word16 d.layout.usedIdxAddr) = ⟨idx.toUInt32, len⟩
  index : m'.word16 d.layout.usedIdxAddr = m.word16 d.layout.usedIdxAddr + 1
  /-- The lowest flag is cleared and all others are kept. -/
  flags : ∀ i, (m'.word16 (d.layout.descriptorAddr idx + Descriptor.flagsOffset)).toNat.testBit i =
    ((m.word16 (d.layout.descriptorAddr idx + Descriptor.flagsOffset)).toNat.testBit i && i != 0)
  next : m'.word16 (d.layout.descriptorAddr idx + Descriptor.nextOffset) = 0
  /-- Address and length stand in the first twelve bytes of a descriptor. -/
  located : ∀ i : UInt16, i.toNat < d.layout.num.toNat →
    m.AgreeOn m' (d.layout.descriptorAddr i) (d.layout.descriptorAddr i + Descriptor.flagsOffset)
  others : ∀ i : UInt16, i.toNat < d.layout.num.toNat → i ≠ idx →
    m.AgreeOn m' (d.layout.descriptorAddr i) (d.layout.descriptorAddr i + descriptorSize)
  available : m.AgreeOn m' d.layout.avail d.layout.used
  outside : ∀ a, a < d.layout.base.toNat ∨ d.layout.base.toNat + d.layout.len ≤ a →
    m'.byteAt a = m.byteAt a

theorem mem_ownPart {a : Nat} : a ∈ d.ownPart m idx ↔
    (d.layout.usedEntryAddr (m.word16 d.layout.usedIdxAddr) ≤ a ∧
        a < d.layout.usedEntryAddr (m.word16 d.layout.usedIdxAddr) + 8 ∨
      d.layout.used + 2 ≤ a ∧ a < d.layout.used + 4) ∨
      d.layout.descriptorAddr idx + 12 ≤ a ∧ a < d.layout.descriptorAddr idx + 16 :=
  Iff.rfl

theorem sameOutside_publishEvents (within : d.layout.Within m)
    (inRing : idx.toNat < d.layout.num.toNat) :
    m.SameOutside (d.ownPart m idx) (m.after (d.publishEvents m idx len kick)) := by
  apply Memory.sameOutside_after
  intro e mem
  obtain ⟨fits, inside | inside | inside⟩ := publishEvents_cases within inRing mem
  · exact ⟨fits, fun a own => .inr (inside.footprint_subset own)⟩
  · exact ⟨fits, fun a own => .inl (.inl (inside.footprint_subset own))⟩
  · exact ⟨fits, fun a own => .inl (.inr (inside.footprint_subset own))⟩

/-- The link flag is cleared and no other one. -/
theorem testBit_and_not_chained (flags : UInt16) (i : Nat) :
    (flags &&& ~~~ Descriptor.chained).toNat.testBit i = (flags.toNat.testBit i && i != 0) := by
  show ((flags.toBitVec &&& ~~~ 1#16).getLsbD i) = (flags.toBitVec.getLsbD i && i != 0)
  rw [BitVec.getLsbD_and, BitVec.getLsbD_not, BitVec.getLsbD_one]
  rcases Nat.lt_or_ge i 16 with low | high
  · cases i <;> simp [low]
  · rw [BitVec.getLsbD_of_ge _ _ high, Bool.false_and, Bool.false_and]

/-- What stands in a descriptor that is handed back was put there when it was unchained. -/
theorem word16_publishEvents (within : d.layout.Within m) (inRing : idx.toNat < d.layout.num.toNat)
    {offset : Nat} (inDescriptor : offset + 2 ≤ 16) :
    (m.after (d.publishEvents m idx len kick)).word16 (d.layout.descriptorAddr idx + offset) =
      (m.after (d.unchainEvents m idx)).word16 (d.layout.descriptorAddr idx + offset) := by
  have descriptor := Layout.descriptor_bounds inRing
  have areas := d.layout.avail_add_le_used
  rw [after_publishEvents within inRing]
  refine (Memory.agreeOn_after ?_).word16 (Nat.le_refl _) (Nat.le_refl _)
  intro e mem
  obtain ⟨fits, inside⟩ := returnEvents_inside (within.replay _) mem
  exact ⟨fits, inside.misses (.inl (by omega))⟩

theorem flags_publishEvents (within : d.layout.Within m)
    (inRing : idx.toNat < d.layout.num.toNat) :
    (m.after (d.publishEvents m idx len kick)).word16
        (d.layout.descriptorAddr idx + Descriptor.flagsOffset) =
      m.word16 (d.layout.descriptorAddr idx + Descriptor.flagsOffset) &&& ~~~ Descriptor.chained := by
  have flagsFit : m.Covers (d.layout.descriptorAddr idx + Descriptor.flagsOffset) 2 :=
    within.covers_descriptor inRing (by decide)
  rw [word16_publishEvents within inRing (by decide)]
  refine (Memory.word16_patch_apart (Memory.covers_patch.mpr ?_) (.inr ?_)).trans
    (Memory.word16_patch_self _ flagsFit)
  · exact within.covers_descriptor inRing (by decide)
  · rw [Descriptor.flagsOffset, Descriptor.nextOffset]

theorem next_publishEvents (within : d.layout.Within m) (inRing : idx.toNat < d.layout.num.toNat) :
    (m.after (d.publishEvents m idx len kick)).word16
      (d.layout.descriptorAddr idx + Descriptor.nextOffset) = 0 := by
  rw [word16_publishEvents within inRing (by decide)]
  exact Memory.word16_patch_self 0
    (Memory.covers_patch.mpr (within.covers_descriptor inRing (by decide)))

/-- The index is found where it was before the descriptor was unchained. -/
theorem word16_unchain (within : d.layout.Within m) (inRing : idx.toNat < d.layout.num.toNat) :
    (m.after (d.unchainEvents m idx)).word16 d.layout.usedIdxAddr =
      m.word16 d.layout.usedIdxAddr :=
  (agreeOn_unchain_used within inRing).word16 (by rw [Layout.usedIdxAddr_eq]; omega)
    (by rw [Layout.usedIdxAddr_eq, Layout.ringEnd_eq]; omega)

theorem elem_publishEvents (within : d.layout.Within m) (inRing : idx.toNat < d.layout.num.toNat) :
    d.layout.usedElem (m.after (d.publishEvents m idx len kick))
      (m.word16 d.layout.usedIdxAddr) = ⟨idx.toUInt32, len⟩ := by
  rw [after_publishEvents within inRing, usedElem_return (within.replay _),
    word16_unchain within inRing, if_pos rfl]

theorem index_publishEvents (within : d.layout.Within m) (inRing : idx.toNat < d.layout.num.toNat) :
    (m.after (d.publishEvents m idx len kick)).word16 d.layout.usedIdxAddr =
      m.word16 d.layout.usedIdxAddr + 1 := by
  rw [after_publishEvents within inRing, word16_return (within.replay _),
    word16_unchain within inRing]

/-- Handing a descriptor of the ring back changes what it is to change, and nothing else. -/
theorem returns_publishEvents (within : d.layout.Within m)
    (inRing : idx.toNat < d.layout.num.toNat) :
    d.Returns idx len m (m.after (d.publishEvents m idx len kick)) := by
  have own : m.SameOutside (d.ownPart m idx) (m.after (d.publishEvents m idx len kick)) :=
    sameOutside_publishEvents within inRing
  have entry := d.layout.usedEntry_bounds (m.word16 d.layout.usedIdxAddr)
  have descriptor := Layout.descriptor_bounds inRing
  have areas := d.layout.avail_add_le_used
  have ends := d.layout.ringEnd_eq
  have start := d.layout.avail_eq
  refine ⟨own, elem_publishEvents within inRing, index_publishEvents within inRing, ?_,
    next_publishEvents within inRing, ?_, ?_, ?_, ?_⟩
  · intro i
    rw [flags_publishEvents within inRing, testBit_and_not_chained]
  · intro i hi
    have other := Layout.descriptor_bounds hi
    refine own.agreeOn fun a inside => ?_
    rw [mem_ownPart] at inside
    simp only [Layout.descriptorAddr, descriptorSize, Descriptor.flagsOffset] at *
    omega
  · intro i hi different
    have other := Layout.descriptor_bounds hi
    have apart : i.toNat ≠ idx.toNat := fun same => different (UInt16.toNat_inj.mp same)
    refine own.agreeOn fun a inside => ?_
    rw [mem_ownPart] at inside
    simp only [Layout.descriptorAddr, descriptorSize] at *
    omega
  · refine own.agreeOn fun a inside => ?_
    rw [mem_ownPart] at inside
    omega
  · intro a outside
    rw [d.layout.base_add_len] at outside
    refine own.byteAt a fun inside => ?_
    rw [mem_ownPart] at inside
    omega

theorem interrupts_publishEvents (d : Device) (m : Memory) (idx : UInt16) (len : UInt32)
    (kick : Bool) : Event.interruptsIn (d.publishEvents m idx len kick) = kick.toNat := by
  cases kick <;> rfl

end Device

/-! ## The driver end -/

namespace Driver

variable {d : Driver}

/-- The addresses that may change when a descriptor is offered: the next entry of the available ring
and its index. -/
def ownPart (d : Driver) : Set Nat :=
  Set.Ico (d.layout.availEntryAddr d.head) (d.layout.availEntryAddr d.head + 2) ∪
    Set.Ico d.layout.availIdxAddr (d.layout.availIdxAddr + 2)

/-- What offering descriptor `idx` does to the memory. -/
structure Offers (d : Driver) (idx : UInt16) (m m' : Memory) : Prop where
  own : m.SameOutside d.ownPart m'
  entry : d.layout.availEntry m' d.head = idx
  index : m'.word16 d.layout.availIdxAddr = d.head + 1

theorem sameOutside_offerEvents (within : d.layout.Within m) :
    m.SameOutside d.ownPart (m.after (d.offerEvents idx)) := by
  apply Memory.sameOutside_after
  intro e mem
  simp only [offerEvents, List.mem_cons, List.not_mem_nil, or_false] at mem
  rcases mem with rfl | rfl | rfl | rfl
  · refine ⟨by simpa [Event.Fits] using within.covers_availEntry _, ?_⟩
    rw [Event.footprint, LittleEndian.length_encode16]
    exact Set.subset_union_left
  · exact ⟨trivial, Set.empty_subset _⟩
  · refine ⟨by simpa [Event.Fits] using within.covers_availIdx, ?_⟩
    rw [Event.footprint, LittleEndian.length_encode16]
    exact Set.subset_union_right
  · exact ⟨trivial, Set.empty_subset _⟩

theorem offers_offerEvents (within : d.layout.Within m) :
    d.Offers idx m (m.after (d.offerEvents idx)) := by
  refine ⟨sameOutside_offerEvents within, ?_, word16_offer within⟩
  rw [availEntry_offer within, if_pos rfl]

end Driver

/-! ## Both ends -/

theorem looks_descriptor {l : Layout} (within : l.Within bus.memory) (inRing : idx < l.num) :
    Looks (l.readDescriptor idx) bus := by
  obtain ⟨d, read, -⟩ := Layout.readDescriptor_eq within (UInt16.lt_iff_toNat_lt.mp inRing)
  exact ⟨d, read⟩

/-- Handing a descriptor back changes the next used entry, the index of the used ring, and the flags
and the link of the descriptor. Offering one changes the next available entry and the index of the
available ring. Nothing else that is done with a ring changes the memory. -/
theorem ends_write_own_parts {device : Device} {driver : Driver}
    (within : device.layout.Within bus.memory) (within' : driver.layout.Within bus.memory) :
    (∀ idx len kick, idx < device.layout.num →
      ∃ bus', device.publish idx len kick bus = .ok ((), bus') ∧
        device.Returns idx len bus.memory bus'.memory ∧
        bus'.notifications = bus.notifications + kick.toNat) ∧
    (∀ idx len kick, device.layout.num ≤ idx → device.publish idx len kick bus = .ok ((), bus)) ∧
    (∀ idx, ∃ bus', driver.offer idx bus = .ok (driver.offering, bus') ∧
      driver.Offers idx bus.memory bus'.memory ∧ bus'.notifications = bus.notifications) ∧
    (∃ bus', device.flush bus = .ok ((), bus') ∧ bus'.memory = bus.memory) ∧
    Looks device.take? bus ∧ Looks device.hasIncoming bus ∧
    Looks driver.takeUsed? bus ∧ Looks driver.hasUsed bus ∧
    (∀ idx < device.layout.num, Looks (device.descriptor idx) bus) ∧
    (∀ idx < driver.layout.num, Looks (driver.descriptor idx) bus) ∧
    ∀ idx d bus', (device.descriptor idx bus = .ok (d, bus') ∨
      driver.descriptor idx bus = .ok (d, bus')) → bus' = bus := by
  refine ⟨?_, ?_, ?_, ⟨_, Bus.flush_eq _ _ _, Bus.memory_after _ _⟩,
    ⟨_, Device.take?_eq within⟩, ⟨_, Device.hasIncoming_eq within⟩,
    ⟨_, Driver.takeUsed?_eq within'⟩, ⟨_, Driver.hasUsed_eq within'⟩,
    fun idx inRing => looks_descriptor within inRing,
    fun idx inRing => looks_descriptor within' inRing, ?_⟩
  · intro idx len kick below
    have inRing : idx.toNat < device.layout.num.toNat := UInt16.lt_iff_toNat_lt.mp below
    refine ⟨_, Device.publish_eq within inRing len kick, ?_, ?_⟩
    · rw [Bus.memory_after]
      exact Device.returns_publishEvents within inRing
    · rw [Bus.notifications_after, Device.interrupts_publishEvents]
  · intro idx len kick above
    exact Device.publish_outside (UInt16.le_iff_toNat_le.mp above) len kick
  · intro idx
    refine ⟨_, Driver.offer_eq within' idx, ?_, rfl⟩
    rw [Bus.memory_after]
    exact Driver.offers_offerEvents within'
  · rintro idx d bus' (read | read)
    · exact (Layout.readDescriptor_eq_ok read).1
    · exact (Layout.readDescriptor_eq_ok read).1

/-- A ring of two descriptors in memory that was not cleared. -/
def unclearedRing : Layout :=
  ⟨⟨0x1000, 2⟩, ⟨1, rfl⟩, by decide⟩

/-- Both indices stand at their last value there, so both operations wrap them. -/
theorem unclearedRing_write_own_parts : unclearedRing.Within uncleared.memory ∧
    (∃ bus', Device.publish ⟨unclearedRing, 0⟩ 1 5 true uncleared = .ok ((), bus') ∧
      Device.Returns ⟨unclearedRing, 0⟩ 1 5 uncleared.memory bus'.memory ∧
      bus'.notifications = 1) ∧
    Device.publish ⟨unclearedRing, 0⟩ 2 5 true uncleared = .ok ((), uncleared) ∧
    ∃ bus', Driver.offer ⟨unclearedRing, 0xFFFF, 0⟩ 1 uncleared =
        .ok (⟨unclearedRing, 0, 0⟩, bus') ∧
      Driver.Offers ⟨unclearedRing, 0xFFFF, 0⟩ 1 uncleared.memory bus'.memory := by
  have within : unclearedRing.Within uncleared.memory := placed_uncleared.inWindow
  obtain ⟨back, stray, offer, -⟩ :=
    @ends_write_own_parts uncleared ⟨unclearedRing, 0⟩ ⟨unclearedRing, 0xFFFF, 0⟩ within within
  obtain ⟨bus', offered, offers, -⟩ := offer 1
  exact ⟨within, back 1 5 true (by decide), stray 2 5 true (by decide), bus', offered, offers⟩

end InterCore.Ring
