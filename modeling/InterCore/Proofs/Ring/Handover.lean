import InterCore.Proofs.Ring.Custody

/-!
# Handing buffers over

What each end of a ring sees and does, told from the memory alone. `Device.next?` and
`Driver.nextUsed?` are the first entries of the two queues, `Device.handBackEvents` and
`Driver.offerEvents` are what the ends write. The second half says what such writes leave alone:
everything outside the ring, the other queue, and where the buffers are.
-/

namespace InterCore

namespace Ring

open LittleEndian (encode16)

/-- Where a buffer is and how long it is. -/
structure Buffer where
  addr : UInt32
  len : UInt32
  deriving DecidableEq, Repr

variable {m m' : Memory}

/-- The buffer that descriptor `idx` points to. -/
def Layout.buffer (l : Layout) (m : Memory) (idx : UInt16) : Buffer :=
  ⟨m.word32 (l.descriptorAddr idx + Descriptor.addrOffset),
    m.word32 (l.descriptorAddr idx + Descriptor.lenOffset)⟩

/-- Where a buffer is stands in the first twelve bytes of its descriptor. -/
theorem Layout.buffer_agree {l : Layout} {idx : UInt16}
    (h : m.AgreeOn m' (l.descriptorAddr idx) (l.descriptorAddr idx + 12)) :
    l.buffer m' idx = l.buffer m idx := by
  unfold Layout.buffer Descriptor.addrOffset Descriptor.lenOffset
  rw [h.word32 (by omega) (by omega), h.word32 (by omega) (by omega)]

/-! ## Descriptors -/

namespace Layout

variable {l : Layout} {bus bus' : Bus} {idx : UInt16} {d : Descriptor}

/-- The bytes at which an index has its descriptor are in the memory, whether or not it is one of
the ring. -/
def DescribedIn (l : Layout) (m : Memory) (idx : UInt16) : Prop :=
  ∀ offset len, offset + len ≤ descriptorSize → m.Covers (l.descriptorAddr idx + offset) len

theorem Within.describedIn (h : l.Within m) (inRing : idx.toNat < l.num.toNat) :
    l.DescribedIn m idx :=
  fun _ _ fits => h.covers_descriptor inRing fits

theorem readDescriptor_eq_ok (h : l.readDescriptor idx bus = .ok (d, bus')) :
    bus' = bus ∧ l.buffer bus.memory idx = ⟨d.addr, d.len⟩ := by
  obtain ⟨addr, bus₁, readAddr, h⟩ := bind_eq_ok.mp h
  obtain ⟨-, rfl, rfl⟩ := OnBus.read32_eq_ok readAddr
  obtain ⟨high, bus₂, readHigh, h⟩ := bind_eq_ok.mp h
  obtain ⟨-, -, rfl⟩ := OnBus.read32_eq_ok readHigh
  obtain ⟨len, bus₃, readLen, h⟩ := bind_eq_ok.mp h
  obtain ⟨-, rfl, rfl⟩ := OnBus.read32_eq_ok readLen
  obtain ⟨flags, bus₄, readFlags, h⟩ := bind_eq_ok.mp h
  obtain ⟨-, -, rfl⟩ := OnBus.read16_eq_ok readFlags
  obtain ⟨next, bus₅, readNext, h⟩ := bind_eq_ok.mp h
  obtain ⟨-, -, rfl⟩ := OnBus.read16_eq_ok readNext
  cases h
  exact ⟨rfl, rfl⟩

theorem readDescriptor_of_described (covers : l.DescribedIn bus.memory idx) :
    ∃ d, l.readDescriptor idx bus = .ok (d, bus) ∧ l.buffer bus.memory idx = ⟨d.addr, d.len⟩ := by
  unfold readDescriptor
  rw [OnBus.bind_eq (OnBus.read32_eq (covers _ _ (by decide))),
    OnBus.bind_eq (OnBus.read32_eq (covers _ _ (by decide))),
    OnBus.bind_eq (OnBus.read32_eq (covers _ _ (by decide))),
    OnBus.bind_eq (OnBus.read16_eq (covers _ _ (by decide))),
    OnBus.bind_eq (OnBus.read16_eq (covers _ _ (by decide)))]
  exact ⟨_, rfl, rfl⟩

/-- A descriptor of the ring can be read. -/
theorem readDescriptor_eq (within : l.Within bus.memory) (inRing : idx.toNat < l.num.toNat) :
    ∃ d, l.readDescriptor idx bus = .ok (d, bus) ∧ l.buffer bus.memory idx = ⟨d.addr, d.len⟩ :=
  readDescriptor_of_described (within.describedIn inRing)

end Layout

/-! ## The device end -/

namespace Device

variable {d : Device} {bus : Bus} {idx : UInt16} {len : UInt32}

/-- The next descriptor to take. -/
def next? (d : Device) (m : Memory) : Option UInt16 :=
  (d.layout.offered m d.tail).head?

/-- The device end after it took an entry. -/
def advance (d : Device) : Device :=
  { d with tail := d.tail + 1 }

@[simp]
theorem layout_advance (d : Device) : d.advance.layout = d.layout := rfl

/-- The events that hand a descriptor back with a kick. One outside the ring is not handed back. -/
def handBackEvents (d : Device) (m : Memory) (idx : UInt16) (len : UInt32) : List Event :=
  if idx.toNat < d.layout.num.toNat then d.publishEvents m idx len true else []

/-- What the device sees that looks for a descriptor. -/
theorem offered_eq_nil_or_cons (d : Device) (m : Memory) :
    d.layout.offered m d.tail = [] ∨ d.layout.offered m d.tail =
      m.word16 (d.layout.availEntryAddr d.tail) :: d.layout.offered m d.advance.tail := by
  by_cases empty : m.word16 d.layout.availIdxAddr = d.tail
  · exact .inl (entriesUpTo_eq_nil.mpr empty)
  · exact .inr (entriesUpTo_of_ne empty)

/-- The queue behind the next descriptor. -/
theorem offered_of_next? (h : d.next? m = some idx) :
    d.layout.offered m d.tail = idx :: d.layout.offered m d.advance.tail := by
  rcases d.offered_eq_nil_or_cons m with none | some
  · rw [next?, none] at h
    cases h
  · rw [next?, some] at h
    cases h
    exact some

theorem offered_of_next?_none (h : d.next? m = none) : d.layout.offered m d.tail = [] :=
  List.head?_eq_none_iff.mp h

theorem take?_of_next? (within : d.layout.Within bus.memory) (next : d.next? bus.memory = some idx) :
    d.take? bus = .ok ((some idx, d.advance), bus) := by
  rw [take?_eq within]
  by_cases empty : bus.memory.word16 d.layout.availIdxAddr = d.tail
  · rw [next?, Layout.offered, entriesUpTo_eq_nil.mpr empty] at next
    cases next
  · rw [next?, Layout.offered, entriesUpTo_of_ne empty] at next
    cases next
    rw [if_neg empty]
    rfl

theorem take?_of_next?_none (within : d.layout.Within bus.memory)
    (next : d.next? bus.memory = none) : d.take? bus = .ok ((none, d), bus) := by
  rw [take?_eq within, if_pos (entriesUpTo_eq_nil.mp (offered_of_next?_none next))]

theorem publish_handBack (within : d.layout.Within bus.memory) (idx : UInt16) (len : UInt32) :
    d.publish idx len true bus = .ok ((), bus.after (d.handBackEvents bus.memory idx len)) := by
  unfold handBackEvents
  by_cases inRing : idx.toNat < d.layout.num.toNat
  · rw [if_pos inRing, publish_eq within inRing]
  · rw [if_neg inRing, publish_outside (by omega), Bus.after_nil]

/-- Handing a descriptor back writes its last four bytes, the next used entry and the index of the
used ring. -/
theorem publishEvents_cases (within : d.layout.Within m) (inRing : idx.toNat < d.layout.num.toNat)
    {kick : Bool} {e : Event} (mem : e ∈ d.publishEvents m idx len kick) :
    e.Fits m ∧ (e.Inside (d.layout.descriptorAddr idx + 12) (d.layout.descriptorAddr idx + 16) ∨
      e.Inside (d.layout.usedEntryAddr (m.word16 d.layout.usedIdxAddr))
        (d.layout.usedEntryAddr (m.word16 d.layout.usedIdxAddr) + 8) ∨
      e.Inside d.layout.usedIdxAddr (d.layout.usedIdxAddr + 2)) := by
  simp only [publishEvents, List.mem_append] at mem
  rcases mem with (unchained | returned) | kicked
  · obtain ⟨fits, inside⟩ := unchainEvents_inside within inRing unchained
    exact ⟨fits, .inl inside⟩
  · obtain ⟨fits, inside⟩ := returnEvents_cases within returned
    exact ⟨fits, .inr inside⟩
  · cases kick with
    | false => cases kicked
    | true =>
      obtain rfl := List.mem_singleton.mp kicked
      exact ⟨trivial, .inl trivial⟩

theorem handBackEvents_cases (within : d.layout.Within m) {e : Event}
    (mem : e ∈ d.handBackEvents m idx len) :
    e.Fits m ∧ (e.Inside (d.layout.descriptorAddr idx + 12) (d.layout.descriptorAddr idx + 16) ∧
        idx.toNat < d.layout.num.toNat ∨ e.Inside d.layout.used d.layout.ringEnd) := by
  unfold handBackEvents at mem
  split at mem
  case isFalse => cases mem
  case isTrue inRing =>
  have entry := d.layout.usedEntry_bounds (m.word16 d.layout.usedIdxAddr)
  have index := d.layout.usedIdxAddr_eq
  have ends := d.layout.ringEnd_eq
  obtain ⟨fits, inside | inside | inside⟩ := publishEvents_cases within inRing mem
  · exact ⟨fits, .inl ⟨inside, inRing⟩⟩
  · exact ⟨fits, .inr (inside.mono (by omega) entry.2)⟩
  · exact ⟨fits, .inr (inside.mono (by omega) (by omega))⟩

/-- Handing a descriptor back changes nothing outside the ring. -/
theorem agreeOn_handBack_outside (within : d.layout.Within m) {start stop : Nat}
    (apart : stop ≤ d.layout.base.toNat ∨ d.layout.ringEnd ≤ start) :
    m.AgreeOn (m.after (d.handBackEvents m idx len)) start stop := by
  apply Memory.agreeOn_after
  intro e mem
  have areas := d.layout.avail_add_le_used
  have avail := d.layout.avail_eq
  have ends := d.layout.ringEnd_eq
  obtain ⟨fits, ⟨inside, inRing⟩ | inside⟩ := handBackEvents_cases within mem
  · have bounds := Layout.descriptor_bounds inRing
    exact ⟨fits, inside.misses (by omega)⟩
  · exact ⟨fits, inside.misses (by omega)⟩

/-- Handing a descriptor back does not touch the available ring. -/
theorem agreeOn_handBack_avail (within : d.layout.Within m) :
    m.AgreeOn (m.after (d.handBackEvents m idx len)) d.layout.avail d.layout.used := by
  apply Memory.agreeOn_after
  intro e mem
  obtain ⟨fits, ⟨inside, inRing⟩ | inside⟩ := handBackEvents_cases within mem
  · have bounds := Layout.descriptor_bounds inRing
    exact ⟨fits, inside.misses (by omega)⟩
  · exact ⟨fits, inside.misses (.inl (Nat.le_refl _))⟩

/-- What is behind a descriptor that is taken and handed back. -/
theorem offered_of_handBack (within : d.layout.Within m) (next : d.next? m = some idx) :
    d.layout.offered m d.tail =
      idx :: d.layout.offered (m.after (d.handBackEvents m idx len)) d.advance.tail := by
  rw [Layout.offered_agree (agreeOn_handBack_avail within)]
  exact offered_of_next? next

/-- Handing a descriptor back leaves all buffers where they are. -/
theorem buffer_handBack (within : d.layout.Within m) {i : UInt16}
    (inRing : i.toNat < d.layout.num.toNat) :
    d.layout.buffer (m.after (d.handBackEvents m idx len)) i = d.layout.buffer m i := by
  apply Layout.buffer_agree
  apply Memory.agreeOn_after
  intro e mem
  have areas := d.layout.avail_add_le_used
  have bounds := Layout.descriptor_bounds inRing
  obtain ⟨fits, ⟨inside, -⟩ | inside⟩ := handBackEvents_cases within mem
  · -- The four bytes that are written are the last of one descriptor.
    refine ⟨fits, inside.misses ?_⟩
    simp only [Layout.descriptorAddr, descriptorSize]
    omega
  · exact ⟨fits, inside.misses (by omega)⟩

end Device

/-! ## The driver end -/

namespace Driver

variable {d : Driver} {bus : Bus} {idx : UInt16}

/-- The next used element to take. -/
def nextUsed? (d : Driver) (m : Memory) : Option UsedElem :=
  (d.layout.returned m d.lastUsed).head?

/-- The driver end after an offer. -/
def offering (d : Driver) : Driver :=
  { d with head := d.head + 1 }

/-- The driver end after it took a used element. -/
def collecting (d : Driver) : Driver :=
  { d with lastUsed := d.lastUsed + 1 }

@[simp]
theorem layout_offering (d : Driver) : d.offering.layout = d.layout := rfl

@[simp]
theorem layout_collecting (d : Driver) : d.collecting.layout = d.layout := rfl

theorem takeUsed?_of_next {x : UsedElem} (within : d.layout.Within bus.memory)
    (next : d.nextUsed? bus.memory = some x) :
    d.takeUsed? bus = .ok ((some x, d.collecting), bus) := by
  rw [takeUsed?_eq within]
  by_cases empty : bus.memory.word16 d.layout.usedIdxAddr = d.lastUsed
  · rw [nextUsed?, Layout.returned, entriesUpTo_eq_nil.mpr empty] at next
    cases next
  · rw [nextUsed?, Layout.returned, entriesUpTo_of_ne empty] at next
    cases next
    rw [if_neg empty]
    rfl

theorem takeUsed?_of_none (within : d.layout.Within bus.memory)
    (next : d.nextUsed? bus.memory = none) : d.takeUsed? bus = .ok ((none, d), bus) := by
  rw [takeUsed?_eq within, if_pos (entriesUpTo_eq_nil.mp (List.head?_eq_none_iff.mp next))]

/-- Offering a descriptor writes the available ring. -/
theorem offerEvents_inside (within : d.layout.Within m) {e : Event} (mem : e ∈ d.offerEvents idx) :
    e.Fits m ∧ e.Inside d.layout.avail d.layout.used := by
  have entry := d.layout.availEntry_bounds d.head
  have areas := d.layout.avail_add_le_used
  simp only [offerEvents, List.mem_cons, List.not_mem_nil, or_false] at mem
  rcases mem with rfl | rfl | rfl | rfl
  · refine ⟨by simpa [Event.Fits] using within.covers_availEntry _, ?_⟩
    simp only [Event.Inside, LittleEndian.length_encode16]
    omega
  · exact ⟨trivial, trivial⟩
  · refine ⟨by simpa [Event.Fits] using within.covers_availIdx, ?_⟩
    simp only [Event.Inside, Layout.availIdxAddr_eq, LittleEndian.length_encode16]
    omega
  · exact ⟨trivial, trivial⟩

/-- Offering a descriptor changes nothing outside the available ring. -/
theorem agreeOn_offer (within : d.layout.Within m) {start stop : Nat}
    (apart : stop ≤ d.layout.avail ∨ d.layout.used ≤ start) :
    m.AgreeOn (m.after (d.offerEvents idx)) start stop := by
  apply Memory.agreeOn_after
  intro e mem
  obtain ⟨fits, inside⟩ := offerEvents_inside within mem
  exact ⟨fits, inside.misses apart⟩

/-- Offering a descriptor leaves all buffers where they are. -/
theorem buffer_offer (within : d.layout.Within m) {i : UInt16}
    (inRing : i.toNat < d.layout.num.toNat) :
    d.layout.buffer (m.after (d.offerEvents idx)) i = d.layout.buffer m i := by
  have bounds := Layout.descriptor_bounds inRing
  exact Layout.buffer_agree (agreeOn_offer within (by omega))

end Driver

/-! ## Without regard to the capacity

A ring that is given more than it has room for loses entries, but what then stands in its queue was
put there before or is new. -/

section Entries

variable {α : Type} {read read' : UInt16 → α} {start head : UInt16} {x y : α}

theorem mem_entriesUpTo : x ∈ entriesUpTo read start head ↔
    ∃ k < (head - start).toNat, read (start + UInt16.ofNat k) = x := by
  simp only [entriesUpTo, entries, List.mem_map, List.mem_range]

theorem length_entriesUpTo_succ_le (read read' : UInt16 → α) (start head : UInt16) :
    (entriesUpTo read' start (head + 1)).length ≤ (entriesUpTo read start head).length + 1 := by
  have hs := start.toNat_lt
  have hh := head.toNat_lt
  rw [length_entriesUpTo, length_entriesUpTo, UInt16.toNat_sub, UInt16.toNat_sub, UInt16.toNat_add,
    UInt16.toNat_one]
  omega

/-- Where a write of `y` moves the head on, every entry is `y` or was there. -/
theorem mem_entriesUpTo_succ (new : read' head = y) (same : ∀ i, read' i = y ∨ read' i = read i)
    (mem : x ∈ entriesUpTo read' start (head + 1)) : x = y ∨ x ∈ entriesUpTo read start head := by
  have count := length_entriesUpTo_succ_le read read' start head
  rw [length_entriesUpTo, length_entriesUpTo] at count
  obtain ⟨k, live, rfl⟩ := mem_entriesUpTo.mp mem
  by_cases before : k < (head - start).toNat
  · rcases same (start + UInt16.ofNat k) with it | old
    · exact .inl it
    · exact .inr (mem_entriesUpTo.mpr ⟨k, before, old.symm⟩)
  · obtain rfl : k = (head - start).toNat := by omega
    rw [add_distance]
    exact .inl new

end Entries

namespace Driver

variable {d : Driver} {idx x tail : UInt16}

theorem word16_offer (within : d.layout.Within m) :
    (m.after (d.offerEvents idx)).word16 d.layout.availIdxAddr = d.head + 1 := by
  have moved : (({ memory := m } : Bus).after (d.offerEvents idx)).memory.word16
      d.layout.availIdxAddr = d.head + 1 := word16_after_offer within idx
  rwa [Bus.memory_after] at moved

theorem availEntry_offer (within : d.layout.Within m) (i : UInt16) :
    d.layout.availEntry (m.after (d.offerEvents idx)) i =
      if d.layout.slot i = d.layout.slot d.head then idx else d.layout.availEntry m i := by
  have within' := within.patch (d.layout.availEntryAddr d.head) (encode16 idx)
  show d.layout.availEntry ((m.patch (d.layout.availEntryAddr d.head) (encode16 idx)).patch
    d.layout.availIdxAddr (encode16 (d.head + 1))) i = _
  rw [Layout.availEntry_patch_index within']
  by_cases same : d.layout.slot i = d.layout.slot d.head
  · have addr : d.layout.availEntryAddr i = d.layout.availEntryAddr d.head := by
      rw [Layout.availEntryAddr, Layout.availEntryAddr, same]
    rw [if_pos same, Layout.availEntry, addr]
    exact Layout.availEntry_patch_self within d.head idx
  · rw [if_neg same, Layout.availEntry_patch_of_ne within same]

theorem mem_offered_offer (within : d.layout.Within m)
    (head : m.word16 d.layout.availIdxAddr = d.head)
    (mem : x ∈ d.layout.offered (m.after (d.offerEvents idx)) tail) :
    x = idx ∨ x ∈ d.layout.offered m tail := by
  rw [Layout.offered, word16_offer within] at mem
  rw [Layout.offered, head]
  refine mem_entriesUpTo_succ ?_ ?_ mem
  · rw [availEntry_offer within, if_pos rfl]
  · intro i
    rw [availEntry_offer within]
    split
    · exact .inl rfl
    · exact .inr rfl

theorem length_offered_offer_le (within : d.layout.Within m)
    (head : m.word16 d.layout.availIdxAddr = d.head) :
    (d.layout.offered (m.after (d.offerEvents idx)) tail).length ≤
      (d.layout.offered m tail).length + 1 := by
  rw [Layout.offered, word16_offer within, Layout.offered, head]
  exact length_entriesUpTo_succ_le _ _ _ _

end Driver

namespace Device

variable {d : Device} {idx tail : UInt16} {len : UInt32} {x : UsedElem}

theorem usedElem_return (within : d.layout.Within m) (i : UInt16) :
    d.layout.usedElem (m.after (d.returnEvents m idx len)) i =
      if d.layout.slot i = d.layout.slot (m.word16 d.layout.usedIdxAddr) then ⟨idx.toUInt32, len⟩
        else d.layout.usedElem m i := by
  have within' : d.layout.Within (d.layout.putElem m (m.word16 d.layout.usedIdxAddr)
      ⟨idx.toUInt32, len⟩) := (within.patch _ _).patch _ _
  show d.layout.usedElem ((d.layout.putElem m (m.word16 d.layout.usedIdxAddr)
    ⟨idx.toUInt32, len⟩).patch d.layout.usedIdxAddr
      (encode16 (m.word16 d.layout.usedIdxAddr + 1))) i = _
  rw [Layout.usedElem_patch_index within']
  by_cases same : d.layout.slot i = d.layout.slot (m.word16 d.layout.usedIdxAddr)
  · have addr : d.layout.usedEntryAddr i =
        d.layout.usedEntryAddr (m.word16 d.layout.usedIdxAddr) := by
      rw [Layout.usedEntryAddr, Layout.usedEntryAddr, same]
    rw [if_pos same, Layout.usedElem, addr]
    exact Layout.usedElem_putElem_self within _ _
  · rw [if_neg same, Layout.usedElem_putElem_of_ne within same]

theorem word16_return (within : d.layout.Within m) :
    (m.after (d.returnEvents m idx len)).word16 d.layout.usedIdxAddr =
      m.word16 d.layout.usedIdxAddr + 1 := by
  have within' : d.layout.Within (d.layout.putElem m (m.word16 d.layout.usedIdxAddr)
      ⟨idx.toUInt32, len⟩) := (within.patch _ _).patch _ _
  exact Memory.word16_patch_self _ within'.covers_usedIdx

/-- Unchaining a descriptor does not touch the used ring. -/
theorem agreeOn_unchain_used (within : d.layout.Within m) (inRing : idx.toNat < d.layout.num.toNat) :
    m.AgreeOn (m.after (d.unchainEvents m idx)) d.layout.used d.layout.ringEnd := by
  have areas := d.layout.avail_add_le_used
  have onBus : d.layout.Within ({ memory := m } : Bus).memory := within
  have unchained := agreeOn_after_unchain onBus inRing
  rw [Bus.memory_after] at unchained
  exact unchained.mono (by omega) (Nat.le_refl _)

/-- Handing a descriptor back is unchaining it and then returning it. -/
theorem after_publishEvents (within : d.layout.Within m) (inRing : idx.toNat < d.layout.num.toNat)
    (kick : Bool) : m.after (d.publishEvents m idx len kick) =
      (m.after (d.unchainEvents m idx)).after
        (d.returnEvents (m.after (d.unchainEvents m idx)) idx len) := by
  have onBus : d.layout.Within ({ memory := m } : Bus).memory := within
  have parts : (({ memory := m } : Bus).after (d.publishEvents m idx len kick)).memory = _ :=
    memory_publishEvents onBus inRing kick
  simpa only [Bus.memory_after] using parts

end Device

/-! ## Both ends at a memory -/

namespace Ends

variable {driver : Driver} {device : Device} {idx : UInt16} {len : UInt32}

/-- Both ends at a memory. What was recorded on the bus does not matter to them. -/
def on (m : Memory) (driver : Driver) (device : Device) : Ends :=
  ⟨{ memory := m }, driver, device⟩

@[simp]
theorem offered_on (m : Memory) (driver : Driver) (device : Device) :
    (on m driver device).queues.offered = driver.layout.offered m device.tail := rfl

@[simp]
theorem returned_on (m : Memory) (driver : Driver) (device : Device) :
    (on m driver device).queues.returned = driver.layout.returned m driver.lastUsed := rfl

theorem Sound.of_on {e : Ends} (h : e.Sound) : (on e.bus.memory e.driver e.device).Sound :=
  ⟨h.oneRing, h.within, h.head⟩

/-- While nothing is offered, the two ends agree on how much was offered. -/
theorem Sound.of_avail {driver' : Driver} {device' : Device} (h : (on m driver device).Sound)
    (layout : driver'.layout = driver.layout) (head : driver'.head = driver.head)
    (one : device'.layout = device.layout) (within : driver.layout.Within m')
    (agree : m.AgreeOn m' driver.layout.avail driver.layout.used) :
    (on m' driver' device').Sound := by
  have areas := driver.layout.avail_add_le_used
  have word := agree.word16 (a := driver.layout.availIdxAddr)
    (by rw [Layout.availIdxAddr_eq]; omega) (by rw [Layout.availIdxAddr_eq]; omega)
  have oneRing : device.layout = driver.layout := h.oneRing
  have headNow : m.word16 driver.layout.availIdxAddr = driver.head := h.head
  refine ⟨?_, ?_, ?_⟩
  · show device'.layout = driver'.layout
    rw [one, layout, oneRing]
  · show driver'.layout.Within m'
    rwa [layout]
  · show m'.word16 driver'.layout.availIdxAddr = driver'.head
    rw [layout, head, word, headNow]

/-- An offer keeps the two ends in agreement, also beyond the capacity. -/
theorem Sound.of_offer (h : (on m driver device).Sound) :
    (on (m.after (driver.offerEvents idx)) driver.offering device).Sound := by
  have within : driver.layout.Within m := h.within
  exact ⟨h.oneRing, within.replay _, Driver.word16_offer within⟩

/-- Writes elsewhere do not matter to the two ends. -/
theorem Sound.elsewhere (h : (on m driver device).Sound) (within : driver.layout.Within m')
    (agree : m.AgreeOn m' driver.layout.avail driver.layout.ringEnd) :
    (on m' driver device).Sound ∧
      (on m' driver device).queues = (on m driver device).queues := by
  have areas := driver.layout.avail_add_le_used
  have ends := driver.layout.ringEnd_eq
  have head := agree.word16 (a := driver.layout.availIdxAddr)
    (by rw [Layout.availIdxAddr_eq]; omega) (by rw [Layout.availIdxAddr_eq]; omega)
  refine ⟨⟨h.oneRing, within, head.trans h.head⟩, ?_⟩
  have offered : driver.layout.offered m' device.tail = _ :=
    Layout.offered_agree (agree.mono (Nat.le_refl _) (by omega))
  have returned : driver.layout.returned m' driver.lastUsed = _ :=
    Layout.returned_agree (agree.mono (by omega) (Nat.le_refl _))
  exact congrArg₂ Queues.mk offered returned

/-- An offer within the capacity is an offer to the queues. -/
theorem Sound.offering (h : (on m driver device).Sound)
    (room : (on m driver device).queues.offered.length < driver.layout.num.toNat) :
    (on (m.after (driver.offerEvents idx)) driver.offering device).Sound ∧
      (on (m.after (driver.offerEvents idx)) driver.offering device).queues =
        ((on m driver device).queues.use (.offer idx)).2 := by
  have used : (on m driver device).use (.offer idx) = .ok (.done,
      ⟨(on m driver device).bus.after (driver.offerEvents idx), driver.offering, device⟩) := by
    have answer : driver.offer idx { memory := m } = _ := Driver.offer_eq h.within idx
    show (driver.offer idx { memory := m } >>= _) = _
    rw [answer]
    rfl
  obtain ⟨-, sound, queues, -⟩ := h.of_use (u := .offer idx) room used
  have same := sound.of_on
  simp only [on, Bus.memory_after] at same queues ⊢
  refine ⟨same, ?_⟩
  rw [← queues]
  simp only [Ends.queues, Bus.memory_after]

/-- Handing back a descriptor within the capacity is handing it back to the queues. -/
theorem Sound.handingBack (h : (on m driver device).Sound)
    (inRing : idx.toNat < driver.layout.num.toNat)
    (room : (on m driver device).queues.returned.length < driver.layout.num.toNat) :
    (on (m.after (device.handBackEvents m idx len)) driver device).Sound ∧
      (on (m.after (device.handBackEvents m idx len)) driver device).queues =
        ((on m driver device).queues.use (.publish idx len true)).2 := by
  have used : (on m driver device).use (.publish idx len true) = .ok (.done,
      ⟨(on m driver device).bus.after (device.handBackEvents m idx len), driver, device⟩) := by
    have answer : device.publish idx len true { memory := m } = _ :=
      Device.publish_handBack h.device_within idx len
    show (device.publish idx len true { memory := m } >>= _) = _
    rw [answer]
    rfl
  obtain ⟨-, sound, queues, -⟩ := h.of_use (u := .publish idx len true) ⟨inRing, room⟩ used
  have same := sound.of_on
  simp only [on, Bus.memory_after] at same queues ⊢
  refine ⟨same, ?_⟩
  rw [← queues]
  simp only [Ends.queues, Bus.memory_after]

/-- Taking a descriptor is taking it from the queue. -/
theorem Sound.advancing (h : (on m driver device).Sound) (next : device.next? m = some idx) :
    (on m driver device.advance).Sound ∧
      (on m driver device.advance).queues = ((on m driver device).queues.use .take).2 ∧
        (on m driver device).queues.offered.head? = some idx := by
  have oneRing : device.layout = driver.layout := h.oneRing
  have queue := Device.offered_of_next? next
  rw [oneRing] at queue
  refine ⟨⟨h.oneRing, h.within, h.head⟩, ?_, ?_⟩
  · refine congrArg₂ Queues.mk ?_ rfl
    rw [offered_on, queue]
    rfl
  · rw [offered_on, queue, List.head?_cons]

/-- Taking a used element is taking it from the queue. -/
theorem Sound.collecting {x : UsedElem} (h : (on m driver device).Sound)
    (next : driver.nextUsed? m = some x) :
    (on m driver.collecting device).Sound ∧
      (on m driver.collecting device).queues = ((on m driver device).queues.use .takeUsed).2 ∧
        (on m driver device).queues.returned.head? = some x := by
  refine ⟨⟨h.oneRing, h.within, h.head⟩, ?_, next⟩
  refine congrArg₂ Queues.mk rfl ?_
  have some : m.word16 driver.layout.usedIdxAddr ≠ driver.lastUsed := by
    intro empty
    rw [Driver.nextUsed?, Layout.returned, entriesUpTo_eq_nil.mpr empty] at next
    cases next
  show driver.layout.returned m driver.collecting.lastUsed =
    (driver.layout.returned m driver.lastUsed).tail
  rw [Layout.returned, Layout.returned, entriesUpTo_of_ne some]
  rfl

end Ends

end Ring

end InterCore
