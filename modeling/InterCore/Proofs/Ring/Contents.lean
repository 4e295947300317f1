import InterCore.Proofs.Ring.Events

/-!
# The contents of the rings

Between the tail of the end that reads and the head that stands in memory each ring holds a queue:
`Layout.offered` is the queue of the available ring and `Layout.returned` that of the used ring.
The distance of two 16-bit indices is taken modulo the number of indices, and what lies between
them is read slot by slot, so the queues are the same before and after an index wraps. Moving the
head appends one entry if the ring has room, moving the tail removes the first, and a write outside
the area of a ring leaves its queue alone.
-/

namespace InterCore.Ring

open LittleEndian (encode16 encode32)

/-! ## Entries under successive indices -/

section Entries

variable {α : Type} {read : UInt16 → α} {start head : UInt16}

/-- What stands under successive indices. -/
def entries (read : UInt16 → α) (start : UInt16) (count : Nat) : List α :=
  (List.range count).map fun k => read (start + UInt16.ofNat k)

/-- What stands under the indices from `start` up to `head`, which is not included. -/
def entriesUpTo (read : UInt16 → α) (start head : UInt16) : List α :=
  entries read start (head - start).toNat

@[simp]
theorem length_entriesUpTo (read : UInt16 → α) (start head : UInt16) :
    (entriesUpTo read start head).length = (head - start).toNat := by
  simp [entriesUpTo, entries]

theorem add_distance (start head : UInt16) :
    start + UInt16.ofNat (head - start).toNat = head := by
  rw [UInt16.ofNat_toNat, UInt16.add_comm, UInt16.sub_add_cancel]

theorem add_ofNat_succ (start : UInt16) (k : Nat) :
    start + UInt16.ofNat (k + 1) = start + 1 + UInt16.ofNat k := by
  rw [UInt16.ofNat_add, UInt16.add_comm (UInt16.ofNat k), ← UInt16.add_assoc]
  rfl

/-- Two indices are equal if and only if nothing lies between them. -/
theorem entriesUpTo_eq_nil : entriesUpTo read start head = [] ↔ head = start := by
  rw [← List.length_eq_zero_iff, length_entriesUpTo]
  constructor
  · intro none
    rw [← add_distance start head, none]
    exact UInt16.add_zero start
  · rintro rfl
    rw [UInt16.sub_self]
    rfl

/-- What an end sees that compares the two indices. -/
theorem isEmpty_entriesUpTo (read : UInt16 → α) (start head : UInt16) :
    (!(entriesUpTo read start head).isEmpty) = (head != start) := by
  rw [Bool.eq_iff_iff, Bool.not_eq_true', List.isEmpty_eq_false_iff, bne_iff_ne, ne_eq, ne_eq,
    entriesUpTo_eq_nil]

/-- The first entry is the one at the tail. -/
theorem entriesUpTo_of_ne (h : head ≠ start) :
    entriesUpTo read start head = read start :: entriesUpTo read (start + 1) head := by
  have lower : start.toNat ≠ head.toNat := fun same => h (UInt16.toNat_inj.mp same.symm)
  have hs := start.toNat_lt
  have hh := head.toNat_lt
  have count : (head - start).toNat = (head - (start + 1)).toNat + 1 := by
    rw [UInt16.toNat_sub, UInt16.toNat_sub, UInt16.toNat_add, UInt16.toNat_one]
    omega
  unfold entriesUpTo entries
  rw [count, List.range_succ_eq_map, List.map_cons, List.map_map]
  refine congrArg₂ List.cons (congrArg read (UInt16.add_zero start)) ?_
  exact List.map_congr_left fun k _ => congrArg read (add_ofNat_succ start k)

/-- Moving the head on appends the entry that it passes. -/
theorem entriesUpTo_succ (read read' : UInt16 → α) (room : (head - start).toNat < 65535)
    (same : ∀ k < (head - start).toNat,
      read' (start + UInt16.ofNat k) = read (start + UInt16.ofNat k)) :
    entriesUpTo read' start (head + 1) = entriesUpTo read start head ++ [read' head] := by
  have hs := start.toNat_lt
  have hh := head.toNat_lt
  have count : (head + 1 - start).toNat = (head - start).toNat + 1 := by
    rw [UInt16.toNat_sub] at room
    rw [UInt16.toNat_sub, UInt16.toNat_sub, UInt16.toNat_add, UInt16.toNat_one]
    omega
  unfold entriesUpTo entries
  rw [count, List.range_succ, List.map_append, List.map_singleton, add_distance]
  refine congrArg (· ++ [read' head]) (List.map_congr_left fun k hk => same k ?_)
  exact List.mem_range.mp hk

end Entries

/-! ## The two queues -/

namespace Layout

variable {l : Layout} {m m' : Memory} {tail : UInt16}

/-- Entry number `idx` of the available ring as it stands in memory. -/
def availEntry (l : Layout) (m : Memory) (idx : UInt16) : UInt16 :=
  m.word16 (l.availEntryAddr idx)

/-- The descriptors that were offered and not yet taken, given how far the device has read. -/
def offered (l : Layout) (m : Memory) (tail : UInt16) : List UInt16 :=
  entriesUpTo (l.availEntry m) tail (m.word16 l.availIdxAddr)

/-- The used elements that were not yet taken, given how far the driver has read. -/
def returned (l : Layout) (m : Memory) (lastUsed : UInt16) : List UsedElem :=
  entriesUpTo (l.usedElem m) lastUsed (m.word16 l.usedIdxAddr)

/-- An index shows fewer entries than there are indices. -/
theorem length_offered_lt (l : Layout) (m : Memory) (tail : UInt16) :
    (l.offered m tail).length < UInt16.size := by
  rw [offered, length_entriesUpTo]
  exact UInt16.toNat_lt _

/-- The offered descriptors depend on the area of the available ring alone. -/
theorem offered_agree (h : m.AgreeOn m' l.avail l.used) : l.offered m' tail = l.offered m tail := by
  have index : m'.word16 l.availIdxAddr = m.word16 l.availIdxAddr := by
    have := l.avail_add_le_used
    exact h.word16 (by rw [availIdxAddr_eq]; omega) (by rw [availIdxAddr_eq]; omega)
  unfold offered
  rw [index]
  apply congrArg (entriesUpTo · tail _)
  funext idx
  have bounds := l.availEntry_bounds idx
  exact h.word16 (by omega) bounds.2

theorem usedElem_agree (h : m.AgreeOn m' l.used l.ringEnd) (idx : UInt16) :
    l.usedElem m' idx = l.usedElem m idx := by
  have bounds := l.usedEntry_bounds idx
  unfold usedElem UsedElem.idOffset UsedElem.lenOffset
  rw [h.word32 (by omega) (by omega), h.word32 (by omega) (by omega)]

/-- The returned descriptors depend on the area of the used ring alone. -/
theorem returned_agree (h : m.AgreeOn m' l.used l.ringEnd) :
    l.returned m' tail = l.returned m tail := by
  have index : m'.word16 l.usedIdxAddr = m.word16 l.usedIdxAddr :=
    h.word16 (by rw [usedIdxAddr_eq]; omega) (by rw [usedIdxAddr_eq, ringEnd_eq]; omega)
  unfold returned
  rw [index]
  exact congrArg (entriesUpTo · tail _) (funext fun idx => usedElem_agree h idx)

/-- A live index of a ring and the index of the next entry stand in different slots. -/
theorem slot_ne_of_live {start head : UInt16} {k : Nat} (live : k < (head - start).toNat)
    (room : (head - start).toNat < l.num.toNat) :
    l.slot (start + UInt16.ofNat k) ≠ l.slot head := by
  have apart := l.slot_add_ne start (Nat.lt_trans live room) room (Nat.ne_of_lt live)
  rwa [add_distance] at apart

/-! ### Writing an entry or an index -/

theorem availEntry_patch_self (within : l.Within m) (i idx : UInt16) :
    l.availEntry (m.patch (l.availEntryAddr i) (encode16 idx)) i = idx :=
  Memory.word16_patch_self _ (within.covers_availEntry _)

theorem availEntry_patch_of_ne (within : l.Within m) {i j : UInt16} (apart : l.slot i ≠ l.slot j)
    (idx : UInt16) :
    l.availEntry (m.patch (l.availEntryAddr j) (encode16 idx)) i = l.availEntry m i := by
  have := availEntry_apart apart
  refine Memory.word16_patch_apart ?_ ?_
  · simpa using within.covers_availEntry _
  · rw [LittleEndian.length_encode16]
    omega

theorem availEntry_patch_index (within : l.Within m) (i head : UInt16) :
    l.availEntry (m.patch l.availIdxAddr (encode16 head)) i = l.availEntry m i := by
  have bounds := l.availEntry_bounds i
  refine Memory.word16_patch_apart ?_ (.inl ?_)
  · simpa using within.covers_availIdx
  · rw [LittleEndian.length_encode16, availIdxAddr_eq]
    omega

/-- The memory with an element written into the used ring. -/
def putElem (l : Layout) (m : Memory) (i : UInt16) (x : UsedElem) : Memory :=
  (m.patch (l.usedEntryAddr i + UsedElem.idOffset) (encode32 x.id)).patch
    (l.usedEntryAddr i + UsedElem.lenOffset) (encode32 x.len)

theorem usedElem_putElem_self (within : l.Within m) (i : UInt16) (x : UsedElem) :
    l.usedElem (l.putElem m i x) i = x := by
  have idFits : m.Covers (l.usedEntryAddr i + UsedElem.idOffset) 4 :=
    within.covers_usedEntry i (by decide)
  have lenFits : m.Covers (l.usedEntryAddr i + UsedElem.lenOffset) 4 :=
    within.covers_usedEntry i (by decide)
  unfold usedElem putElem
  rw [Memory.word32_patch_apart (by simpa using lenFits)
      (.inr (by rw [UsedElem.idOffset, UsedElem.lenOffset])),
    Memory.word32_patch_self _ idFits,
    Memory.word32_patch_self _ (Memory.covers_patch.mpr lenFits)]

theorem usedElem_putElem_of_ne (within : l.Within m) {i j : UInt16} (apart : l.slot i ≠ l.slot j)
    (x : UsedElem) : l.usedElem (l.putElem m j x) i = l.usedElem m i := by
  have entries := usedEntry_apart apart
  have word {offset : Nat} (inside : offset + 4 ≤ 8) :
      (l.putElem m j x).word32 (l.usedEntryAddr i + offset) =
        m.word32 (l.usedEntryAddr i + offset) := by
    unfold putElem
    rw [Memory.word32_patch_apart, Memory.word32_patch_apart]
    · simpa using within.covers_usedEntry j (by decide)
    · rw [LittleEndian.length_encode32, UsedElem.idOffset]
      omega
    · simpa using within.covers_usedEntry j (by decide)
    · rw [LittleEndian.length_encode32, UsedElem.lenOffset]
      omega
  unfold usedElem
  rw [word (by decide), word (by decide)]

theorem usedElem_patch_index (within : l.Within m) (i head : UInt16) :
    l.usedElem (m.patch l.usedIdxAddr (encode16 head)) i = l.usedElem m i := by
  have bounds := l.usedEntry_bounds i
  have word (offset : Nat) :
      (m.patch l.usedIdxAddr (encode16 head)).word32 (l.usedEntryAddr i + offset) =
        m.word32 (l.usedEntryAddr i + offset) := by
    refine Memory.word32_patch_apart ?_ (.inl ?_)
    · simpa using within.covers_usedIdx
    · rw [LittleEndian.length_encode16, usedIdxAddr_eq]
      omega
  unfold usedElem
  rw [word, word]

end Layout

/-! ## What the operations do to the queues -/

section Effects

variable {bus : Bus}

namespace Driver

variable {d : Driver} {tail : UInt16} {idx : UInt16}

theorem memory_createEvents (l : Layout) (buffers bufSize : UInt32) :
    (bus.after (createEvents l buffers bufSize)).memory =
      ((((bus.after (pointEvents l buffers bufSize l.num.toNat 0)).memory.patch l.availFlagsAddr
        (encode16 0)).patch l.availIdxAddr (encode16 0)).patch l.usedFlagsAddr (encode16 0)).patch
          l.usedIdxAddr (encode16 0) := by
  rw [createEvents, Bus.after_append]
  rfl

/-- A ring that was set up is empty in both directions. -/
theorem queues_after_create {l : Layout} (within : l.Within bus.memory) (buffers bufSize : UInt32) :
    (bus.after (createEvents l buffers bufSize)).memory.word16 l.availIdxAddr = 0 ∧
      l.offered (bus.after (createEvents l buffers bufSize)).memory 0 = [] ∧
      l.returned (bus.after (createEvents l buffers bufSize)).memory 0 = [] := by
  have w1 := within.after (pointEvents l buffers bufSize l.num.toNat 0)
  have w2 := w1.patch l.availFlagsAddr (encode16 0)
  have w3 := w2.patch l.availIdxAddr (encode16 0)
  have w4 := w3.patch l.usedFlagsAddr (encode16 0)
  have below := l.avail_add_le_used
  have usedIdx :
      (bus.after (createEvents l buffers bufSize)).memory.word16 l.usedIdxAddr = 0 := by
    rw [memory_createEvents]
    exact Memory.word16_patch_self 0 w4.covers_usedIdx
  have availIdx :
      (bus.after (createEvents l buffers bufSize)).memory.word16 l.availIdxAddr = 0 := by
    rw [memory_createEvents, Memory.word16_patch_apart, Memory.word16_patch_apart]
    · exact Memory.word16_patch_self 0 w2.covers_availIdx
    · simpa using w3.covers_usedFlags
    · rw [Layout.usedFlagsAddr_eq, Layout.availIdxAddr_eq]
      omega
    · simpa using w4.covers_usedIdx
    · rw [Layout.usedIdxAddr_eq, Layout.availIdxAddr_eq]
      omega
  exact ⟨availIdx, entriesUpTo_eq_nil.mpr availIdx, entriesUpTo_eq_nil.mpr usedIdx⟩

theorem memory_offerEvents :
    (bus.after (d.offerEvents idx)).memory =
      (bus.memory.patch (d.layout.availEntryAddr d.head) (encode16 idx)).patch
        d.layout.availIdxAddr (encode16 (d.head + 1)) := rfl

theorem word16_after_offer (within : d.layout.Within bus.memory) (idx : UInt16) :
    (bus.after (d.offerEvents idx)).memory.word16 d.layout.availIdxAddr = d.head + 1 := by
  rw [memory_offerEvents]
  exact Memory.word16_patch_self _ (Memory.covers_patch.mpr within.covers_availIdx)

/-- Offering a descriptor appends it to the queue of the available ring, if there is room. -/
theorem offered_after_offer (within : d.layout.Within bus.memory)
    (head : bus.memory.word16 d.layout.availIdxAddr = d.head)
    (room : (d.layout.offered bus.memory tail).length < d.layout.num.toNat) (idx : UInt16) :
    d.layout.offered (bus.after (d.offerEvents idx)).memory tail =
      d.layout.offered bus.memory tail ++ [idx] := by
  have moved := word16_after_offer within idx
  rw [Layout.offered, length_entriesUpTo, head] at room
  have within' : d.layout.Within (bus.memory.patch (d.layout.availEntryAddr d.head) (encode16 idx)) :=
    within.patch _ _
  have new : d.layout.availEntry (bus.after (d.offerEvents idx)).memory d.head = idx := by
    rw [memory_offerEvents, Layout.availEntry_patch_index within',
      Layout.availEntry_patch_self within]
  -- The ring is not full, so the new entry goes to a slot that no live entry has.
  have old (k : Nat) (live : k < (d.head - tail).toNat) :
      d.layout.availEntry (bus.after (d.offerEvents idx)).memory (tail + UInt16.ofNat k) =
        d.layout.availEntry bus.memory (tail + UInt16.ofNat k) := by
    rw [memory_offerEvents, Layout.availEntry_patch_index within',
      Layout.availEntry_patch_of_ne within (Layout.slot_ne_of_live live room)]
  have num := d.layout.num_le
  unfold Layout.offered
  rw [moved, head, entriesUpTo_succ _ _ (by omega) old, new]

/-- Offering a descriptor does not touch the used ring. -/
theorem returned_after_offer (within : d.layout.Within bus.memory) (idx tail : UInt16) :
    d.layout.returned (bus.after (d.offerEvents idx)).memory tail =
      d.layout.returned bus.memory tail := by
  apply Layout.returned_agree
  apply Bus.agreeOn_after
  intro e he
  have entry := d.layout.availEntry_bounds d.head
  have areas := d.layout.avail_add_le_used
  simp only [offerEvents, List.mem_cons, List.not_mem_nil, or_false] at he
  rcases he with rfl | rfl | rfl | rfl
  · refine ⟨?_, .inl ?_⟩
    · simpa [Event.Fits] using within.covers_availEntry _
    · rw [LittleEndian.length_encode16]
      omega
  · exact ⟨trivial, trivial⟩
  · refine ⟨?_, .inl ?_⟩
    · simpa [Event.Fits] using within.covers_availIdx
    · rw [LittleEndian.length_encode16, Layout.availIdxAddr_eq]
      omega
  · exact ⟨trivial, trivial⟩

end Driver

namespace Device

variable {d : Device} {idx : UInt16} {len : UInt32} {tail : UInt16}

/-- Unchaining a descriptor writes its last four bytes. -/
theorem unchainEvents_inside {m m₁ : Memory} (within : d.layout.Within m)
    (inRing : idx.toNat < d.layout.num.toNat) {e : Event} (mem : e ∈ d.unchainEvents m₁ idx) :
    e.Fits m ∧ e.Inside (d.layout.descriptorAddr idx + 12) (d.layout.descriptorAddr idx + 16) := by
  simp only [unchainEvents, List.mem_cons, List.not_mem_nil, or_false] at mem
  rcases mem with rfl | rfl
  · refine ⟨?_, ?_⟩
    · simpa [Event.Fits] using within.covers_descriptor inRing (by decide)
    · simp [Event.Inside, Descriptor.flagsOffset]
  · refine ⟨?_, ?_⟩
    · simpa [Event.Fits] using within.covers_descriptor inRing (by decide)
    · simp [Event.Inside, Descriptor.nextOffset]

/-- Unchaining a descriptor touches neither ring. -/
theorem agreeOn_after_unchain (within : d.layout.Within bus.memory)
    (inRing : idx.toNat < d.layout.num.toNat) :
    bus.memory.AgreeOn (bus.after (d.unchainEvents bus.memory idx)).memory
      d.layout.avail d.layout.ringEnd := by
  apply Bus.agreeOn_after
  intro e mem
  obtain ⟨fits, inside⟩ := unchainEvents_inside within inRing mem
  have bounds := Layout.descriptor_bounds inRing
  exact ⟨fits, inside.misses (.inr (by omega))⟩

/-- Putting an element into the used ring writes the next entry there and the index. -/
theorem returnEvents_cases {m : Memory} (within : d.layout.Within m) {e : Event}
    (mem : e ∈ d.returnEvents m idx len) :
    e.Fits m ∧ (e.Inside (d.layout.usedEntryAddr (m.word16 d.layout.usedIdxAddr))
        (d.layout.usedEntryAddr (m.word16 d.layout.usedIdxAddr) + 8) ∨
      e.Inside d.layout.usedIdxAddr (d.layout.usedIdxAddr + 2)) := by
  simp only [returnEvents, List.mem_cons, List.not_mem_nil, or_false] at mem
  rcases mem with rfl | rfl | rfl | rfl | rfl | rfl
  · refine ⟨?_, .inl ?_⟩
    · simpa [Event.Fits] using within.covers_usedEntry _ (by decide)
    · simp [Event.Inside, UsedElem.idOffset]
  · refine ⟨?_, .inl ?_⟩
    · simpa [Event.Fits] using within.covers_usedEntry _ (by decide)
    · simp [Event.Inside, UsedElem.lenOffset]
  · exact ⟨trivial, .inr trivial⟩
  · refine ⟨?_, .inr ?_⟩
    · simpa [Event.Fits] using within.covers_usedIdx
    · simp [Event.Inside]
  · exact ⟨trivial, .inr trivial⟩
  · exact ⟨trivial, .inr trivial⟩

theorem returnEvents_inside {m : Memory} (within : d.layout.Within m) {e : Event}
    (mem : e ∈ d.returnEvents m idx len) :
    e.Fits m ∧ e.Inside d.layout.used d.layout.ringEnd := by
  have entry := d.layout.usedEntry_bounds (m.word16 d.layout.usedIdxAddr)
  have index := d.layout.usedIdxAddr_eq
  have ends := d.layout.ringEnd_eq
  obtain ⟨fits, inside | inside⟩ := returnEvents_cases within mem
  · exact ⟨fits, inside.mono (by omega) entry.2⟩
  · exact ⟨fits, inside.mono (by omega) (by omega)⟩

/-- Putting an element into the used ring does not touch the available ring. -/
theorem agreeOn_after_return (within : d.layout.Within bus.memory) :
    bus.memory.AgreeOn (bus.after (d.returnEvents bus.memory idx len)).memory
      d.layout.avail d.layout.used := by
  apply Bus.agreeOn_after
  intro e mem
  obtain ⟨fits, inside⟩ := returnEvents_inside within mem
  exact ⟨fits, inside.misses (.inl (Nat.le_refl _))⟩

theorem memory_returnEvents :
    (bus.after (d.returnEvents bus.memory idx len)).memory =
      (d.layout.putElem bus.memory (bus.memory.word16 d.layout.usedIdxAddr)
        ⟨idx.toUInt32, len⟩).patch d.layout.usedIdxAddr
          (encode16 (bus.memory.word16 d.layout.usedIdxAddr + 1)) := rfl

/-- Putting an element into the used ring appends it to the queue, if there is room. -/
theorem returned_after_return (within : d.layout.Within bus.memory)
    (room : (d.layout.returned bus.memory tail).length < d.layout.num.toNat) :
    d.layout.returned (bus.after (d.returnEvents bus.memory idx len)).memory tail =
      d.layout.returned bus.memory tail ++ [⟨idx.toUInt32, len⟩] := by
  rw [Layout.returned, length_entriesUpTo] at room
  have within' (i : UInt16) (x : UsedElem) : d.layout.Within (d.layout.putElem bus.memory i x) :=
    (within.patch _ _).patch _ _
  have moved : (bus.after (d.returnEvents bus.memory idx len)).memory.word16
      d.layout.usedIdxAddr = bus.memory.word16 d.layout.usedIdxAddr + 1 := by
    rw [memory_returnEvents]
    exact Memory.word16_patch_self _ (within' _ _).covers_usedIdx
  have new : d.layout.usedElem (bus.after (d.returnEvents bus.memory idx len)).memory
      (bus.memory.word16 d.layout.usedIdxAddr) = ⟨idx.toUInt32, len⟩ := by
    rw [memory_returnEvents, Layout.usedElem_patch_index (within' _ _),
      Layout.usedElem_putElem_self within]
  have old (k : Nat) (live : k < (bus.memory.word16 d.layout.usedIdxAddr - tail).toNat) :
      d.layout.usedElem (bus.after (d.returnEvents bus.memory idx len)).memory
          (tail + UInt16.ofNat k) =
        d.layout.usedElem bus.memory (tail + UInt16.ofNat k) := by
    rw [memory_returnEvents, Layout.usedElem_patch_index (within' _ _),
      Layout.usedElem_putElem_of_ne within (Layout.slot_ne_of_live live room)]
  have num := d.layout.num_le
  unfold Layout.returned
  rw [moved, entriesUpTo_succ _ _ (by omega) old, new]

theorem returnEvents_agree {m m' : Memory} (h : m.AgreeOn m' d.layout.used d.layout.ringEnd) :
    d.returnEvents m' idx len = d.returnEvents m idx len := by
  have index : m'.word16 d.layout.usedIdxAddr = m.word16 d.layout.usedIdxAddr :=
    h.word16 (by rw [Layout.usedIdxAddr_eq]; omega)
      (by rw [Layout.usedIdxAddr_eq, Layout.ringEnd_eq]; omega)
  unfold returnEvents
  rw [index]

theorem memory_kickEvents (kick : Bool) : (bus.after (kickEvents kick)).memory = bus.memory := by
  cases kick <;> rfl

/-- What handing a descriptor back does to the memory, in two parts. -/
theorem memory_publishEvents (within : d.layout.Within bus.memory)
    (inRing : idx.toNat < d.layout.num.toNat) (kick : Bool) :
    (bus.after (d.publishEvents bus.memory idx len kick)).memory =
      ((bus.after (d.unchainEvents bus.memory idx)).after (d.returnEvents
        (bus.after (d.unchainEvents bus.memory idx)).memory idx len)).memory := by
  have agree := agreeOn_after_unchain within inRing
  have areas := d.layout.avail_add_le_used
  rw [publishEvents, Bus.after_append, Bus.after_append, memory_kickEvents,
    returnEvents_agree (agree.mono (by omega) (Nat.le_refl _))]

/-- Handing a descriptor back appends it to the queue of the used ring, if there is room. -/
theorem returned_after_publish (within : d.layout.Within bus.memory)
    (inRing : idx.toNat < d.layout.num.toNat) (len : UInt32) (kick : Bool)
    (room : (d.layout.returned bus.memory tail).length < d.layout.num.toNat) :
    d.layout.returned (bus.after (d.publishEvents bus.memory idx len kick)).memory tail =
      d.layout.returned bus.memory tail ++ [⟨idx.toUInt32, len⟩] := by
  have areas := d.layout.avail_add_le_used
  have same : d.layout.returned (bus.after (d.unchainEvents bus.memory idx)).memory tail =
      d.layout.returned bus.memory tail :=
    Layout.returned_agree ((agreeOn_after_unchain within inRing).mono (by omega) (Nat.le_refl _))
  rw [memory_publishEvents within inRing, returned_after_return (within.after _) (by rwa [same]),
    same]

/-- Handing a descriptor back does not touch the available ring. -/
theorem agreeOn_after_publish (within : d.layout.Within bus.memory)
    (inRing : idx.toNat < d.layout.num.toNat) (len : UInt32) (kick : Bool) :
    bus.memory.AgreeOn (bus.after (d.publishEvents bus.memory idx len kick)).memory
      d.layout.avail d.layout.used := by
  rw [memory_publishEvents within inRing]
  refine ((agreeOn_after_unchain within inRing).mono (Nat.le_refl _) ?_).trans
    (agreeOn_after_return (within.after _))
  rw [Layout.ringEnd_eq]
  omega

end Device

end Effects

end InterCore.Ring
