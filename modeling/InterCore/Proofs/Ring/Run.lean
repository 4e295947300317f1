import InterCore.Proofs.Ring.Contents

/-!
# Runs of a ring

Both ends of a ring over one memory, used in any order. A ring is two queues (`Ends.queues`): the
offered descriptors and the returned elements. While no queue is longer than the ring, every use of
the ring succeeds and is the use of the two queues (`Sound.use`).
-/

namespace InterCore.Ring

/-- Both ends of a ring, and the memory between them. -/
structure Ends where
  bus : Bus
  driver : Driver
  device : Device

/-- One use of a ring, by either end. -/
inductive Use where
  | offer (idx : UInt16)
  | take
  | hasIncoming
  | publish (idx : UInt16) (len : UInt32) (kick : Bool)
  | takeUsed
  | hasUsed
  deriving DecidableEq, Repr

/-- What a use answers. -/
inductive Answer where
  | done
  | index (idx : Option UInt16)
  | elem (x : Option UsedElem)
  | flag (b : Bool)
  deriving DecidableEq, Repr

/-- A use with its answer. -/
abbrev Record := Use × Answer

namespace Ends

/-- The driver sets up a ring and the device attaches to it. -/
def setUp (base : UInt32) (num : UInt16) (buffers bufSize : UInt32) (bus : Bus) :
    Except Fault Ends := do
  let (driver, bus) ← Driver.create base num buffers bufSize bus
  let device ← Device.attach base num
  return { bus, driver, device }

/-- Uses the ring once. -/
def use (e : Ends) : Use → Except Fault (Answer × Ends)
  | .offer idx => do
    let (driver, bus) ← e.driver.offer idx e.bus
    return (.done, { e with driver, bus })
  | .take => do
    let ((idx, device), bus) ← e.device.take? e.bus
    return (.index idx, { e with device, bus })
  | .hasIncoming => do
    let (b, bus) ← e.device.hasIncoming e.bus
    return (.flag b, { e with bus })
  | .publish idx len kick => do
    let (_, bus) ← e.device.publish idx len kick e.bus
    return (.done, { e with bus })
  | .takeUsed => do
    let ((x, driver), bus) ← e.driver.takeUsed? e.bus
    return (.elem x, { e with driver, bus })
  | .hasUsed => do
    let (b, bus) ← e.driver.hasUsed e.bus
    return (.flag b, { e with bus })

/-- The states that uses lead to from `start`, with the record of the uses. A use is made only if
`admits` allows it after what was done before. -/
inductive Run (admits : List Record → Use → Prop) (start : Ends) : List Record → Ends → Prop where
  | start : Run admits start [] start
  | use {past : List Record} {e e' : Ends} {u : Use} {a : Answer} :
      Run admits start past e → admits past u → e.use u = .ok (a, e') →
        Run admits start (past ++ [(u, a)]) e'

end Ends

/-! ## Two queues -/

/-- What a ring stands for: the offered descriptors and the returned elements, the oldest first. -/
structure Queues where
  offered : List UInt16 := []
  returned : List UsedElem := []
  deriving DecidableEq, Repr

/-- A use of the ring as a use of the two queues. -/
def Queues.use (q : Queues) : Use → Answer × Queues
  | .offer idx => (.done, { q with offered := q.offered ++ [idx] })
  | .take => (.index q.offered.head?, { q with offered := q.offered.tail })
  | .hasIncoming => (.flag (!q.offered.isEmpty), q)
  | .publish idx len _ => (.done, { q with returned := q.returned ++ [⟨idx.toUInt32, len⟩] })
  | .takeUsed => (.elem q.returned.head?, { q with returned := q.returned.tail })
  | .hasUsed => (.flag (!q.returned.isEmpty), q)

/-- The queues have room for what a use puts into them, in a ring of `num` descriptors. -/
def Queues.Room (q : Queues) (num : Nat) : Use → Prop
  | .offer _ => q.offered.length < num
  | .publish idx _ _ => idx.toNat < num ∧ q.returned.length < num
  | _ => True

namespace Ends

/-- The queues that lie in the memory between the two ends. -/
def queues (e : Ends) : Queues :=
  ⟨e.driver.layout.offered e.bus.memory e.device.tail,
    e.driver.layout.returned e.bus.memory e.driver.lastUsed⟩

/-- Both ends are at one ring within the memory, and the driver's count of the descriptors that it
offered stands there. -/
structure Sound (e : Ends) : Prop where
  oneRing : e.device.layout = e.driver.layout
  within : e.driver.layout.Within e.bus.memory
  head : e.bus.memory.word16 e.driver.layout.availIdxAddr = e.driver.head

/-- A use of the ring goes as the use of its queues. -/
def Simulates (e : Ends) (u : Use) : Prop :=
  ∃ e', e.use u = .ok ((e.queues.use u).1, e') ∧ e'.Sound ∧ e'.queues = (e.queues.use u).2 ∧
    e'.driver.layout = e.driver.layout

namespace Sound

variable {e : Ends}

theorem device_within (h : e.Sound) : e.device.layout.Within e.bus.memory := by
  rw [h.oneRing]
  exact h.within

theorem offer (h : e.Sound) {idx : UInt16}
    (room : e.queues.offered.length < e.driver.layout.num.toNat) : e.Simulates (.offer idx) := by
  have offered := Driver.offered_after_offer h.within h.head room idx
  have returned := Driver.returned_after_offer h.within idx e.driver.lastUsed
  refine ⟨⟨e.bus.after (e.driver.offerEvents idx), { e.driver with head := e.driver.head + 1 },
    e.device⟩, ?_, ⟨h.oneRing, h.within.after _, Driver.word16_after_offer h.within idx⟩, ?_, rfl⟩
  · rw [Ends.use, Driver.offer_eq h.within]
    rfl
  · unfold queues
    rw [offered, returned]
    rfl

theorem publish (h : e.Sound) {idx : UInt16} {len : UInt32} {kick : Bool}
    (inRing : idx.toNat < e.driver.layout.num.toNat)
    (room : e.queues.returned.length < e.driver.layout.num.toNat) :
    e.Simulates (.publish idx len kick) := by
  have own : idx.toNat < e.device.layout.num.toNat := by rwa [h.oneRing]
  have within := h.device_within
  have available := Device.agreeOn_after_publish within own len kick
  have returned := Device.returned_after_publish within own len kick (by rwa [h.oneRing])
  rw [h.oneRing] at available returned
  have below := e.driver.layout.avail_add_le_used
  have head := available.word16 (a := e.driver.layout.availIdxAddr)
    (by rw [Layout.availIdxAddr_eq]; omega) (by rw [Layout.availIdxAddr_eq]; omega)
  refine ⟨{ e with bus := e.bus.after (e.device.publishEvents e.bus.memory idx len kick) }, ?_,
    ⟨h.oneRing, h.within.after _, head.trans h.head⟩, ?_, rfl⟩
  · rw [Ends.use, Device.publish_eq within own]
    rfl
  · unfold queues
    rw [Layout.offered_agree available, returned]
    rfl

theorem take (h : e.Sound) : e.Simulates .take := by
  have answer := Device.take?_eq h.device_within
  by_cases empty : e.bus.memory.word16 e.driver.layout.availIdxAddr = e.device.tail
  · have none : e.queues.offered = [] := entriesUpTo_eq_nil.mpr empty
    rw [h.oneRing, if_pos empty] at answer
    refine ⟨e, ?_, h, ?_, rfl⟩
    · rw [Ends.use, answer, Queues.use, none]
      rfl
    · rw [Queues.use, none, List.tail_nil, ← none]
  · have first : e.queues.offered =
        e.device.layout.availEntry e.bus.memory e.device.tail ::
          e.driver.layout.offered e.bus.memory (e.device.tail + 1) := by
      rw [h.oneRing]
      exact entriesUpTo_of_ne empty
    rw [if_neg (by rwa [h.oneRing])] at answer
    refine ⟨{ e with device := { e.device with tail := e.device.tail + 1 } }, ?_,
      ⟨h.oneRing, h.within, h.head⟩, ?_, rfl⟩
    · rw [Ends.use, answer, Queues.use, first]
      rfl
    · rw [Queues.use, first]
      rfl

theorem takeUsed (h : e.Sound) : e.Simulates .takeUsed := by
  have answer := Driver.takeUsed?_eq h.within
  by_cases empty : e.bus.memory.word16 e.driver.layout.usedIdxAddr = e.driver.lastUsed
  · have none : e.queues.returned = [] := entriesUpTo_eq_nil.mpr empty
    rw [if_pos empty] at answer
    refine ⟨e, ?_, h, ?_, rfl⟩
    · rw [Ends.use, answer, Queues.use, none]
      rfl
    · rw [Queues.use, none, List.tail_nil, ← none]
  · have first : e.queues.returned =
        e.driver.layout.usedElem e.bus.memory e.driver.lastUsed ::
          e.driver.layout.returned e.bus.memory (e.driver.lastUsed + 1) := entriesUpTo_of_ne empty
    rw [if_neg empty] at answer
    refine ⟨{ e with driver := { e.driver with lastUsed := e.driver.lastUsed + 1 } }, ?_,
      ⟨h.oneRing, h.within, h.head⟩, ?_, rfl⟩
    · rw [Ends.use, answer, Queues.use, first]
      rfl
    · rw [Queues.use, first]
      rfl

theorem hasIncoming (h : e.Sound) : e.Simulates .hasIncoming := by
  have answer := Device.hasIncoming_eq h.device_within
  have seen : (e.bus.memory.word16 e.device.layout.availIdxAddr != e.device.tail) =
      !e.queues.offered.isEmpty := by
    rw [h.oneRing, ← isEmpty_entriesUpTo]
    rfl
  refine ⟨e, ?_, h, rfl, rfl⟩
  rw [Ends.use, answer, seen]
  rfl

theorem hasUsed (h : e.Sound) : e.Simulates .hasUsed := by
  have answer := Driver.hasUsed_eq h.within
  have seen : (e.bus.memory.word16 e.driver.layout.usedIdxAddr != e.driver.lastUsed) =
      !e.queues.returned.isEmpty := by
    rw [← isEmpty_entriesUpTo]
    rfl
  refine ⟨e, ?_, h, rfl, rfl⟩
  rw [Ends.use, answer, seen]
  rfl

/-- While there is room, a use of the ring succeeds, and is the use of its queues. -/
theorem use (h : e.Sound) {u : Use} (room : e.queues.Room e.driver.layout.num.toNat u) :
    e.Simulates u := by
  cases u with
  | offer idx => exact h.offer room
  | take => exact h.take
  | hasIncoming => exact h.hasIncoming
  | publish idx len kick => exact h.publish room.1 room.2
  | takeUsed => exact h.takeUsed
  | hasUsed => exact h.hasUsed

/-- While there is room, no use goes otherwise than the use of the queues. -/
theorem of_use (h : e.Sound) {u : Use} {a : Answer} {e' : Ends}
    (room : e.queues.Room e.driver.layout.num.toNat u) (used : e.use u = .ok (a, e')) :
    a = (e.queues.use u).1 ∧ e'.Sound ∧ e'.queues = (e.queues.use u).2 ∧
      e'.driver.layout = e.driver.layout := by
  obtain ⟨next, same, sound, queues, layout⟩ := h.use room
  rw [same] at used
  obtain ⟨rfl, rfl⟩ := Prod.mk.inj (Except.ok.inj used)
  exact ⟨rfl, sound, queues, layout⟩

end Sound

end Ends

namespace Ends

variable {start e : Ends} {num : Nat} {admits : List Record → Use → Prop} {past : List Record}

/-- What is true of the queues at first, and stays true with every use that is admitted, is true
along every run, if it leaves room for what is admitted. -/
theorem Run.invariant {P : List Record → Queues → Prop}
    (room : ∀ past q u, P past q → admits past u → q.Room num u)
    (step : ∀ past q u, P past q → admits past u → P (past ++ [(u, (q.use u).1)]) (q.use u).2)
    (sound : start.Sound) (size : start.driver.layout.num.toNat = num)
    (init : P [] start.queues) (h : Run admits start past e) :
    e.Sound ∧ P past e.queues ∧ e.driver.layout.num.toNat = num := by
  induction h with
  | start => exact ⟨sound, init, size⟩
  | @use past e e' u a run admitted used ih =>
    obtain ⟨soundBefore, before, sizeBefore⟩ := ih
    -- `P` leaves room for the use, so it went as the use of the queues.
    have fits := room past e.queues u before admitted
    rw [← sizeBefore] at fits
    obtain ⟨rfl, sound', queues', layout'⟩ := soundBefore.of_use fits used
    refine ⟨sound', ?_, ?_⟩
    · rw [queues']
      exact step past e.queues u before admitted
    · rw [layout', sizeBefore]

end Ends

/-! ## The start of a run -/

/-- A ring and its buffers have a place in the address space, and the ring lies within the window
of the memory. -/
structure Placed (base : UInt32) (num : UInt16) (buffers bufSize : UInt32) (m : Memory) : Prop where
  powerOfTwo : num.toNat.isPowerOfTwo
  ringFits : (Place.mk base num).ringEnd < UInt32.size
  buffersFit : buffers.toNat + num.toNat * bufSize.toNat ≤ UInt32.size
  inWindow : m.base.toNat ≤ base.toNat ∧ (Place.mk base num).ringEnd ≤ m.base.toNat + m.size

variable {base : UInt32} {num : UInt16} {buffers bufSize : UInt32} {bus : Bus}

/-- The start of every buffer is an address. -/
theorem Placed.buffer_lt (h : Placed base num buffers bufSize bus.memory) {i : Nat}
    (hi : i < num.toNat) : buffers.toNat + i * bufSize.toNat < UInt32.size := by
  have fits := h.buffersFit
  have start := buffers.toNat_lt
  rcases Nat.eq_zero_or_pos bufSize.toNat with none | some
  · rw [none, Nat.mul_zero]
    exact start
  · have before := (Nat.mul_lt_mul_right some).mpr hi
    omega

/-- A window of memory that was not cleared. -/
def uncleared : Bus where
  memory := ⟨0x1000, Array.replicate 0x2000 0xFF⟩

/-- There is a place for a ring of two descriptors. -/
theorem placed_uncleared : Placed 0x1000 2 0x8000 64 uncleared.memory := by
  have size : uncleared.memory.size = 0x2000 := Array.size_replicate
  refine ⟨⟨1, rfl⟩, by decide, by decide, by decide, ?_⟩
  rw [size]
  decide

/-- A ring can be set up at every place, and is empty then. -/
theorem Placed.setUp (h : Placed base num buffers bufSize bus.memory) :
    ∃ e, Ends.setUp base num buffers bufSize bus = .ok e ∧ e.Sound ∧ e.queues = {} ∧
      e.driver.layout.num = num := by
  let l : Layout := ⟨⟨base, num⟩, h.powerOfTwo, h.ringFits⟩
  have within : l.Within bus.memory := h.inWindow
  have created : Driver.create base num buffers bufSize bus = _ :=
    Driver.create_eq (l := l) within fun i hi => h.buffer_lt hi
  have attached : Device.attach base num = _ := Device.attach_eq l
  obtain ⟨head, offered, returned⟩ := Driver.queues_after_create within buffers bufSize
  refine ⟨⟨bus.after (Driver.createEvents l buffers bufSize), { layout := l }, { layout := l }⟩, ?_,
    ⟨rfl, within.after _, head⟩, congrArg₂ Queues.mk offered returned, rfl⟩
  rw [Ends.setUp, created, attached]
  rfl

end InterCore.Ring
