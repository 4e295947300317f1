import InterCore.Proofs.Link.Completion
import InterCore.Proofs.Link.Flushing
import InterCore.Proofs.Memory.Footprint
import Mathlib.Data.List.TakeWhile

/-!
# A send stays within its buffer

An attempt to send comes past the offered buffers without room for a header (`passed`) to the first
one with room (`chosen?`). The former are handed back with nothing in them and the latter is filled,
never beyond its own end. All that is written is in the chosen buffer, in the used ring, or in the
last four bytes of a descriptor that is handed back (`attempt_writes_own_buffer`).
-/

namespace InterCore.Ring

variable {m : Memory} {bus : Bus}

/-- Where a packet in a buffer can be, as a set of addresses. -/
def Buffer.part (b : Buffer) : Set Nat :=
  Set.Ico b.addr.toNat (b.addr.toNat + b.capacity)

/-- What may be written when descriptors are handed back: the used ring, and the flags and the link
of each of them. -/
def Layout.returnPart (l : Layout) (returned : List UInt16) : Set Nat :=
  Set.Ico l.used l.ringEnd ∪
    {a | ∃ i ∈ returned, a ∈ Set.Ico (l.descriptorAddr i + Descriptor.flagsOffset)
      (l.descriptorAddr i + descriptorSize)}

theorem Layout.returnPart_mono {l : Layout} {returned returned' : List UInt16}
    (more : returned ⊆ returned') : l.returnPart returned ⊆ l.returnPart returned' := by
  rintro a (used | ⟨i, mem, own⟩)
  · exact .inl used
  · exact .inr ⟨i, more mem, own⟩

namespace Device

variable {d : Device} {idx : UInt16} {len : UInt32} {returned : List UInt16}

theorem handBackEvents_footprint (within : d.layout.Within m) {e : Event}
    (mem : e ∈ d.handBackEvents m idx len) :
    e.Fits m ∧ e.footprint ⊆ d.layout.returnPart [idx] := by
  obtain ⟨fits, ⟨inside, -⟩ | inside⟩ := handBackEvents_cases within mem
  · exact ⟨fits, fun a own => .inr ⟨idx, List.mem_singleton_self idx, inside.footprint_subset own⟩⟩
  · exact ⟨fits, fun a own => .inl (inside.footprint_subset own)⟩

/-- The device end when it has taken some descriptors. -/
def advanceBy (d : Device) (count : Nat) : Device :=
  { d with tail := d.tail + UInt16.ofNat count }

@[simp]
theorem layout_advanceBy (d : Device) (count : Nat) : (d.advanceBy count).layout = d.layout := rfl

theorem advanceBy_zero (d : Device) : d.advanceBy 0 = d :=
  congrArg (Device.mk d.layout) (UInt16.add_zero d.tail)

theorem advance_advanceBy (d : Device) (count : Nat) :
    (d.advanceBy count).advance = d.advanceBy (count + 1) := by
  refine congrArg (Device.mk d.layout) ?_
  show d.tail + UInt16.ofNat count + 1 = _
  rw [UInt16.ofNat_add, ← UInt16.add_assoc]
  rfl

theorem advanceBy_succ (d : Device) (count : Nat) :
    d.advanceBy (count + 1) = d.advance.advanceBy count :=
  congrArg (Device.mk d.layout) (add_ofNat_succ d.tail count)

/-- The events that hand descriptors back one after the other with nothing in their buffers. -/
def passEvents (d : Device) : Memory → List UInt16 → List Event
  | _, [] => []
  | m, idx :: later =>
    d.handBackEvents m idx 0 ++ d.passEvents (m.after (d.handBackEvents m idx 0)) later

theorem passEvents_advance (d : Device) (m : Memory) (returned : List UInt16) :
    d.advance.passEvents m returned = d.passEvents m returned := by
  induction returned generalizing m with
  | nil => rfl
  | cons idx later ih => exact congrArg (d.handBackEvents m idx 0 ++ ·) (ih _)

theorem passEvents_footprint (within : d.layout.Within m) {e : Event}
    (mem : e ∈ d.passEvents m returned) :
    e.Fits m ∧ e.footprint ⊆ d.layout.returnPart returned := by
  induction returned generalizing m with
  | nil => cases mem
  | cons idx later ih =>
    rcases List.mem_append.mp mem with first | rest
    · obtain ⟨fits, own⟩ := handBackEvents_footprint within first
      exact ⟨fits, own.trans (Layout.returnPart_mono (by simp))⟩
    · obtain ⟨fits, own⟩ := ih (within.replay _) rest
      rw [Event.fits_after] at fits
      exact ⟨fits, own.trans (Layout.returnPart_mono (by simp))⟩

/-- Descriptors that are handed back in their order. -/
theorem forM_publish (within : d.layout.Within bus.memory) (returned : List UInt16) :
    (returned.forM fun idx => d.publish idx 0 true) bus =
      .ok ((), bus.after (d.passEvents bus.memory returned)) := by
  induction returned generalizing bus with
  | nil => rfl
  | cons idx later ih =>
    show ((d.publish idx 0 true) >>= fun _ => later.forM fun idx => d.publish idx 0 true) bus = _
    rw [OnBus.bind_eq (publish_handBack within idx 0), ih (within.after _), passEvents,
      Bus.after_append, Bus.memory_after]

theorem buffer_passEvents (within : d.layout.Within m) {i : UInt16}
    (inRing : i.toNat < d.layout.num.toNat) :
    d.layout.buffer (m.after (d.passEvents m returned)) i = d.layout.buffer m i := by
  induction returned generalizing m with
  | nil => rfl
  | cons idx later ih =>
    rw [passEvents, Memory.after_append, ih (within.replay _), buffer_handBack within inRing]

theorem next?_of_offered {later : List UInt16} (queue : d.layout.offered m d.tail = idx :: later) :
    d.next? m = some idx := by
  rw [next?, queue]
  rfl

/-- What is behind descriptors that are taken and handed back. -/
theorem offered_past {later : List UInt16} (within : d.layout.Within m)
    (queue : d.layout.offered m d.tail = returned ++ later) :
    d.layout.offered (m.after (d.passEvents m returned)) (d.advanceBy returned.length).tail =
      later := by
  induction returned generalizing d m with
  | nil =>
    rw [List.length_nil, advanceBy_zero]
    exact queue
  | cons idx returned ih =>
    have behind : d.layout.offered m d.tail =
        idx :: d.advance.layout.offered (m.after (d.handBackEvents m idx 0)) d.advance.tail :=
      offered_of_handBack within (next?_of_offered queue)
    rw [queue] at behind
    rw [List.length_cons, advanceBy_succ, passEvents, Memory.after_append, ← passEvents_advance]
    exact @ih (m.after (d.handBackEvents m idx 0)) d.advance (within.replay _)
      (List.tail_eq_of_cons_eq behind).symm

end Device

end InterCore.Ring

namespace InterCore.Link

open InterCore.Packet (Header maxLen)
open InterCore.Ring (Device)

variable {tx : Device} {bus : Bus} {m : Memory} {msg : Message} {idx : UInt16}

/-- The search goes past short buffers and hands them back. -/
theorem takeBuffer?_past {returned later : List UInt16} (fuel : Nat)
    (within : tx.layout.Within bus.memory)
    (queue : tx.layout.offered bus.memory tx.tail = returned ++ later)
    (inRing : ∀ i ∈ returned, i.toNat < tx.layout.num.toNat)
    (short : ∀ i ∈ returned, (tx.layout.buffer bus.memory i).len.toNat < Header.size) :
    takeBuffer? tx (returned.length + fuel) bus =
      takeBuffer? (tx.advanceBy returned.length) fuel
        (bus.after (tx.passEvents bus.memory returned)) := by
  induction returned generalizing tx bus with
  | nil =>
    rw [List.length_nil, Nat.zero_add, Device.advanceBy_zero]
    rfl
  | cons idx returned ih =>
    have next : tx.next? bus.memory = some idx := Device.next?_of_offered queue
    obtain ⟨here, inRing⟩ := List.forall_mem_cons.mp inRing
    obtain ⟨first, short⟩ := List.forall_mem_cons.mp short
    have behind : tx.layout.offered bus.memory tx.tail = idx :: tx.advance.layout.offered
        (bus.memory.after (tx.handBackEvents bus.memory idx 0)) tx.advance.tail :=
      Device.offered_of_handBack within next
    rw [queue] at behind
    have fuelNow : (idx :: returned).length + fuel = returned.length + fuel + 1 := by
      rw [List.length_cons]
      omega
    rw [fuelNow, takeBuffer?_of_short _ within next (within.describedIn here) first,
      List.length_cons, Device.advanceBy_succ, Device.passEvents, Bus.after_append,
      ← Bus.memory_after, ← Device.passEvents_advance]
    refine @ih tx.advance _ (within.after _) ?_ inRing ?_
    · rw [Bus.memory_after]
      exact (List.tail_eq_of_cons_eq behind).symm
    · intro i mem
      rw [Bus.memory_after]
      exact (Device.buffer_handBack within (inRing i mem)).symm ▸ short i mem

/-! ## Which buffer it is -/

/-- There is room for a header in the buffer of a descriptor. -/
def roomy (tx : Device) (m : Memory) (idx : UInt16) : Bool :=
  decide (Header.size ≤ (tx.layout.buffer m idx).len.toNat)

/-- The first offered descriptor whose buffer has room for a header. -/
def chosen? (tx : Device) (m : Memory) : Option UInt16 :=
  (tx.layout.offered m tx.tail).find? (roomy tx m)

/-- The offered descriptors in front of that one, all of them if there is none. -/
def passed (tx : Device) (m : Memory) : List UInt16 :=
  (tx.layout.offered m tx.tail).takeWhile fun idx => !roomy tx m idx

theorem short_of_passed {i : UInt16} (mem : i ∈ passed tx m) :
    (tx.layout.buffer m i).len.toNat < Header.size := by
  have noRoom := List.mem_takeWhile_imp mem
  rw [Bool.not_eq_true', roomy, decide_eq_false_iff_not] at noRoom
  exact Nat.lt_of_not_le noRoom

theorem offered_of_chosen? (chosen : chosen? tx m = some idx) :
    Header.size ≤ (tx.layout.buffer m idx).len.toNat ∧
      ∃ later, tx.layout.offered m tx.tail = passed tx m ++ idx :: later := by
  have room := List.find?_some chosen
  rw [chosen?, List.find?_eq_head?_dropWhile_not] at chosen
  obtain ⟨later, behind⟩ := List.head?_eq_some_iff.mp chosen
  refine ⟨of_decide_eq_true room, later, ?_⟩
  rw [passed, ← behind, List.takeWhile_append_dropWhile]

theorem passed_of_chosen?_none (none : chosen? tx m = none) :
    passed tx m = tx.layout.offered m tx.tail := by
  rw [chosen?, List.find?_eq_none] at none
  rw [passed, List.takeWhile_eq_self_iff]
  intro i mem
  rw [Bool.not_eq_true', Bool.eq_false_iff]
  exact none i mem

/-! ## What an attempt to send does -/

/-- Where the search of an attempt stands when it has come past the short buffers. -/
theorem takeBuffer?_passed (within : tx.layout.Within bus.memory)
    (inRing : ∀ i ∈ tx.layout.offered bus.memory tx.tail, i.toNat < tx.layout.num.toNat) :
    ∃ fuel, takeBuffer? tx indexSpan bus =
      takeBuffer? (tx.advanceBy (passed tx bus.memory).length) (fuel + 1)
        (bus.after (tx.passEvents bus.memory (passed tx bus.memory))) := by
  obtain ⟨later, queue⟩ : passed tx bus.memory <+: tx.layout.offered bus.memory tx.tail :=
    List.takeWhile_prefix _
  have few : _ < indexSpan := tx.layout.length_offered_lt bus.memory tx.tail
  rw [← queue, List.length_append] at few
  refine ⟨indexSpan - (passed tx bus.memory).length - 1, ?_⟩
  rw [← takeBuffer?_past _ within queue.symm]
  · congr 1
    omega
  · intro i mem
    exact inRing i (queue ▸ List.mem_append_left later mem)
  · intro i mem
    exact short_of_passed mem

/-- Where no offered buffer has room for a header, all are handed back. -/
theorem trySend_of_chosen?_none (within : tx.layout.Within bus.memory)
    (inRing : ∀ i ∈ tx.layout.offered bus.memory tx.tail, i.toNat < tx.layout.num.toNat)
    (none : chosen? tx bus.memory = none) :
    trySend tx msg.src msg.dst msg.data bus =
      .ok ((false, tx.advanceBy (tx.layout.offered bus.memory tx.tail).length),
        bus.after (tx.passEvents bus.memory (tx.layout.offered bus.memory tx.tail))) := by
  obtain ⟨fuel, searched⟩ := takeBuffer?_passed within inRing
  have all := passed_of_chosen?_none none
  rw [all] at searched
  have behind := Device.offered_past within (List.append_nil _).symm
  apply trySend_of_missed
  rw [searched]
  refine takeBuffer?_of_none fuel (within.after _) ?_
  rw [Bus.memory_after]
  exact List.head?_eq_none_iff.mpr behind

theorem fillEvents_of_buffer {tx' : Device} {m' : Memory}
    (same : tx'.layout.buffer m' idx = tx.layout.buffer m idx) :
    fillEvents tx' m' idx msg = fillEvents tx m idx msg := by
  rw [fillEvents, fillEvents, same]

/-- Where a device end has read to does not matter to what it writes. -/
theorem sendEvents_withTail (tx : Device) (tail : UInt16) (m : Memory) (idx : UInt16) (msg : Message) :
    sendEvents { tx with tail } m idx msg = sendEvents tx m idx msg := rfl

/-- The memory, with the bus around it, when the search has come past the short buffers. -/
def pastShort (tx : Device) (bus : Bus) : Bus :=
  bus.after (tx.passEvents bus.memory (passed tx bus.memory))

theorem buffer_pastShort {i : UInt16} (within : tx.layout.Within bus.memory)
    (inRing : i.toNat < tx.layout.num.toNat) :
    tx.layout.buffer (pastShort tx bus).memory i = tx.layout.buffer bus.memory i := by
  rw [pastShort, Bus.memory_after, Device.buffer_passEvents within inRing]

/-- Where an offered buffer has room for a header, the first such one is filled and handed back. -/
theorem trySend_of_chosen? (within : tx.layout.Within bus.memory)
    (inRing : ∀ i ∈ tx.layout.offered bus.memory tx.tail, i.toNat < tx.layout.num.toNat)
    (chosen : chosen? tx bus.memory = some idx)
    (fits : ∀ e ∈ fillEvents tx bus.memory idx msg, e.Fits bus.memory) :
    trySend tx msg.src msg.dst msg.data bus =
      .ok ((true, tx.advanceBy ((passed tx bus.memory).length + 1)),
        (pastShort tx bus).after (sendEvents tx (pastShort tx bus).memory idx msg)) := by
  obtain ⟨room, later, queue⟩ := offered_of_chosen? chosen
  obtain ⟨fuel, searched⟩ := takeBuffer?_passed within inRing
  let past := tx.advanceBy (passed tx bus.memory).length
  have within' : past.layout.Within (pastShort tx bus).memory := within.after _
  have here : idx.toNat < past.layout.num.toNat :=
    inRing idx (queue ▸ List.mem_append_right _ List.mem_cons_self)
  have same : past.layout.buffer (pastShort tx bus).memory idx = tx.layout.buffer bus.memory idx :=
    buffer_pastShort within here
  have next : past.next? (pastShort tx bus).memory = some idx := by
    have behind := Device.offered_past within queue
    rw [← Bus.memory_after] at behind
    exact Device.next?_of_offered behind
  have room' : Header.size ≤ (past.layout.buffer (pastShort tx bus).memory idx).len.toNat := by
    rw [same]
    exact room
  obtain ⟨d, found, buffer⟩ :=
    takeBuffer?_of_roomy fuel within' next (within'.describedIn here) room'
  have took : takeBuffer? tx indexSpan bus =
      .ok ((some (idx, d), tx.advanceBy ((passed tx bus.memory).length + 1)), pastShort tx bus) := by
    rw [searched, ← Device.advance_advanceBy]
    exact found
  refine (trySend_of_found took within' buffer ?_).trans ?_
  case refine_2 => rw [Device.advanceBy, sendEvents_withTail]
  have filled : fillEvents (tx.advanceBy ((passed tx bus.memory).length + 1))
      (pastShort tx bus).memory idx msg = fillEvents tx bus.memory idx msg :=
    fillEvents_of_buffer (by rw [Device.layout_advanceBy]; exact same)
  intro e mem
  rw [pastShort, Bus.memory_after, Event.fits_after]
  rw [filled] at mem
  exact fits e mem

/-! ## Where it writes -/

theorem writesIn_pastShort (within : tx.layout.Within bus.memory) :
    bus.WritesIn (tx.layout.returnPart (passed tx bus.memory)) (pastShort tx bus) :=
  ⟨_, rfl, fun _ mem => Device.passEvents_footprint within mem⟩

theorem writesIn_fill (room : Header.size ≤ (tx.layout.buffer bus.memory idx).len.toNat)
    (fits : ∀ e ∈ fillEvents tx bus.memory idx msg, e.Fits bus.memory) :
    bus.WritesIn (tx.layout.buffer bus.memory idx).part
      (bus.after (fillEvents tx bus.memory idx msg)) :=
  ⟨_, rfl, fun e mem => ⟨fits e mem, (fillEvents_inside room mem).footprint_subset⟩⟩

theorem writesIn_handBack (within : tx.layout.Within bus.memory) (len : UInt32) :
    bus.WritesIn (tx.layout.returnPart [idx])
      (bus.after (tx.handBackEvents bus.memory idx len)) :=
  ⟨_, rfl, fun _ mem => Device.handBackEvents_footprint within mem⟩

/-- Descriptors of the ring are handed back within the ring. -/
theorem returnPart_subset_span {l : Ring.Layout} {returned : List UInt16}
    (inRing : ∀ i ∈ returned, i.toNat < l.num.toNat) :
    l.returnPart returned ⊆ Set.Ico l.base.toNat l.ringEnd := by
  have start := l.avail_eq
  have areas := l.avail_add_le_used
  have ends := l.ringEnd_eq
  rintro a (⟨lower, upper⟩ | ⟨i, mem, lower, upper⟩)
  · exact ⟨by omega, upper⟩
  · have bounds := Ring.Layout.descriptor_bounds (inRing i mem)
    simp only [Ring.descriptorSize] at upper
    exact ⟨by omega, by omega⟩

/-- All that an attempt to send has written when it has filled and handed back the chosen buffer. -/
theorem writesIn_send (within : tx.layout.Within bus.memory)
    (inRing : idx.toNat < tx.layout.num.toNat)
    (room : Header.size ≤ (tx.layout.buffer bus.memory idx).len.toNat)
    (fits : ∀ e ∈ fillEvents tx bus.memory idx msg, e.Fits bus.memory) :
    bus.WritesIn ((tx.layout.buffer bus.memory idx).part ∪
        tx.layout.returnPart (passed tx bus.memory ++ [idx]))
      ((pastShort tx bus).after (sendEvents tx (pastShort tx bus).memory idx msg)) := by
  have within' : tx.layout.Within (pastShort tx bus).memory := within.after _
  have same := buffer_pastShort within inRing
  have filled : fillEvents tx (pastShort tx bus).memory idx msg =
      fillEvents tx bus.memory idx msg := fillEvents_of_buffer same
  have fits' : ∀ e ∈ fillEvents tx (pastShort tx bus).memory idx msg,
      e.Fits (pastShort tx bus).memory := by
    intro e mem
    rw [pastShort, Bus.memory_after, Event.fits_after]
    exact fits e (filled ▸ mem)
  have fill := writesIn_fill (by rw [same]; exact room) fits'
  rw [same] at fill
  rw [sendEvents, Bus.after_append, ← Bus.memory_after]
  refine ((writesIn_pastShort within).mono ?_).trans ((fill.mono Set.subset_union_left).trans
    ((writesIn_handBack (within'.after _) _).mono ?_))
  · exact (Ring.Layout.returnPart_mono (List.subset_append_left _ _)).trans Set.subset_union_right
  · exact (Ring.Layout.returnPart_mono (List.subset_append_right _ _)).trans Set.subset_union_right

/-- What is apart from the chosen buffer and from the ring is left untouched. -/
theorem agreeOn_of_writesIn {l : Ring.Layout} {returned : List UInt16} {bus' : Bus} {b : Ring.Buffer}
    {span : Ring.Span} (inRing : ∀ i ∈ returned, i.toNat < l.num.toNat)
    (writes : bus.WritesIn (b.part ∪ l.returnPart returned) bus') (ring : span.Apart l.span)
    (buffer : span.Apart b.span) : bus.memory.AgreeOn bus'.memory span.start span.stop := by
  refine writes.sameOutside.agreeOn ?_
  rintro a (⟨lower, upper⟩ | own)
  · simp only [Ring.Span.Apart, Ring.Buffer.span] at buffer
    omega
  · obtain ⟨lower, upper⟩ := returnPart_subset_span inRing own
    simp only [Ring.Span.Apart, Ring.Layout.span] at ring
    omega

/-- An attempt to send looks for the first offered buffer with room for a header. Those in front of
it are handed back with nothing in them, in their order. If there is no such buffer that is all that
is done, for every offered buffer. Otherwise the message is put into the buffer, no further than its
end or 512 bytes, and the buffer is handed back. Nothing is written elsewhere but in the used ring
and in flags and link of the descriptors that are handed back. -/
theorem attempt_writes_own_buffer (msg : Message) (within : tx.layout.Within bus.memory)
    (inRing : ∀ i ∈ tx.layout.offered bus.memory tx.tail, i.toNat < tx.layout.num.toNat) :
    (chosen? tx bus.memory = none →
      ∃ bus', trySend tx msg.src msg.dst msg.data bus =
          .ok ((false, tx.advanceBy (tx.layout.offered bus.memory tx.tail).length), bus') ∧
        ((tx.layout.offered bus.memory tx.tail).forM fun i => tx.publish i 0 true) bus =
          .ok ((), bus') ∧
        bus.WritesIn (tx.layout.returnPart (tx.layout.offered bus.memory tx.tail)) bus') ∧
    ∀ idx, chosen? tx bus.memory = some idx →
      (∀ e ∈ fillEvents tx bus.memory idx msg, e.Fits bus.memory) →
      ∃ bus₁ bus', trySend tx msg.src msg.dst msg.data bus =
          .ok ((true, tx.advanceBy ((passed tx bus.memory).length + 1)), bus') ∧
        ((passed tx bus.memory).forM fun i => tx.publish i 0 true) bus = .ok ((), bus₁) ∧
        tx.publish idx (UInt32.ofNat maxLen) true
          (bus₁.after (fillEvents tx bus.memory idx msg)) = .ok ((), bus') ∧
        bus.WritesIn ((tx.layout.buffer bus.memory idx).part ∪
          tx.layout.returnPart (passed tx bus.memory ++ [idx])) bus' ∧
        ∀ i ∈ passed tx bus.memory,
          (tx.layout.buffer bus.memory i).span.Apart tx.layout.span →
          (tx.layout.buffer bus.memory i).span.Apart (tx.layout.buffer bus.memory idx).span →
          bus.memory.AgreeOn bus'.memory (tx.layout.buffer bus.memory i).span.start
            (tx.layout.buffer bus.memory i).span.stop := by
  refine ⟨?_, ?_⟩
  · intro none
    exact ⟨_, trySend_of_chosen?_none within inRing none, Device.forM_publish within _,
      _, rfl, fun _ mem => Device.passEvents_footprint within mem⟩
  · intro idx chosen fits
    obtain ⟨room, later, queue⟩ := offered_of_chosen? chosen
    have here : idx.toNat < tx.layout.num.toNat :=
      inRing idx (queue ▸ List.mem_append_right _ List.mem_cons_self)
    have returned : ∀ i ∈ passed tx bus.memory ++ [idx], i.toNat < tx.layout.num.toNat := by
      intro i mem
      refine inRing i (queue ▸ ?_)
      simp only [List.mem_append, List.mem_cons, List.not_mem_nil, or_false] at mem ⊢
      exact mem.imp_right .inl
    have within' : tx.layout.Within ((pastShort tx bus).after
        (fillEvents tx bus.memory idx msg)).memory := (within.after _).after _
    have filled : fillEvents tx (pastShort tx bus).memory idx msg =
        fillEvents tx bus.memory idx msg := fillEvents_of_buffer (buffer_pastShort within here)
    have writes := writesIn_send within here room fits
    refine ⟨pastShort tx bus, _, trySend_of_chosen? within inRing chosen fits,
      Device.forM_publish within _, ?_, writes,
      fun i mem ring buffer => agreeOn_of_writesIn returned writes ring buffer⟩
    rw [Device.publish_handBack within', sendEvents, filled, Bus.after_append, ← Bus.memory_after]

/-- The outgoing ring of a station where the peer has offered a buffer of 8 bytes and then one of
64. The first 48 bytes of a message of 600 go into the second one. -/
theorem shortFirst_writes_own_buffer :
    pageLayout.Within shortFirst.memory ∧ pageLayout.offered shortFirst.memory 0 = [0, 1] ∧
    chosen? ⟨pageLayout, 0⟩ shortFirst.memory = some 1 ∧
    ∃ bus₁ bus', trySend ⟨pageLayout, 0⟩ 1 2 (List.replicate 600 7) shortFirst.run.machine.bus =
        .ok ((true, ⟨pageLayout, 2⟩), bus') ∧
      ([0].forM fun i => Device.publish ⟨pageLayout, 0⟩ i 0 true) shortFirst.run.machine.bus =
        .ok ((), bus₁) ∧
      shortFirst.run.machine.bus.WritesIn
        (Set.Ico 0x1040 0x1080 ∪ pageLayout.returnPart [0, 1]) bus' ∧
      shortFirst.memory.AgreeOn bus'.memory 0x1020 0x1028 := by
  let tx : Device := ⟨pageLayout, 0⟩
  let bus := shortFirst.run.machine.bus
  have within : tx.layout.Within bus.memory := by
    show _ ∧ _
    decide +kernel
  have offered : tx.layout.offered bus.memory tx.tail = [0, 1] := by decide +kernel
  have inRing : ∀ i ∈ tx.layout.offered bus.memory tx.tail, i.toNat < tx.layout.num.toNat := by
    rw [offered, List.forall_mem_cons, List.forall_mem_singleton]
    decide
  have chosen : chosen? tx bus.memory = some 1 := by decide +kernel
  have first : passed tx bus.memory = [0] := by decide +kernel
  have short : tx.layout.buffer bus.memory 0 = ⟨0x1020, 8⟩ := by decide +kernel
  have buffer : tx.layout.buffer bus.memory 1 = ⟨0x1040, 64⟩ := by decide +kernel
  have fits : ∀ e ∈ fillEvents tx bus.memory 1 ⟨1, 2, List.replicate 600 7⟩, e.Fits bus.memory := by
    rw [fillEvents, Message.events_fit, buffer]
    decide +kernel
  obtain ⟨bus₁, bus', sent, handedBack, -, writes, untouched⟩ :=
    (attempt_writes_own_buffer ⟨1, 2, List.replicate 600 7⟩ within inRing).2 1 chosen fits
  rw [first] at sent handedBack writes untouched
  rw [buffer] at writes untouched
  refine ⟨within, offered, chosen, bus₁, bus', sent, handedBack, writes, ?_⟩
  have kept := untouched 0 (by decide)
  rw [short] at kept
  exact kept (by decide) (by decide)

end InterCore.Link
