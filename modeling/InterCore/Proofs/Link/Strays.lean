import InterCore.Proofs.Link.Polling

/-!
# Entries that name no descriptor

An entry of an available ring can hold an index that is not below the number of descriptors. No
buffer is handed back for it, but only then is the index looked at. Before that the firmware reads
the sixteen bytes where such a descriptor would stand, behind the table, and works with the buffer
that they happen to describe. So the entry is passed over only where these bytes describe a short
buffer. Where they describe a roomy one a message is put there and nobody is told, and what stands
in an incoming one is handled like any packet (`stray_entries_read_behind_table`).
-/

namespace InterCore.Ring

/-- An index that names no descriptor of the ring. -/
def Layout.Stray (l : Layout) (idx : UInt16) : Prop :=
  l.num.toNat ≤ idx.toNat

/-- A buffer is told from the first twelve bytes of its descriptor, wherever that stands. -/
theorem Layout.buffer_of_slice {l : Layout} {m : Memory} {idx : UInt16} {addr high len : UInt32}
    (h : m.slice (l.descriptorAddr idx) (4 + (4 + 4)) =
      LittleEndian.encode32 addr ++ (LittleEndian.encode32 high ++ LittleEndian.encode32 len)) :
    l.buffer m idx = ⟨addr, len⟩ := by
  rw [Memory.slice_add, Memory.slice_add] at h
  obtain ⟨first, rest⟩ := List.append_inj h (by simp)
  obtain ⟨-, last⟩ := List.append_inj rest (by simp)
  have addrHere : m.word32 (l.descriptorAddr idx) = addr := by
    rw [Memory.word32, first, LittleEndian.decode32_encode32]
  have lenHere : m.word32 (l.descriptorAddr idx + 4 + 4) = len := by
    rw [Memory.word32, last, LittleEndian.decode32_encode32]
  exact congrArg₂ Buffer.mk addrHere lenHere

/-- An index that names no descriptor is not handed back. -/
theorem Device.handBackEvents_stray {d : Device} {m : Memory} {idx : UInt16} {len : UInt32}
    (stray : d.layout.Stray idx) : d.handBackEvents m idx len = [] :=
  if_neg (Nat.not_lt.mpr stray)

end InterCore.Ring

namespace InterCore.Link

open InterCore.Packet (Header maxLen maxPayload)
open InterCore.Ring (Device Layout)

variable {σ : Type}

/-! ## Outgoing entries -/

section Outgoing

variable {tx : Device} {bus : Bus} {idx : UInt16} {src dst : UInt32} {data : List UInt8}

/-- More fuel than there are entries makes no difference. -/
theorem takeBuffer?_succ {fuel : Nat} (within : tx.layout.Within bus.memory)
    (enough : (tx.layout.offered bus.memory tx.tail).length < fuel) :
    takeBuffer? tx (fuel + 1) bus = takeBuffer? tx fuel bus := by
  induction fuel generalizing tx bus with
  | zero => omega
  | succ fuel ih =>
    cases next : tx.next? bus.memory with
    | none => rw [takeBuffer?_of_none _ within next, takeBuffer?_of_none _ within next]
    | some idx =>
      cases read : tx.layout.readDescriptor idx bus with
      | error fault =>
        rw [takeBuffer?_of_unread _ within next read, takeBuffer?_of_unread _ within next read]
      | ok r =>
        obtain ⟨d, bus₁⟩ := r
        obtain ⟨rfl, -⟩ := Ring.Layout.readDescriptor_eq_ok read
        rw [takeBuffer?_of_read _ within next read, takeBuffer?_of_read _ within next read]
        split
        case isTrue => rfl
        case isFalse short =>
          have queue : tx.layout.offered bus₁.memory tx.tail = idx :: tx.layout.offered
              (bus₁.memory.after (tx.handBackEvents bus₁.memory idx 0)) tx.advance.tail :=
            Device.offered_of_handBack within next
          rw [queue, List.length_cons] at enough
          refine ih (within.after _) ?_
          rw [Bus.memory_after]
          exact Nat.lt_of_succ_lt_succ enough

/-- An attempt to send passes over a stray entry where the bytes behind the table describe a short
buffer, and nothing is written for it. -/
theorem trySend_stray_short (within : tx.layout.Within bus.memory)
    (next : tx.next? bus.memory = some idx) (stray : tx.layout.Stray idx)
    (described : tx.layout.DescribedIn bus.memory idx)
    (short : (tx.layout.buffer bus.memory idx).len.toNat < Header.size) :
    trySend tx src dst data bus = trySend tx.advance src dst data bus := by
  have skipped : takeBuffer? tx indexSpan bus = takeBuffer? tx.advance indexSpan bus := by
    have passed : takeBuffer? tx indexSpan bus = _ :=
      takeBuffer?_of_short 65535 within next described short
    rw [passed, Device.handBackEvents_stray stray, Bus.after_nil]
    have few := tx.layout.length_offered_lt bus.memory tx.tail
    rw [Device.offered_of_next? next, List.length_cons] at few
    have enough : (tx.layout.offered bus.memory tx.advance.tail).length < 65535 :=
      Nat.lt_of_add_lt_add_right few
    have longer : takeBuffer? tx.advance (65535 + 1) bus = takeBuffer? tx.advance 65535 bus :=
      takeBuffer?_succ (show tx.advance.layout.Within bus.memory from within)
        (show (tx.advance.layout.offered bus.memory tx.advance.tail).length < 65535 from enough)
    exact longer.symm
  unfold trySend
  show (takeBuffer? tx indexSpan >>= _) bus = (takeBuffer? tx.advance indexSpan >>= _) bus
  cases took : takeBuffer? tx indexSpan bus with
  | error fault => rw [bind_of_error took, bind_of_error (skipped ▸ took)]
  | ok r => rw [OnBus.bind_eq took, OnBus.bind_eq (skipped ▸ took)]

/-- An attempt to send fills the buffer that the bytes behind the table describe if that is roomy,
says that the message was sent, and hands nothing back. -/
theorem trySend_stray_roomy {msg : Message} (within : tx.layout.Within bus.memory)
    (next : tx.next? bus.memory = some idx) (stray : tx.layout.Stray idx)
    (described : tx.layout.DescribedIn bus.memory idx)
    (roomy : Header.size ≤ (tx.layout.buffer bus.memory idx).len.toNat)
    (fits : ∀ e ∈ fillEvents tx bus.memory idx msg, e.Fits bus.memory) :
    trySend tx msg.src msg.dst msg.data bus =
      .ok ((true, tx.advance), bus.after (fillEvents tx bus.memory idx msg)) := by
  obtain ⟨d, took, buffer⟩ := takeBuffer?_of_roomy 65535 within next described roomy
  have sent : trySend tx msg.src msg.dst msg.data bus =
      .ok ((true, tx.advance), bus.after (sendEvents tx bus.memory idx msg)) :=
    trySend_of_found took within buffer fits
  rwa [sendEvents, Device.handBackEvents_stray stray, List.append_nil] at sent

/-- The station when it has passed over the next outgoing entry. -/
def Station.pastTx (s : Station σ) : Station σ :=
  { s with mux.tx := s.mux.tx.advance }

variable {s : Station σ}

theorem sendBlocking_stray_short (placed : s.cores.Placed)
    (next : s.mux.tx.next? s.memory = some idx) (stray : s.mux.tx.layout.Stray idx)
    (described : s.mux.tx.layout.DescribedIn s.memory idx)
    (short : (s.cores.txBuffer idx).len.toNat < Header.size) :
    Firmware.sendBlocking src dst data s = Firmware.sendBlocking src dst data s.pastTx := by
  obtain ⟨⟨machine, schedule, waits⟩, mux, app⟩ := s
  have within : mux.tx.layout.Within machine.bus.memory := placed.txWithin
  have same : Machine.onBus (trySend mux.tx src dst (data.take maxPayload)) machine =
      Machine.onBus (trySend mux.tx.advance src dst (data.take maxPayload)) machine := by
    have skipped : trySend mux.tx src dst (data.take maxPayload) machine.bus =
        trySend mux.tx.advance src dst (data.take maxPayload) machine.bus :=
      trySend_stray_short within next stray described short
    simp only [Machine.onBus, skipped]
  have waiting : sendWaiting src dst (data.take maxPayload) schedule waits mux.tx machine =
      sendWaiting src dst (data.take maxPayload) schedule waits mux.tx.advance machine := by
    rw [sendWaiting.eq_def, sendWaiting.eq_def _ _ _ _ _ mux.tx.advance]
    dsimp only
    rw [same]
  simp only [Firmware.sendBlocking, Station.pastTx, waiting]

theorem sendBlocking_stray_roomy (placed : s.cores.Placed)
    (next : s.mux.tx.next? s.memory = some idx) (stray : s.mux.tx.layout.Stray idx)
    (described : s.mux.tx.layout.DescribedIn s.memory idx)
    (roomy : Header.size ≤ (s.cores.txBuffer idx).len.toNat)
    (fits : ∀ e ∈ fillEvents s.mux.tx s.memory idx ⟨src, dst, data.take maxPayload⟩,
      e.Fits s.memory) :
    Firmware.sendBlocking src dst data s = .ok ((), s.pastTx.perform
      (fillEvents s.mux.tx s.memory idx ⟨src, dst, data.take maxPayload⟩)) := by
  have tried : trySend s.mux.tx src dst (data.take maxPayload) s.run.machine.bus = .ok _ :=
    @trySend_stray_roomy _ _ _ ⟨src, dst, data.take maxPayload⟩ placed.txWithin next stray described
      roomy fits
  exact Firmware.sendBlocking_of_sent (.mk (Machine.onBus_eq tried))

/-- A channel whose announcement goes where the bytes behind the table point is created like any
other. -/
theorem createChannel_stray_roomy {slot : Fin maxChannels} {name : String} {handler : Handler σ}
    (placed : s.cores.Placed) (free : s.freeSlot? = some slot)
    (next : s.mux.tx.next? s.memory = some idx) (stray : s.mux.tx.layout.Stray idx)
    (described : s.mux.tx.layout.DescribedIn s.memory idx)
    (roomy : Header.size ≤ (s.cores.txBuffer idx).len.toNat)
    (fits : ∀ e ∈ fillEvents s.mux.tx s.memory idx (Firmware.announcement name s.mux.nextAddr),
      e.Fits s.memory) :
    Firmware.createChannel name handler s = .ok (.ok slot, (s.entered slot name handler).pastTx.perform
      (fillEvents s.mux.tx s.memory idx (Firmware.announcement name s.mux.nextAddr))) := by
  have sent : Firmware.sendBlocking s.mux.nextAddr Packet.nameServiceAddr
      (Firmware.announcement name s.mux.nextAddr).data (s.entered slot name handler) = .ok _ :=
    sendBlocking_stray_roomy placed next stray described roomy
      (by rw [Firmware.take_announcement]; exact fits)
  rw [Firmware.take_announcement] at sent
  exact Firmware.createChannel_eq free sent

@[simp]
theorem memory_perform (s : Station σ) (es : List Event) :
    (s.perform es).memory = s.memory.after es :=
  Bus.memory_after _ _

end Outgoing

/-! ## Incoming entries -/

section Incoming

variable {s s' : Station σ} {idx : UInt16}

/-- Handling a packet leaves the incoming ring where it is. -/
theorem Handled.rx_eq {delivery : Option Delivery} (placed : s.cores.Placed)
    (h : Handled s idx delivery s') : s'.mux.rx = s.mux.rx := by
  cases h with
  | dropped refused => rfl
  | @delivered slot header data replies app _ accepted handled answered =>
    rw [← s.cores_peek_told idx slot header.src app] at placed
    rw [(Firmware.sendBack_eq_ok placed answered).mux]
    rfl

/-- The buffer of a stray entry is handled and not handed back. -/
theorem drain_stray {fuel : Nat} (placed : s.cores.Placed)
    (next : s.mux.rx.next? s.memory = some idx) (stray : s.mux.rx.layout.Stray idx) :
    Firmware.drain (fuel + 1) s =
      (Firmware.receive idx >>= fun _ => Firmware.drain fuel) s.advanced := by
  cases received : Firmware.receive idx s.advanced with
  | error fault =>
    rw [Firmware.drain_of_next? fuel placed next, bind_of_error received, bind_of_error received]
  | ok r =>
    obtain ⟨⟨⟩, s₁⟩ := r
    obtain ⟨delivery, handled⟩ := Firmware.receive_eq_ok received
    have ignored : s₁.mux.rx.layout.Stray idx := by
      rw [handled.rx_eq (Station.placed_advanced placed)]
      exact stray
    have nothing : s₁.handBack idx = s₁ := by
      rw [Station.handBack, Device.handBackEvents_stray ignored]
      rfl
    rw [Firmware.drain_of_received fuel placed next received, nothing, bind_of_ok received]

end Incoming

/-! ## What a stray entry leads to -/

/-- A link with an entry that names no descriptor of its ring, which the firmware takes next. The
bytes behind the table are described as a buffer. A send passes over the entry exactly if that
buffer is short. If it is roomy the send is over: the message was put there, nothing was handed
back, and nothing else has changed. A poll handles what stands there like any packet: it goes on
behind the entry with nothing handed back, after a call of the handler if the bytes ask for one. -/
theorem stray_entries_read_behind_table {s : Station σ} (placed : s.cores.Placed) (idx : UInt16) :
    (s.mux.tx.next? s.memory = some idx → s.mux.tx.layout.Stray idx →
      s.mux.tx.layout.DescribedIn s.memory idx → ∀ src dst data,
        ((s.cores.txBuffer idx).len.toNat < Header.size →
          Firmware.sendBlocking src dst data s = Firmware.sendBlocking src dst data s.pastTx) ∧
        (Header.size ≤ (s.cores.txBuffer idx).len.toNat →
          (∀ e ∈ fillEvents s.mux.tx s.memory idx ⟨src, dst, data.take maxPayload⟩,
            e.Fits s.memory) →
          Firmware.sendBlocking src dst data s = .ok ((), s.pastTx.perform
            (fillEvents s.mux.tx s.memory idx ⟨src, dst, data.take maxPayload⟩)))) ∧
    (s.mux.rx.next? s.memory = some idx → s.mux.rx.layout.Stray idx →
      s.mux.rx.layout.DescribedIn s.memory idx → (s.cores.rxBuffer idx).Reachable s.memory → ∀ fuel,
        (s.call? idx = none → Firmware.drain (fuel + 1) s =
          Firmware.drain fuel (s.advanced.perform (s.peekEvents idx))) ∧
        ∀ slot ends data, s.call? idx = some (slot, ends, data) → ∀ replies app,
          (s.mux.channels.get slot).handler ends data s.app = (replies, app) →
          Firmware.drain (fuel + 1) s =
            (Firmware.sendBack ends replies >>= fun _ => Firmware.drain fuel)
              ((s.advanced.perform (s.peekEvents idx)).told slot ends.remoteAddr app)) := by
  refine ⟨?_, ?_⟩
  · intro next stray described src dst data
    exact ⟨sendBlocking_stray_short placed next stray described,
      sendBlocking_stray_roomy placed next stray described⟩
  · intro next stray described reachable fuel
    have read : Firmware.readPacket idx s.advanced =
        .ok (s.packet? idx, s.advanced.perform (s.peekEvents idx)) :=
      Firmware.readPacket_of_described (s := s.advanced) described reachable
    rw [drain_stray placed next stray]
    refine ⟨?_, ?_⟩
    · intro none
      rw [bind_of_ok (Firmware.receive_of_no_call read none)]
      rfl
    · intro slot ends data call replies app handled
      have received := Firmware.receive_of_call (s := s.advanced) read call handled
      show (Firmware.receive idx >>= _) s.advanced = (Firmware.sendBack ends replies >>= _)
        ((s.advanced.perform (s.advanced.peekEvents idx)).told slot ends.remoteAddr app)
      cases run : Firmware.receive idx s.advanced with
      | error fault => rw [bind_of_error run, bind_of_error (received ▸ run)]
      | ok r => rw [bind_of_ok run, bind_of_ok (received ▸ run)]

/-! ## An announcement that nobody gets -/

/-- What the peer has written behind the rings: where descriptor 560 would stand, a buffer of 64
bytes. -/
def behindTable : List UInt8 :=
  LittleEndian.encode32 0x3400 ++ (LittleEndian.encode32 0 ++ LittleEndian.encode32 64)

/-- A link with two buffers in each direction, on which the peer has offered index 560 and then
index 0. -/
structure StrayOffered (s : Station Unit) : Prop where
  placed : s.cores.Placed
  layout : s.mux.tx.layout = fits_threePages.txLayout
  queues : s.cores.txEnds.queues = ⟨[560, 0], []⟩
  buffer : s.cores.txBuffer 560 = ⟨0x3400, 64⟩
  window : ∀ addr len, s.memory.Covers addr len ↔ threePages.memory.Covers addr len
  unused : s.mux.channels = Vector.replicate maxChannels {}

theorem exists_strayOffered : ∃ (start : Station Unit) (bus : Bus) (outcomes : List PeerOutcome)
    (m : Machine), twoBuffers.setUp () threePages = .ok (.ok start, bus) ∧
      PeerStep.runAll [.offerTx 560, .offerTx 0, .write 0x3300 behindTable] start.run.machine =
        .ok (outcomes, m) ∧ StrayOffered (start.withMachine m) := by
  obtain ⟨start, bus, run, starts⟩ := fits_threePages.setUp ()
  have ready := starts.fresh.ready
  have layout : start.cores.tx.layout = fits_threePages.txLayout :=
    congrArg (·.tx.layout) starts.cores
  have roomFor (c : Cores) (same : Cores.SameRings start.cores c) {n : Nat} (few : n < 2) :
      n < c.txDriver.layout.num.toNat := by
    rw [same.txDriver, starts.cores]
    exact few
  have fits : start.cores.memory.Covers 0x3300 behindTable.length := by
    rw [starts.covers, Memory.Covers, size_threePages]
    decide
  -- The offers.
  obtain ⟨m₁, offers₁, -, step₁⟩ := (Prelude.nothing start).offerTx ready.placed 560
  have step₁ : Cores.Step start.cores (.offeredTx 560) (start.withMachine m₁).cores := step₁
  obtain ⟨sound₁, queues₁⟩ := step₁.txQueues_offered ready.sound
    (by rw [ready.empty]; exact roomFor _ (.refl _) (by decide))
  rw [ready.empty] at queues₁
  obtain ⟨m₂, offers₂, -, step₂⟩ := offers₁.offerTx ready.placed 0
  obtain ⟨sound₂, queues₂⟩ := step₂.txQueues_offered sound₁
    (by rw [queues₁]; exact roomFor _ step₁.sameRings (by decide))
  rw [queues₁] at queues₂
  have same₂ := offers₂.session.path.1.sameRings
  -- The bytes behind the rings.
  obtain ⟨m₃, writes, -, step₃⟩ := offers₂.write fits
  have same₃ := writes.session.path.1.sameRings
  have covers := same₂.covers.mpr fits
  have last := step₃.eq_of_wrote
  have memory : (start.withMachine m₃).memory =
      (start.withMachine m₂).cores.memory.patch 0x3300 behindTable := congrArg (·.memory) last
  have apart : Event.Misses (start.withMachine m₂).cores.txDriver.layout.avail
      (start.withMachine m₂).cores.txDriver.layout.ringEnd (.write 0x3300 behindTable) := by
    rw [same₂.txDriver, starts.cores]
    exact .inr (by decide)
  have within : (start.withMachine m₂).cores.txDriver.layout.Within
      ((start.withMachine m₂).cores.memory.patch 0x3300 behindTable) :=
    Ring.Layout.Within.patch sound₂.within _ _
  obtain ⟨-, queues₃⟩ := Ring.Ends.Sound.elsewhere sound₂ within (Memory.agreeOn_patch covers apart)
  obtain ⟨outcomes, turn⟩ := writes.run
  refine ⟨start, bus, outcomes, m₃, run, turn, same₃.placed ready.placed, layout, ?_, ?_, ?_,
    starts.mux.channels⟩
  · rw [last]
    exact queues₃.trans queues₂
  · have here : (start.withMachine m₃).cores.tx.layout.descriptorAddr 560 = 0x3300 :=
      congrArg (Ring.Layout.descriptorAddr · 560) layout
    have written := Memory.slice_patch_self covers
    rw [← memory, ← here] at written
    exact Layout.buffer_of_slice written
  · intro addr len
    show (start.withMachine m₃).cores.memory.Covers addr len ↔ _
    rw [same₃.covers, starts.covers]

namespace StrayOffered

variable {s : Station Unit}

theorem next (h : StrayOffered s) : s.mux.tx.next? s.memory = some 560 := by
  have offered : s.cores.txDriver.layout.offered s.memory s.mux.tx.tail = [560, 0] :=
    congrArg Ring.Queues.offered h.queues
  rw [← h.placed.txOne] at offered
  exact congrArg List.head? offered

theorem stray (h : StrayOffered s) : s.mux.tx.layout.Stray 560 := by
  rw [h.layout]
  show 2 ≤ 560
  decide

theorem described (h : StrayOffered s) : s.mux.tx.layout.DescribedIn s.memory 560 := by
  intro offset len fits
  have fits : offset + len ≤ 16 := fits
  rw [h.window, h.layout, Memory.Covers, size_threePages]
  show 0x3300 + offset < _ ∧ 0x1000 ≤ 0x3300 + offset ∧ 0x3300 + offset - 0x1000 + len ≤ _
  simp only [UInt32.size]
  omega

/-- Any packet of 40 bytes fits where the bytes behind the table point. -/
theorem fits (h : StrayOffered s) {msg : Message} (length : msg.data.length = 40) :
    ∀ e ∈ fillEvents s.mux.tx s.memory 560 msg, e.Fits s.memory := by
  have buffer : s.mux.tx.layout.buffer s.memory 560 = ⟨0x3400, 64⟩ := h.buffer
  have whole : (msg.cutTo 64).data.length = 40 := by
    show (msg.data.take 48).length = 40
    rw [List.length_take, length]
    rfl
  rw [fillEvents, buffer, Message.events_fit, whole, h.window, h.window, Memory.Covers, Memory.Covers,
    size_threePages]
  decide

end StrayOffered

/-- The announcement of a channel goes where the bytes behind the table point. -/
theorem StrayOffered.swallowed {s : Station Unit} (here : StrayOffered s) :
    ∃ slot s', Firmware.createChannel "x" (fun _ _ app => (.done, app)) s = .ok (.ok slot, s') ∧
      s'.cores.tx.next? s'.memory = some 0 ∧ s'.cores.txDriver.nextUsed? s'.memory = none := by
  let announced := Firmware.announcement "x" s.mux.nextAddr
  let filled := s.memory.after (fillEvents s.mux.tx s.memory 560 announced)
  have free : s.freeSlot? = some ⟨0, by decide⟩ := Station.freeSlot?_of_unused here.unused
  have buffer : s.mux.tx.layout.buffer s.memory 560 = ⟨0x3400, 64⟩ := here.buffer
  have roomy : Header.size ≤ (s.mux.tx.layout.buffer s.memory 560).len.toNat := by
    rw [buffer]
    decide
  have fits := here.fits (Firmware.length_announcement "x" s.mux.nextAddr)
  have created : Firmware.createChannel "x" (fun _ _ app => (.done, app)) s = .ok _ :=
    createChannel_stray_roomy here.placed free here.next here.stray here.described roomy fits
  refine ⟨_, _, created, ?_⟩
  rw [memory_perform]
  -- The buffer behind the rings is apart from the queues.
  have apart : s.mux.tx.layout.span.Apart (s.mux.tx.layout.buffer s.memory 560).span := by
    rw [buffer, here.layout]
    decide
  have agree : s.memory.AgreeOn filled _ _ := agreeOn_fill roomy fits apart
  have below := s.mux.tx.layout.avail_eq
  have areas := s.mux.tx.layout.avail_add_le_used
  have ends := s.mux.tx.layout.ringEnd_eq
  have one : s.mux.tx.layout = s.cores.txDriver.layout := here.placed.txOne
  have offered : s.mux.tx.layout.offered s.memory s.mux.tx.tail = [560, 0] := by
    rw [one]
    exact congrArg Ring.Queues.offered here.queues
  have returned : s.mux.tx.layout.returned s.memory s.cores.txDriver.lastUsed = [] := by
    rw [one]
    exact congrArg Ring.Queues.returned here.queues
  have offered' : s.mux.tx.layout.offered filled s.mux.tx.tail = [560, 0] := by
    rw [Layout.offered_agree (agree.mono _ _), offered]
    all_goals simp only [Layout.span]; omega
  have returned' : s.cores.txDriver.layout.returned filled s.cores.txDriver.lastUsed = [] := by
    rw [← one, Layout.returned_agree (agree.mono _ _), returned]
    all_goals simp only [Layout.span]; omega
  have first : s.mux.tx.next? filled = some 560 := congrArg List.head? offered'
  have behind := Device.offered_of_next? first
  rw [offered'] at behind
  refine ⟨congrArg List.head? (List.tail_eq_of_cons_eq behind).symm, ?_⟩
  exact congrArg List.head? returned'

/-- The peer has offered a good buffer behind the stray entry, but the announcement of a channel
goes to where the bytes behind the table point. The channel is created, the good buffer still waits,
and the peer has nothing to collect. -/
theorem stray_entry_swallows_announcement :
    ∃ (start : Station Unit) (bus : Bus) (outcomes : List PeerOutcome) (m : Machine)
      (slot : Fin maxChannels) (s' : Station Unit),
      twoBuffers.setUp () threePages = .ok (.ok start, bus) ∧
        PeerStep.runAll [.offerTx 560, .offerTx 0, .write 0x3300 behindTable] start.run.machine =
          .ok (outcomes, m) ∧
        Firmware.createChannel "x" (fun _ _ app => (.done, app)) (start.withMachine m) =
          .ok (.ok slot, s') ∧
        s'.cores.tx.next? s'.memory = some 0 ∧ s'.cores.txDriver.nextUsed? s'.memory = none := by
  obtain ⟨start, bus, outcomes, m, run, turn, here⟩ := exists_strayOffered
  obtain ⟨slot, s', created, waits, nothing⟩ := here.swallowed
  exact ⟨start, bus, outcomes, m, slot, s', run, turn, created, waits, nothing⟩

/-- A send on the same link ends in the same way. -/
theorem stray_entries_read_behind_table_of_offered :
    ∃ (start : Station Unit) (bus : Bus) (outcomes : List PeerOutcome) (m : Machine),
      twoBuffers.setUp () threePages = .ok (.ok start, bus) ∧
        PeerStep.runAll [.offerTx 560, .offerTx 0, .write 0x3300 behindTable] start.run.machine =
          .ok (outcomes, m) ∧
        Firmware.sendBlocking 1 2 (List.replicate 40 0) (start.withMachine m) =
          .ok ((), (start.withMachine m).pastTx.perform (fillEvents (start.withMachine m).mux.tx
            (start.withMachine m).memory 560 ⟨1, 2, List.replicate 40 0⟩)) := by
  obtain ⟨start, bus, outcomes, m, run, turn, here⟩ := exists_strayOffered
  refine ⟨start, bus, outcomes, m, run, turn, ?_⟩
  refine ((stray_entries_read_behind_table here.placed 560).1 here.next here.stray here.described
    1 2 (List.replicate 40 0)).2 ?_ ?_
  · rw [here.buffer]
    decide
  · exact here.fits rfl

end InterCore.Link
