import InterCore.Proofs.Link.Containment
import InterCore.Proofs.Link.Strays
import InterCore.Proofs.Memory.Faults

/-!
# Loops that end whatever a ring holds

The two loops of the firmware run until the index of an available ring is reached. What the ring
holds is up to the peer: the index may be further ahead than there are descriptors, and an entry may
be any number. Each turn of a loop comes one entry closer to the index, and nothing that the loops
write themselves moves it. So there are as many turns as the index is ahead, counted modulo 2^16
(`loops_end_on_any_ring`).

A run can fail at an access outside the memory, and that is then the only fault (`OnlyOutside`).
-/

namespace InterCore

theorem OnlyOutside.readDescriptor {l : Ring.Layout} {idx : UInt16} {bus : Bus} :
    OnlyOutside (l.readDescriptor idx bus) :=
  read32.bind fun _ _ _ => read32.bind fun _ _ _ => read32.bind fun _ _ _ =>
    read16.bind fun _ _ _ => read16.bind fun _ _ _ => ok _

end InterCore

namespace InterCore.Link

open InterCore.Packet (Header maxLen maxPayload)
open InterCore.Ring (Device)

/-! ## The search for an outgoing buffer -/

section Search

variable {tx tx' : Device} {bus bus' : Bus} {taken : List UInt16}
  {found : Option (UInt16 × Ring.Descriptor)}

/-- The firmware's count goes on by one with each entry. -/
theorem Search.advanceBy (h : Search tx bus taken found tx' bus') : tx' = tx.advanceBy taken.length := by
  induction h with
  | @empty tx => exact tx.advanceBy_zero.symm
  | found => rfl
  | @short tx _ _ _ _ _ taken _ next read short later ih =>
    rw [ih, List.length_cons, tx.advanceBy_succ]

/-- A search takes entries that were there when it began: what it hands back does not move the index
and changes no entry. -/
theorem Search.taken_prefix (h : Search tx bus taken found tx' bus')
    (within : tx.layout.Within bus.memory) : taken <+: tx.layout.offered bus.memory tx.tail := by
  induction h with
  | empty => exact List.nil_prefix
  | found next => exact ⟨_, (Device.offered_of_next? next).symm⟩
  | short next read short later ih =>
    rw [Device.offered_of_handBack within next, List.cons_prefix_cons]
    have rest := ih (within.after _)
    rw [Bus.memory_after] at rest
    exact ⟨rfl, rest⟩

/-- A search comes to an end in as many turns as the index is ahead, and one to see that. -/
theorem onlyOutside_takeBuffer? {fuel : Nat} (within : tx.layout.Within bus.memory)
    (enough : (tx.layout.offered bus.memory tx.tail).length < fuel) :
    OnlyOutside (takeBuffer? tx fuel bus) := by
  induction fuel generalizing tx bus with
  | zero => omega
  | succ fuel ih =>
    cases next : tx.next? bus.memory with
    | none =>
      rw [takeBuffer?_of_none fuel within next]
      exact .ok _
    | some idx =>
      cases read : tx.layout.readDescriptor idx bus with
      | error fault =>
        cases OnlyOutside.readDescriptor fault read
        rw [takeBuffer?_of_unread fuel within next read]
        exact .failed
      | ok r =>
        obtain ⟨d, bus₁⟩ := r
        obtain ⟨rfl, -⟩ := Ring.Layout.readDescriptor_eq_ok read
        rw [takeBuffer?_of_read fuel within next read]
        split
        case isTrue => exact .ok _
        case isFalse =>
          refine ih (within.after _) ?_
          rw [Device.offered_of_handBack within next, List.length_cons] at enough
          rw [Bus.memory_after]
          exact Nat.lt_of_succ_lt_succ enough

/-- A buffer that was found is filled and handed back. -/
theorem onlyOutside_trySend (src dst : UInt32) (data : List UInt8)
    (within : tx.layout.Within bus.memory) : OnlyOutside (trySend tx src dst data bus) := by
  refine .bind (onlyOutside_takeBuffer? within (tx.layout.length_offered_lt _ _)) ?_
  rintro ⟨found, tx₁⟩ bus₁ took
  obtain ⟨taken, search⟩ := search_of_takeBuffer? within took
  have within₁ := search.within within
  cases found with
  | none => exact .ok _
  | some r =>
    refine OnlyOutside.writeBytes.bind fun _ bus₂ header => ?_
    obtain ⟨-, rfl⟩ := OnBus.writeBytes_eq_ok header
    refine OnlyOutside.writeBytes.bind fun _ bus₃ payload => ?_
    obtain ⟨-, rfl⟩ := OnBus.writeBytes_eq_ok payload
    rw [OnBus.bind_eq (Bus.flush_eq _ _ _),
      OnBus.bind_eq (Device.publish_handBack (((within₁.after _).after _).after _) _ _)]
    exact .ok _

/-- An attempt that returns says whether its search found a buffer. -/
theorem trySend_of_search {src dst : UInt32} {data : List UInt8} {sent : Bool}
    (within : tx.layout.Within bus.memory)
    (run : trySend tx src dst data bus = .ok ((sent, tx'), bus')) :
    ∃ taken found bus₁, takeBuffer? tx indexSpan bus = .ok ((found, tx'), bus₁) ∧
      Search tx bus taken found tx' bus₁ ∧ sent = found.isSome := by
  obtain ⟨⟨found, tx₁⟩, bus₁, took, rest⟩ := bind_eq_ok.mp run
  obtain ⟨taken, search⟩ := search_of_takeBuffer? within took
  suffices sent = found.isSome ∧ tx' = tx₁ by
    obtain ⟨rfl, rfl⟩ := this
    exact ⟨taken, found, bus₁, took, search, rfl⟩
  cases found with
  | none =>
    cases rest
    exact ⟨rfl, rfl⟩
  | some buffer =>
    obtain ⟨_, _, -, rest⟩ := bind_eq_ok.mp rest
    obtain ⟨_, _, -, rest⟩ := bind_eq_ok.mp rest
    obtain ⟨_, _, -, rest⟩ := bind_eq_ok.mp rest
    obtain ⟨_, _, -, rest⟩ := bind_eq_ok.mp rest
    cases rest
    exact ⟨rfl, rfl⟩

end Search

/-! ## The packets of the incoming ring -/

section Drain

variable {σ : Type} {s s' : Station σ} {idx : UInt16}

theorem onlyOutside_onBus {work : OnBus α} (h : OnlyOutside (work s.run.machine.bus)) :
    OnlyOutside (Firmware.onBus work s) := by
  intro fault failed
  obtain ⟨⟨machine, schedule, waits⟩, mux, app⟩ := s
  apply h
  cases run : work machine.bus with
  | error fault' =>
    simp only [Firmware.onBus, Firmware.onMachine, Machine.onBus, run] at failed
    cases failed
    rfl
  | ok r =>
    simp only [Firmware.onBus, Firmware.onMachine, Machine.onBus, run] at failed
    cases failed

/-- A message that needs no wait is sent. -/
theorem onlyOutside_sendBlocking {src dst : UInt32} {data : List UInt8} (placed : s.cores.Placed)
    (unwaiting : ∀ s', ¬ Waiting ⟨src, dst, data.take maxPayload⟩ s s') :
    OnlyOutside (Firmware.sendBlocking src dst data s) := by
  have sends := onlyOutside_trySend src dst (data.take maxPayload) placed.txWithin
  cases tried : trySend s.mux.tx src dst (data.take maxPayload) s.run.machine.bus with
  | error fault =>
    cases sends fault tried
    obtain ⟨⟨machine, schedule, waits⟩, mux, app⟩ := s
    dsimp only at tried
    rw [Firmware.sendBlocking, sendWaiting.eq_def]
    simp only [Machine.onBus, tried]
    exact .failed
  | ok r =>
    obtain ⟨⟨sent, tx⟩, bus⟩ := r
    cases sent with
    | false => exact absurd (.here ⟨Machine.onBus_eq tried⟩) (unwaiting _)
    | true =>
      rw [Firmware.sendBlocking_of_sent (.mk (Machine.onBus_eq tried))]
      exact .ok _

theorem onlyOutside_sendBack {ep : Endpoint} {replies : Replies} (placed : s.cores.Placed)
    (unwaiting : ∀ s', ¬ Answering ep replies s s') : OnlyOutside (Firmware.sendBack ep replies s) := by
  induction replies generalizing s with
  | done => exact .ok _
  | next data rest ih =>
    refine .bind (onlyOutside_sendBlocking placed fun s' waits => unwaiting s' (.here waits)) ?_
    intro _ s₁ sent
    have placed₁ := (Firmware.sendBlocking_eq_ok placed sent).placed placed
    exact ih () placed₁ fun s' waits => unwaiting s' (.later sent waits)

theorem onlyOutside_readPacket : OnlyOutside (Firmware.readPacket idx s) := by
  rw [Firmware.readPacket, bind_of_ok (Firmware.get_eq s)]
  refine .bind (onlyOutside_onBus .readDescriptor) fun d s₁ _ => ?_
  dsimp only
  split
  · exact .ok _
  · refine .bind (onlyOutside_onBus (.ok _)) fun _ s₂ _ => ?_
    refine .bind (onlyOutside_onBus .readBytes) fun _ s₃ _ => ?_
    split
    · exact .ok _
    · exact .bind (onlyOutside_onBus .readBytes) fun _ _ _ => .ok _

theorem onlyOutside_receive (placed : s.cores.Placed)
    (unwaiting : ∀ slot header data replies app s', s.Accepts idx slot header data →
      (s.mux.channels.get slot).handler ⟨header.dst, header.src⟩ data s.app = (replies, app) →
        ¬ Answering ⟨header.dst, header.src⟩ replies
          ((s.perform (s.peekEvents idx)).told slot header.src app) s') :
    OnlyOutside (Firmware.receive idx s) := by
  cases read : Firmware.readPacket idx s with
  | error fault =>
    cases onlyOutside_readPacket fault read
    rw [Firmware.receive, bind_of_error read]
    exact .failed
  | ok r =>
    obtain ⟨packet, s₁⟩ := r
    obtain ⟨rfl, rfl⟩ := Firmware.readPacket_eq_ok read
    cases call : s.call? idx with
    | none =>
      rw [Firmware.receive_of_no_call read call]
      exact .ok _
    | some wanted =>
      obtain ⟨slot, ends, data⟩ := wanted
      obtain ⟨header, accepted, rfl⟩ := Station.accepts_of_call? call
      cases handled : (s.mux.channels.get slot).handler ⟨header.dst, header.src⟩ data s.app with
      | mk replies app =>
        rw [Firmware.receive_of_call read call handled]
        refine onlyOutside_sendBack ?_ fun s' =>
          unwaiting slot header data replies app s' accepted handled
        rw [Station.cores_peek_told]
        exact placed

/-- Where a packet was handled and its buffer handed back, the firmware goes on. -/
theorem Serving.of_received {s₁ : Station σ} (placed : s.cores.Placed)
    (next : s.mux.rx.next? s.memory = some idx)
    (received : Firmware.receive idx s.advanced = .ok ((), s₁)) (serving : Serving (s₁.handBack idx) s') :
    Serving s s' := by
  have took : Firmware.onBus s.mux.rx.take? s = .ok ((some idx, s.mux.rx.advance), s) :=
    Firmware.onBus_read (Device.take?_of_next? placed.rxWithin next)
  obtain ⟨delivery, handled⟩ := Firmware.receive_eq_ok received
  have placed₁ := Station.placed_advanced placed
  obtain ⟨acts, path, -⟩ := handled.path placed₁
  have handedBack := Device.publish_handBack (path.placed placed₁).rxWithin idx (UInt32.ofNat maxLen)
  exact .later took received (Firmware.onBus_eq handedBack) serving

/-- The packets of the incoming ring can be handled without a wait, and nothing that is done for
them touches the available ring. -/
structure Undisturbed (s : Station σ) : Prop where
  placed : s.cores.Placed
  unwaiting : ∀ s', ¬ Draining s s'
  untouched : ∀ s', Serving s s' →
    s.memory.AgreeOn s'.memory s.mux.rx.layout.avail s.mux.rx.layout.used

namespace Undisturbed

theorem receive (h : Undisturbed s) (next : s.mux.rx.next? s.memory = some idx) :
    OnlyOutside (Firmware.receive idx s.advanced) :=
  onlyOutside_receive (Station.placed_advanced h.placed)
    fun _ _ _ _ _ s' accepted handled waits => h.unwaiting s' (.here next accepted handled waits)

/-- One packet fewer waits when it was handled and its buffer handed back. -/
theorem step (h : Undisturbed s) {s₁ : Station σ} (next : s.mux.rx.next? s.memory = some idx)
    (received : Firmware.receive idx s.advanced = .ok ((), s₁)) :
    Undisturbed (s₁.handBack idx) ∧ (s₁.handBack idx).mux.rx = s.mux.rx.advance ∧
      s.cores.incoming = idx :: (s₁.handBack idx).cores.incoming := by
  obtain ⟨delivery, handled⟩ := Firmware.receive_eq_ok received
  have placed₁ := Station.placed_advanced h.placed
  have rx : (s₁.handBack idx).mux.rx = s.mux.rx.advance := handled.rx_eq placed₁
  have kept := h.untouched _ (.of_received h.placed next received (.here (s₁.handBack idx)))
  refine ⟨⟨handled.placed_handBack placed₁,
    fun s' waits => h.unwaiting s' (.later next handled waits), ?_⟩, rx, ?_⟩
  · intro s' serving
    rw [rx]
    exact kept.symm.trans (h.untouched s' (.of_received h.placed next received serving))
  · have queue : s.cores.incoming = idx :: s.mux.rx.layout.offered s.memory s.mux.rx.advance.tail :=
      Device.offered_of_next? next
    rw [queue, ← Ring.Layout.offered_agree kept]
    show _ = idx :: (s₁.handBack idx).mux.rx.layout.offered _ (s₁.handBack idx).mux.rx.tail
    rw [rx]
    rfl

/-- As many packets are handled as the index is ahead. -/
theorem drain {fuel : Nat} (h : Undisturbed s) (enough : s.cores.incoming.length < fuel) :
    OnlyOutside (Firmware.drain fuel s) ∧ ∀ s', Firmware.drain fuel s = .ok ((), s') →
      ∃ log, Drains s log s' ∧ log.map Prod.fst = s.cores.incoming ∧
        s'.mux.rx = s.mux.rx.advanceBy log.length := by
  induction fuel generalizing s with
  | zero => omega
  | succ fuel ih =>
    cases next : s.mux.rx.next? s.memory with
    | none =>
      have empty : s.cores.incoming = [] := Device.offered_of_next?_none next
      rw [Firmware.drain_of_none fuel h.placed next, empty]
      refine ⟨.ok _, ?_⟩
      rintro s' ⟨⟩
      exact ⟨[], .empty next, rfl, s.mux.rx.advanceBy_zero.symm⟩
    | some idx =>
      cases received : Firmware.receive idx s.advanced with
      | error fault =>
        cases h.receive next fault received
        rw [Firmware.drain_of_next? fuel h.placed next, bind_of_error received]
        refine ⟨.failed, ?_⟩
        rintro s' ⟨⟩
      | ok r =>
        obtain ⟨⟨⟩, s₁⟩ := r
        obtain ⟨delivery, handled⟩ := Firmware.receive_eq_ok received
        obtain ⟨h₁, rx, queue⟩ := h.step next received
        rw [queue, List.length_cons] at enough
        obtain ⟨only, ends⟩ := ih h₁ (Nat.lt_of_succ_lt_succ enough)
        rw [Firmware.drain_of_received fuel h.placed next received]
        refine ⟨only, fun s' run => ?_⟩
        obtain ⟨log, drains, order, counted⟩ := ends s' run
        refine ⟨(idx, delivery) :: log, .packet next handled drains, ?_, ?_⟩
        · rw [List.map_cons, order, queue]
        · rw [counted, rx, List.length_cons, s.mux.rx.advanceBy_succ]

end Undisturbed

/-- A poll without a wait takes as many packets as the index is ahead. -/
theorem poll_ends {k : KickCounter} (kick : s.run.machine.kicks.rx.take? = some k)
    (undisturbed : Undisturbed (s.woken k)) (inside : Firmware.poll s ≠ .error .outsideMemory) :
    ∃ log s', Firmware.poll s = .ok (true, s') ∧ Drains (s.woken k) log s' ∧
      log.map Prod.fst = s.cores.incoming ∧ s'.mux.rx = s.mux.rx.advanceBy log.length := by
  have waiting : (s.woken k).cores.incoming = s.cores.incoming := by
    rw [s.cores_woken k]
    rfl
  have enough : (s.woken k).cores.incoming.length < Firmware.patience s.run.schedule :=
    Nat.lt_of_le_of_lt (Nat.le_add_right _ _) (Firmware.work_lt_patience (s.woken k))
  have poll : Firmware.poll s = (Firmware.drain (Firmware.patience s.run.schedule) >>= fun _ =>
      pure true) (s.woken k) := by
    rw [Firmware.poll_eq, kick]
  obtain ⟨only, ends⟩ := undisturbed.drain enough
  rw [poll] at inside ⊢
  obtain ⟨⟨b, s'⟩, run⟩ := (only.bind fun _ _ _ => .ok _).eq_ok inside
  obtain ⟨⟨⟩, s₁, drained, last⟩ := bind_eq_ok.mp run
  cases last
  obtain ⟨log, drains, order, counted⟩ := ends s' drained
  exact ⟨log, s', run, drains, order.trans waiting, counted⟩

/-! ### Without replies -/

theorem took_eq {rx : Device} (placed : s.cores.Placed)
    (took : Firmware.onBus s.mux.rx.take? s = .ok ((some idx, rx), s')) :
    s' = s ∧ rx = s.mux.rx.advance := by
  have within : s.mux.rx.layout.Within s.run.machine.bus.memory := placed.rxWithin
  obtain ⟨bus, did, rfl⟩ := Firmware.onBus_eq_ok took
  cases next : s.mux.rx.next? s.run.machine.bus.memory with
  | none =>
    rw [Device.take?_of_next?_none within next] at did
    cases did
  | some idx' =>
    rw [Device.take?_of_next? within next] at did
    cases did
    exact ⟨rfl, rfl⟩

/-- Handlers that send nothing back leave the available ring alone. -/
theorem Serving.untouched (h : Serving s s') (silent : s.Silent) (placed : s.cores.Placed) :
    s.memory.AgreeOn s'.memory s.mux.rx.layout.avail s.mux.rx.layout.used := by
  induction h with
  | here => exact fun _ _ _ => rfl
  | @handling s s₁ s₂ s' rx idx slot header data replies app took read found handled replying =>
    obtain ⟨rfl, rfl⟩ := took_eq placed took
    obtain ⟨-, rfl⟩ := Firmware.readPacket_eq_ok read
    have peeked : s₁.advanced.Silent := silent
    cases (peeked.perform _).done handled
    cases replying
    have memory : Station.memory _ = s₁.memory :=
      congrArg Cores.memory (s₁.advanced.cores_peek_told idx slot header.src app)
    rw [← memory]
    exact fun _ _ _ => rfl
  | @later s s₁ s₂ s₃ s' rx idx took received handedBack serving ih =>
    obtain ⟨rfl, rfl⟩ := took_eq placed took
    obtain ⟨delivery, handled⟩ := Firmware.receive_eq_ok received
    obtain ⟨cores, silent₂⟩ := Station.Silent.handled (s := s₁.advanced) silent handled
    have rx : s₂.mux.rx = s₁.mux.rx.advance := congrArg Cores.rx cores
    have memory : s₂.memory = s₁.memory := congrArg Cores.memory cores
    have placed₂ : s₂.cores.Placed := by
      rw [cores]
      exact Station.placed_advanced placed
    have within : s₂.mux.rx.layout.Within s₂.memory := placed₂.rxWithin
    have returned : Firmware.onBus _ s₂ = .ok ((), s₂.handBack idx) :=
      Firmware.onBus_eq (Device.publish_handBack within idx (UInt32.ofNat maxLen))
    rw [returned] at handedBack
    cases handedBack
    have kept : s₂.memory.AgreeOn (s₂.handBack idx).memory s₂.mux.rx.layout.avail
        s₂.mux.rx.layout.used := by
      rw [Station.handBack, memory_perform]
      exact Device.agreeOn_handBack_avail within
    have rest := kept.trans (ih silent₂ (handled.placed_handBack (Station.placed_advanced placed)))
    rw [memory, rx] at rest
    exact rest

end Drain

variable {σ : Type}

/-- The two loops of the firmware end whatever a ring holds, unless there is an access outside the
memory. The search of an attempt to send takes entries that are there when it begins, which are at
most as many as the index of the ring is ahead of the firmware's count. A poll takes all of those of
the incoming ring and no others if none of its handlers has to wait and nothing touches the
available ring meanwhile: each entry is taken, handled and handed back once, and in the end the
count has come to the index. -/
theorem loops_end_on_any_ring (tx : Device) (bus : Bus) (msg : Message) (s : Station σ) :
    (tx.layout.Within bus.memory → trySend tx msg.src msg.dst msg.data bus ≠ .error .outsideMemory →
      ∃ taken found tx' bus₁ bus', takeBuffer? tx indexSpan bus = .ok ((found, tx'), bus₁) ∧
        Search tx bus taken found tx' bus₁ ∧ tx' = tx.advanceBy taken.length ∧
        taken <+: tx.layout.offered bus.memory tx.tail ∧
        taken.length ≤ (bus.memory.word16 tx.layout.availIdxAddr - tx.tail).toNat ∧
        trySend tx msg.src msg.dst msg.data bus = .ok ((found.isSome, tx'), bus')) ∧
    ∀ k, s.cores.Placed → s.run.machine.kicks.rx.take? = some k →
      (∀ s', ¬ Draining (s.woken k) s') →
      (∀ s', Serving (s.woken k) s' →
        s.memory.AgreeOn s'.memory s.mux.rx.layout.avail s.mux.rx.layout.used) →
      Firmware.poll s ≠ .error .outsideMemory →
      ∃ log s' acts, Firmware.poll s = .ok (true, s') ∧ Drains (s.woken k) log s' ∧
        log.map Prod.fst = s.mux.rx.layout.offered s.memory s.mux.rx.tail ∧
        log.length = (s.memory.word16 s.mux.rx.layout.availIdxAddr - s.mux.rx.tail).toNat ∧
        Cores.Path s.cores acts s'.cores ∧ served acts = servings log ∧
        s'.mux.rx.tail = s.memory.word16 s.mux.rx.layout.availIdxAddr ∧
        s'.memory.word16 s'.mux.rx.layout.availIdxAddr = s'.mux.rx.tail := by
  refine ⟨?_, ?_⟩
  · intro within inside
    obtain ⟨⟨⟨sent, tx'⟩, bus'⟩, run⟩ := (onlyOutside_trySend _ _ _ within).eq_ok inside
    obtain ⟨taken, found, bus₁, took, search, rfl⟩ := trySend_of_search within run
    have first := search.taken_prefix within
    have bound := first.length_le
    rw [Ring.Layout.offered, Ring.length_entriesUpTo] at bound
    exact ⟨taken, found, tx', bus₁, bus', took, search, search.advanceBy, first, bound, run⟩
  · intro k placed kick unwaiting untouched inside
    have memory : (s.woken k).memory = s.memory := congrArg Cores.memory (s.cores_woken k)
    have undisturbed : Undisturbed (s.woken k) :=
      ⟨Station.placed_woken placed k, unwaiting, by rw [memory]; exact untouched⟩
    obtain ⟨log, s', run, drains, order, counted⟩ := poll_ends kick undisturbed inside
    obtain ⟨more, path, -, each⟩ := drains.path_woken kick (s.cores_woken k) placed
    have length : log.length =
        (s.memory.word16 s.mux.rx.layout.availIdxAddr - s.mux.rx.tail).toNat := by
      rw [← List.length_map Prod.fst, order]
      exact Ring.length_entriesUpTo _ _ _
    refine ⟨log, s', _, run, drains, order, length, path, each, ?_, ?_⟩
    · rw [counted, length]
      exact Ring.add_distance _ _
    · exact Ring.entriesUpTo_eq_nil.mp (Device.offered_of_next?_none drains.next?_eq_none)

/-- A short buffer, a descriptor that was never written, and an available ring of two entries whose
index says that there are five. Its second entry names no descriptor. -/
def overrunRing : List UInt8 :=
  [0x20, 0x10, 0, 0, 0, 0, 0, 0, 8, 0, 0, 0, 0, 0, 0, 0] ++ List.replicate 16 0 ++
    [0, 0, 5, 0, 0, 0, 7, 0]

/-- A station whose rings stand at one place, with an index that has run ahead. -/
def overrun : Station Unit where
  run.machine :=
    { bus.memory := ⟨0xFD0, (overrunRing ++ List.replicate 150 0).toArray⟩
      kicks := Kicks.onRx {}
      peer := ⟨{ layout := pageLayout }, { layout := pageLayout }, []⟩ }
  mux := { tx := { layout := pageLayout }, rx := { layout := pageLayout } }
  app := ()

/-- Five entries are taken in search of a buffer, and five by a poll. -/
theorem loops_end_on_overrun_ring :
    overrun.memory.word16 pageLayout.availIdxAddr = 5 ∧
    (∃ taken tx' bus₁ bus',
      Search ⟨pageLayout, 0⟩ overrun.run.machine.bus taken none tx' bus₁ ∧ taken.length ≤ 5 ∧
        tx' = Device.advanceBy ⟨pageLayout, 0⟩ taken.length ∧
        trySend ⟨pageLayout, 0⟩ 1 2 [3] overrun.run.machine.bus = .ok ((false, tx'), bus')) ∧
    ∃ log s', Firmware.poll overrun = .ok (true, s') ∧ Drains (overrun.woken ⟨0⟩) log s' ∧
      log.map Prod.fst = [0, 7, 0, 7, 0] ∧ s'.mux.rx.tail = 5 := by
  have index : overrun.memory.word16 pageLayout.availIdxAddr = 5 := by decide +kernel
  have within : pageLayout.Within overrun.memory := by
    show _ ∧ _
    decide +kernel
  have placed : overrun.cores.Placed := ⟨rfl, rfl, within, within⟩
  have silent : overrun.Silent := overrun.silent_of_unused rfl
  have queue : pageLayout.offered overrun.memory 0 = [0, 7, 0, 7, 0] := by decide +kernel
  have missed : (trySend ⟨pageLayout, 0⟩ 1 2 [3] overrun.run.machine.bus).toOption.map
      (fun r => r.1.1) = some false := by decide +kernel
  have returns : (Firmware.poll overrun).toOption.isSome := by decide +kernel
  have ends := loops_end_on_any_ring ⟨pageLayout, 0⟩ overrun.run.machine.bus ⟨1, 2, [3]⟩ overrun
  refine ⟨index, ?_, ?_⟩
  · have inside : trySend ⟨pageLayout, 0⟩ 1 2 [3] overrun.run.machine.bus ≠ .error .outsideMemory := by
      intro failed
      rw [failed] at missed
      cases missed
    obtain ⟨taken, found, tx', bus₁, bus', -, search, count, -, bound, run⟩ := ends.1 within inside
    have bound : taken.length ≤ (overrun.memory.word16 pageLayout.availIdxAddr - 0).toNat := bound
    rw [index] at bound
    have run : trySend ⟨pageLayout, 0⟩ 1 2 [3] overrun.run.machine.bus = _ := run
    rw [run] at missed
    cases found with
    | none => exact ⟨taken, tx', bus₁, bus', search, bound, count, run⟩
    | some buffer => cases missed
  · have inside : Firmware.poll overrun ≠ .error .outsideMemory := by
      intro failed
      rw [failed] at returns
      cases returns
    have memory : (overrun.woken ⟨0⟩).memory = overrun.memory :=
      congrArg Cores.memory (overrun.cores_woken ⟨0⟩)
    have untouched : ∀ s', Serving (overrun.woken ⟨0⟩) s' →
        overrun.memory.AgreeOn s'.memory pageLayout.avail pageLayout.used := by
      intro s' serving
      rw [← memory]
      exact serving.untouched (silent.woken ⟨0⟩) (Station.placed_woken placed ⟨0⟩)
    obtain ⟨log, s', -, run, drains, order, -, -, -, tail, -⟩ := ends.2 ⟨0⟩ placed rfl
      (fun _ => (silent.woken ⟨0⟩).not_draining) untouched inside
    exact ⟨log, s', run, drains, order.trans queue, tail.trans index⟩

end InterCore.Link
