import InterCore.Proofs.Link.Calls

/-!
# What a poll does to the incoming ring

A poll that takes a kick handles the packets of the incoming ring in order until there is none.
`Station.Accepts` says which packets are given to a channel and `Handled` what becomes of one
packet. `Drains` puts them together with the buffers handed back, and `poll_eq_ok` says that a poll
that returns went so.
-/

namespace InterCore.Link

open InterCore.Packet (Header maxLen maxPayload)
open InterCore.Ring (Device Driver UsedElem)

variable {σ : Type}

/-- The first entry of a vector for which a test holds. -/
theorem findFinIdx?_eq_some_iff {α : Type} {n : Nat} {xs : Vector α n} {p : α → Bool} {i : Fin n} :
    xs.findFinIdx? p = some i ↔ p (xs.get i) = true ∧ ∀ j < i, p (xs.get j) = false := by
  obtain ⟨xs, rfl⟩ := xs
  have mapped : (Vector.mk xs rfl).findFinIdx? p = xs.findFinIdx? p := by
    simp [Vector.findFinIdx?]
  rw [mapped, Array.findFinIdx?_eq_some_iff]
  simp [Vector.get]

theorem findFinIdx?_eq_none_iff {α : Type} {n : Nat} {xs : Vector α n} {p : α → Bool} :
    xs.findFinIdx? p = none ↔ ∀ i, p (xs.get i) = false := by
  obtain ⟨xs, rfl⟩ := xs
  have mapped : (Vector.mk xs rfl).findFinIdx? p = xs.findFinIdx? p := by
    simp [Vector.findFinIdx?]
  rw [mapped, Array.findFinIdx?_eq_none_iff]
  simp [Vector.get, Array.forall_mem_iff_forall_getElem, Fin.forall_iff]

/-- Where no channel was created yet the next one gets the first slot. -/
theorem Station.freeSlot?_of_unused {s : Station σ}
    (unused : s.mux.channels = Vector.replicate maxChannels {}) :
    s.freeSlot? = some ⟨0, by decide⟩ := by
  rw [freeSlot?, unused, findFinIdx?_eq_some_iff]
  exact ⟨rfl, fun slot before => absurd (Fin.lt_def.mp before) (Nat.not_lt_zero slot)⟩

/-! ## One packet -/

namespace Station

variable {s : Station σ} {idx : UInt16} {slot : Fin maxChannels} {header : Header}
  {data : List UInt8}

/-- The shared memory. -/
def memory (s : Station σ) : Memory :=
  s.run.machine.bus.memory

/-- The incoming buffer of a descriptor. -/
def rxBuffer (s : Station σ) (idx : UInt16) : Ring.Buffer :=
  s.mux.rx.layout.buffer s.memory idx

/-- The packet in a buffer is well formed, and a channel waits for it: the first live one with the
address that the packet is sent to. -/
structure Accepts (s : Station σ) (idx : UInt16) (slot : Fin maxChannels) (header : Header)
    (data : List UInt8) : Prop where
  roomForHeader : Header.size ≤ (s.rxBuffer idx).capacity
  headerRead : header = Header.decode (s.memory.slice (s.rxBuffer idx).addr.toNat Header.size)
  roomForData : Header.size + header.len.toNat ≤ (s.rxBuffer idx).capacity
  dataRead : data =
    s.memory.slice ((s.rxBuffer idx).addr.toNat + Header.size) header.len.toNat
  live : (s.mux.channels.get slot).isLive
  address : (s.mux.channels.get slot).localAddr = header.dst
  first : ∀ i < slot, ¬ ((s.mux.channels.get i).isLive ∧
    (s.mux.channels.get i).localAddr = header.dst)

/-- The packet in a buffer, if it is well formed. -/
def packet? (s : Station σ) (idx : UInt16) : Option (Header × List UInt8) :=
  let b := s.rxBuffer idx
  if b.capacity < Header.size then none
  else
    let header := Header.decode (s.memory.slice b.addr.toNat Header.size)
    if b.capacity < Header.size + header.len.toNat then none
    else some (header, s.memory.slice (b.addr.toNat + Header.size) header.len.toNat)

/-- The channel that has an address. -/
def recipient? (s : Station σ) (dst : UInt32) : Option (Fin maxChannels) :=
  s.mux.channels.findFinIdx? fun c => c.isLive && c.localAddr == dst

theorem accepts_iff : s.Accepts idx slot header data ↔
    s.packet? idx = some (header, data) ∧ s.recipient? header.dst = some slot := by
  have wanted : s.recipient? header.dst = some slot ↔
      ((s.mux.channels.get slot).isLive ∧ (s.mux.channels.get slot).localAddr = header.dst) ∧
        ∀ i < slot, ¬ ((s.mux.channels.get i).isLive ∧
          (s.mux.channels.get i).localAddr = header.dst) := by
    simp [recipient?, findFinIdx?_eq_some_iff]
  rw [wanted]
  constructor
  · rintro ⟨enough, rfl, whole, rfl, live, address, first⟩
    refine ⟨?_, ⟨live, address⟩, first⟩
    rw [packet?, if_neg (Nat.not_lt.mpr enough), if_neg (Nat.not_lt.mpr whole)]
  · rintro ⟨packet, ⟨live, address⟩, first⟩
    rw [packet?] at packet
    split at packet
    case isTrue => cases packet
    case isFalse enough =>
      dsimp only at packet
      split at packet
      case isTrue => cases packet
      case isFalse whole =>
        cases packet
        exact ⟨Nat.not_lt.mp enough, rfl, Nat.not_lt.mp whole, rfl, live, address, first⟩

/-- What is done on the bus to look at a packet. -/
def peekEvents (s : Station σ) (idx : UInt16) : List Event :=
  let b := s.rxBuffer idx
  if b.capacity < Header.size then [] else [.flush b.addr.toNat b.capacity]

/-- The station after events on the bus. -/
def perform (s : Station σ) (es : List Event) : Station σ :=
  { s with run.machine.bus := s.run.machine.bus.after es }

@[simp]
theorem mux_perform (s : Station σ) (es : List Event) : (s.perform es).mux = s.mux := rfl

@[simp]
theorem app_perform (s : Station σ) (es : List Event) : (s.perform es).app = s.app := rfl

@[simp]
theorem recipient?_perform (s : Station σ) (es : List Event) (dst : UInt32) :
    (s.perform es).recipient? dst = s.recipient? dst := rfl

/-- The station after its next incoming buffer was taken. -/
def advanced (s : Station σ) : Station σ :=
  { s with mux.rx := s.mux.rx.advance }

/-- The station after an incoming buffer was handed back. -/
def handBack (s : Station σ) (idx : UInt16) : Station σ :=
  s.perform (s.mux.rx.handBackEvents s.memory idx (UInt32.ofNat maxLen))

/-- The station after a channel came up and its handler changed the state of the application. -/
def told (s : Station σ) (slot : Fin maxChannels) (remote : UInt32) (app : σ) : Station σ :=
  let c := { s.mux.channels.get slot with remoteAddr := remote, state := .up }
  { s with mux.channels := s.mux.channels.set slot c slot.isLt, app }

@[simp]
theorem cores_peek (s : Station σ) (idx : UInt16) :
    (s.perform (s.peekEvents idx)).cores = s.cores := by
  have memory : s.run.machine.bus.memory.after (s.peekEvents idx) = s.run.machine.bus.memory := by
    unfold peekEvents
    dsimp only
    split <;> rfl
  simp only [cores, perform, Machine.cores, Bus.memory_after, memory]

@[simp]
theorem cores_told (s : Station σ) (slot : Fin maxChannels) (remote : UInt32) (app : σ) :
    (s.told slot remote app).cores = s.cores := rfl

theorem cores_handBack (s : Station σ) (idx : UInt16) : (s.handBack idx).cores = { s.cores with
    memory := s.cores.memory.after
      (s.cores.rx.handBackEvents s.cores.memory idx (UInt32.ofNat maxLen)) } := by
  simp only [cores, handBack, perform, Machine.cores, Bus.memory_after]
  rfl

/-- To the link nothing happens between taking a packet and what its handler sends back. -/
theorem cores_peek_told (s : Station σ) (idx : UInt16) (slot : Fin maxChannels) (remote : UInt32)
    (app : σ) : ((s.perform (s.peekEvents idx)).told slot remote app).cores = s.cores := by
  rw [cores_told, cores_peek]

theorem step_handBack (s : Station σ) (idx : UInt16) :
    Cores.Step s.cores (.returned idx) (s.handBack idx).cores := by
  rw [cores_handBack]
  exact .returned idx

theorem placed_advanced {s : Station σ} (placed : s.cores.Placed) : s.advanced.cores.Placed :=
  ⟨placed.txOne, placed.rxOne, placed.txWithin, placed.rxWithin⟩

end Station

/-- A packet was given to a handler. -/
structure Delivery where
  slot : Fin maxChannels
  ends : Endpoint
  data : List UInt8
  /-- What the handler sent back. -/
  replies : List (List UInt8)
  deriving DecidableEq, Repr

/-- What becomes of a packet: it is dropped, or its channel comes up and the handler of that channel
is called once and sends back what it wants. -/
inductive Handled (s : Station σ) (idx : UInt16) : Option Delivery → Station σ → Prop where
  | dropped (refused : ∀ slot header data, ¬ s.Accepts idx slot header data) :
      Handled s idx none (s.perform (s.peekEvents idx))
  | delivered {slot : Fin maxChannels} {header : Header} {data : List UInt8} {replies : Replies}
      {app : σ} {s' : Station σ} (accepted : s.Accepts idx slot header data)
      (handled : (s.mux.channels.get slot).handler ⟨header.dst, header.src⟩ data s.app =
        (replies, app))
      (answered : Firmware.sendBack ⟨header.dst, header.src⟩ replies
        ((s.perform (s.peekEvents idx)).told slot header.src app) = .ok ((), s')) :
      Handled s idx (some ⟨slot, ⟨header.dst, header.src⟩, data, replies.toList⟩) s'

/-- What becomes of the packets of the incoming ring: each is taken in turn, handled, and its buffer
is handed back, until there is none. -/
inductive Drains : Station σ → List (UInt16 × Option Delivery) → Station σ → Prop where
  | empty {s : Station σ} (next : s.mux.rx.next? s.memory = none) : Drains s [] s
  | packet {s s₁ s' : Station σ} {idx : UInt16} {delivery : Option Delivery}
      {log : List (UInt16 × Option Delivery)} (next : s.mux.rx.next? s.memory = some idx)
      (handled : Handled s.advanced idx delivery s₁) (later : Drains (s₁.handBack idx) log s') :
      Drains s ((idx, delivery) :: log) s'

namespace Station

/-- The station after a look at the kicks of the outgoing direction. -/
def afterTxKick (s : Station σ) : Station σ :=
  { s with run.machine := s.run.machine.afterTxKick s.mux.tx }

/-- The station after it took a kick of the incoming direction too, and `k` is left of them. -/
def woken (s : Station σ) (k : KickCounter) : Station σ :=
  perform { s.afterTxKick with run.machine.kicks.rx := k }
    [.flush s.mux.rx.layout.base.toNat s.mux.rx.layout.len]

@[simp]
theorem cores_afterTxKick (s : Station σ) : s.afterTxKick.cores = s.cores :=
  Link.cores_afterTxKick _ _ _ _

@[simp]
theorem cores_woken (s : Station σ) (k : KickCounter) :
    (s.woken k).cores = { s.cores with rxKicks := k } := by
  rw [← cores_afterTxKick s]
  rfl

theorem placed_woken {s : Station σ} (placed : s.cores.Placed) (k : KickCounter) :
    (s.woken k).cores.Placed := by
  rw [cores_woken]
  exact ⟨placed.txOne, placed.rxOne, placed.txWithin, placed.rxWithin⟩

end Station

/-- What a poll did: nothing with the incoming ring, where no kick was there to take, and otherwise
what `Drains` says. -/
inductive Polled (s : Station σ) : List (UInt16 × Option Delivery) → Bool → Station σ → Prop where
  | idle (none : s.run.machine.kicks.rx.take? = none) :
      Polled s [] s.run.machine.kicks.takeTx.1 s.afterTxKick
  | woken {k : KickCounter} {log : List (UInt16 × Option Delivery)} {s' : Station σ}
      (kick : s.run.machine.kicks.rx.take? = some k) (drains : Drains (s.woken k) log s') :
      Polled s log true s'

/-- The packets that a handler's replies amount to. -/
def Delivery.messages (d : Delivery) : List Message :=
  Firmware.messagesFrom d.ends d.replies

/-- The packets that were sent while those of the incoming ring were handled. -/
def messagesIn (log : List (UInt16 × Option Delivery)) : List Message :=
  log.flatMap fun entry => entry.2.toList.flatMap Delivery.messages

theorem Handled.path {s s' : Station σ} {idx : UInt16} {delivery : Option Delivery}
    (placed : s.cores.Placed) (h : Handled s idx delivery s') :
    ∃ acts, Cores.Path s.cores acts s'.cores ∧
      sentIn acts = delivery.toList.flatMap Delivery.messages ∧ served acts = [] := by
  cases h with
  | dropped refused =>
    rw [Station.cores_peek]
    exact ⟨[], .start, rfl, rfl⟩
  | @delivered slot header data replies app _ accepted handled answered =>
    have start := s.cores_peek_told idx slot header.src app
    rw [← start] at placed
    have sends := Firmware.sendBack_eq_ok placed answered
    obtain ⟨acts, path, messages, quiet⟩ := sends.path
    rw [start] at path
    exact ⟨acts, path, by simp [messages, Delivery.messages], quiet⟩

/-- Handling one packet and handing its buffer back. -/
theorem Handled.path_handBack {s s' : Station σ} {idx : UInt16} {delivery : Option Delivery}
    (placed : s.cores.Placed) (h : Handled s idx delivery s') :
    ∃ acts, Cores.Path s.cores acts (s'.handBack idx).cores ∧
      sentIn acts = delivery.toList.flatMap Delivery.messages ∧
        served acts = [(.publish idx (UInt32.ofNat maxLen) true, .done)] := by
  obtain ⟨acts, path, messages, quiet⟩ := h.path placed
  refine ⟨acts ++ [.returned idx], path.step (s'.step_handBack idx), ?_, ?_⟩
  · rw [sentIn_append, messages]
    exact List.append_nil _
  · rw [served_append, quiet]
    rfl

theorem Handled.placed_handBack {s s' : Station σ} {idx : UInt16} {delivery : Option Delivery}
    (placed : s.cores.Placed) (h : Handled s idx delivery s') : (s'.handBack idx).cores.Placed := by
  obtain ⟨acts, path, -⟩ := h.path_handBack placed
  exact path.placed placed

/-- What is done with the packets of a log: each is taken, and its buffer is handed back before the
next one is taken. -/
def servings (log : List (UInt16 × Option Delivery)) : List Ring.Record :=
  log.flatMap fun entry => [(.take, .index (some entry.1)),
    (.publish entry.1 (UInt32.ofNat maxLen) true, .done)]

theorem Drains.path {s s' : Station σ} {log : List (UInt16 × Option Delivery)}
    (placed : s.cores.Placed) (h : Drains s log s') :
    ∃ acts, Cores.Path s.cores acts s'.cores ∧ sentIn acts = messagesIn log ∧
      served acts = servings log := by
  induction h with
  | empty => exact ⟨[], .start, rfl, rfl⟩
  | @packet s s₁ s' idx delivery log next handled later ih =>
    have step : Cores.Step s.cores (.took idx) s.advanced.cores := .took next
    have path := Cores.Path.single step
    obtain ⟨acts₁, path₁, messages₁, served₁⟩ := handled.path_handBack (path.placed placed)
    obtain ⟨acts₂, path₂, messages₂, served₂⟩ := ih ((path.append path₁).placed placed)
    refine ⟨_, (path.append path₁).append path₂, ?_, ?_⟩
    · rw [sentIn_append, sentIn_append, messages₁, messages₂]
      rfl
    · rw [served_append, served_append, served₁, served₂]
      rfl

/-- To the link a kick is taken together with the first look for a packet: the peer has no turn
between the two. -/
theorem Drains.path_woken {s s' : Station σ} {log : List (UInt16 × Option Delivery)} {c : Cores}
    {k : KickCounter} (kick : c.rxKicks.take? = some k) (cores : s.cores = { c with rxKicks := k })
    (placed : c.Placed) (h : Drains s log s') :
    ∃ more, Cores.Path c (.woke (c.rx.next? c.memory) :: more) s'.cores ∧
      sentIn more = messagesIn log ∧
        served (.woke (c.rx.next? c.memory) :: more) = servings log := by
  have rx : s.mux.rx = c.rx := congrArg Cores.rx cores
  have memory : s.memory = c.memory := congrArg Cores.memory cores
  cases h with
  | empty next =>
    rw [rx, memory] at next
    rw [cores, next]
    exact ⟨[], .single (.wokeInVain kick next), rfl, rfl⟩
  | @packet _ s₁ _ idx delivery log next handled later =>
    rw [rx, memory] at next
    have path : Cores.Path c [.woke (some idx)] s.advanced.cores := by
      have advanced : s.advanced.cores = { s.cores with rx := s.cores.rx.advance } := rfl
      rw [advanced, cores]
      exact .single (.woke kick next)
    obtain ⟨acts₁, path₁, messages₁, served₁⟩ := handled.path_handBack (path.placed placed)
    obtain ⟨acts₂, path₂, messages₂, served₂⟩ := later.path ((path.append path₁).placed placed)
    rw [next]
    refine ⟨acts₁ ++ acts₂, ?_, ?_, ?_⟩
    · have all := (path.append path₁).append path₂
      rwa [List.append_assoc] at all
    · rw [sentIn_append, messages₁, messages₂]
      rfl
    · have all : served (.woke (some idx) :: (acts₁ ++ acts₂)) =
          served [.woke (some idx)] ++ (served acts₁ ++ served acts₂) := by
        rw [← served_append, ← served_append]
        rfl
      rw [all, served₁, served₂]
      rfl

/-- In the end no packet is left. -/
theorem Drains.next?_eq_none {s s' : Station σ} {log : List (UInt16 × Option Delivery)}
    (h : Drains s log s') : s'.mux.rx.next? s'.memory = none := by
  induction h with
  | empty next => exact next
  | packet _ _ _ ih => exact ih

theorem Polled.path {s s' : Station σ} {log : List (UInt16 × Option Delivery)} {b : Bool}
    (placed : s.cores.Placed) (h : Polled s log b s') :
    ∃ acts, Cores.Path s.cores acts s'.cores ∧ sentIn acts = messagesIn log := by
  cases h with
  | idle none =>
    rw [Station.cores_afterTxKick]
    exact ⟨[], .start, rfl⟩
  | woken kick drains =>
    obtain ⟨more, path, messages, -⟩ := drains.path_woken kick (s.cores_woken _) placed
    exact ⟨_, path, messages⟩

/-! ## A poll that returns -/

namespace Firmware

variable {s s' : Station σ} {idx : UInt16}

theorem onBus_eq_ok {work : OnBus α} {a : α} (run : onBus work s = .ok (a, s')) :
    ∃ bus, work s.run.machine.bus = .ok (a, bus) ∧ s' = { s with run.machine.bus := bus } := by
  obtain ⟨⟨machine, schedule, waits⟩, mux, app⟩ := s
  rw [onBus, onMachine] at run
  split at run
  case h_1 => cases run
  case h_2 b m worked =>
    cases run
    obtain ⟨bus, did, rfl⟩ := Machine.onBus_eq_ok worked
    exact ⟨bus, did, rfl⟩

theorem onBus_eq {work : OnBus α} {a : α} {es : List Event}
    (h : work s.run.machine.bus = .ok (a, s.run.machine.bus.after es)) :
    onBus work s = .ok (a, s.perform es) := by
  obtain ⟨⟨⟨bus, kicks, peer⟩, schedule, waits⟩, mux, app⟩ := s
  dsimp only at h
  simp only [onBus, onMachine, Machine.onBus, h]
  rfl

theorem onBus_read {work : OnBus α} {a : α}
    (h : work s.run.machine.bus = .ok (a, s.run.machine.bus)) : onBus work s = .ok (a, s) := by
  obtain ⟨⟨⟨bus, kicks, peer⟩, schedule, waits⟩, mux, app⟩ := s
  dsimp only at h
  simp only [onBus, onMachine, Machine.onBus, h]

theorem get_eq (s : Station σ) : (get : Firmware σ (Station σ)) s = .ok (s, s) := rfl

theorem readPacket_eq_ok {packet : Option (Header × List UInt8)}
    (run : readPacket idx s = .ok (packet, s')) :
    packet = s.packet? idx ∧ s' = s.perform (s.peekEvents idx) := by
  rw [readPacket, bind_of_ok (get_eq s)] at run
  obtain ⟨d, s₁, read, rest⟩ := bind_eq_ok.mp run
  obtain ⟨bus, did, rfl⟩ := onBus_eq_ok read
  obtain ⟨rfl, buffer⟩ := Ring.Layout.readDescriptor_eq_ok did
  have here : s.rxBuffer idx = ⟨d.addr, d.len⟩ := buffer
  unfold Station.packet? Station.peekEvents
  simp only [here, Ring.Buffer.capacity]
  split at rest
  case isTrue short =>
    cases rest
    rw [if_pos short, if_pos short]
    exact ⟨rfl, rfl⟩
  case isFalse enough =>
    rw [if_neg enough, if_neg enough]
    obtain ⟨u, s₂, flushed, rest⟩ := bind_eq_ok.mp rest
    obtain ⟨bus, did, rfl⟩ := onBus_eq_ok flushed
    cases did
    obtain ⟨bytes, s₃, read, rest⟩ := bind_eq_ok.mp rest
    obtain ⟨bus, did, rfl⟩ := onBus_eq_ok read
    obtain ⟨-, rfl, rfl⟩ := OnBus.readBytes_eq_ok did
    dsimp only at rest
    split at rest
    case isTrue cut =>
      cases rest
      exact ⟨(if_pos cut).symm, rfl⟩
    case isFalse whole =>
      obtain ⟨bytes, s₄, read, rest⟩ := bind_eq_ok.mp rest
      obtain ⟨bus, did, rfl⟩ := onBus_eq_ok read
      obtain ⟨-, rfl, rfl⟩ := OnBus.readBytes_eq_ok did
      cases rest
      exact ⟨(if_neg whole).symm, rfl⟩

theorem dispatch_eq_ok {header : Header} {data : List UInt8}
    (run : dispatch header data s = .ok ((), s')) :
    s.recipient? header.dst = none ∧ s' = s ∨
      ∃ slot replies app, s.recipient? header.dst = some slot ∧
        (s.mux.channels.get slot).handler ⟨header.dst, header.src⟩ data s.app = (replies, app) ∧
        sendBack ⟨header.dst, header.src⟩ replies (s.told slot header.src app) = .ok ((), s') := by
  rw [dispatch, bind_of_ok (get_eq s)] at run
  cases found : s.recipient? header.dst with
  | none =>
    rw [Station.recipient?] at found
    rw [found] at run
    cases run
    exact .inl ⟨rfl, rfl⟩
  | some slot =>
    rw [Station.recipient?] at found
    rw [found] at run
    obtain ⟨u, s₁, put, run⟩ := bind_eq_ok.mp run
    cases put
    obtain ⟨replies, s₂, called, run⟩ := bind_eq_ok.mp run
    cases called
    exact .inr ⟨slot, _, _, rfl, rfl, run⟩

theorem receive_eq_ok (run : receive idx s = .ok ((), s')) :
    ∃ delivery, Handled s idx delivery s' := by
  obtain ⟨packet, s₁, read, rest⟩ := bind_eq_ok.mp run
  obtain ⟨same, rfl⟩ := readPacket_eq_ok read
  cases packet with
  | none =>
    obtain ⟨-, rfl⟩ := pure_eq_ok.mp rest
    refine ⟨none, .dropped ?_⟩
    intro slot header data accepted
    rw [Station.accepts_iff, ← same] at accepted
    cases accepted.1
  | some packet =>
    obtain ⟨header, data⟩ := packet
    have dispatched : dispatch header data (s.perform (s.peekEvents idx)) = .ok ((), s') := rest
    rcases dispatch_eq_ok dispatched with ⟨nobody, rfl⟩ | ⟨slot, replies, app, found, handled, answered⟩
    · refine ⟨none, .dropped ?_⟩
      intro slot header' data' accepted
      rw [Station.accepts_iff, ← same] at accepted
      obtain ⟨one, wanted⟩ := accepted
      cases one
      rw [Station.recipient?_perform, wanted] at nobody
      cases nobody
    · rw [Station.recipient?_perform] at found
      rw [Station.mux_perform, Station.app_perform] at handled
      have accepted : s.Accepts idx slot header data := Station.accepts_iff.mpr ⟨same.symm, found⟩
      exact ⟨_, .delivered accepted handled answered⟩

/-! ### A drain, packet by packet -/

theorem drain_of_none (fuel : Nat) (placed : s.cores.Placed)
    (next : s.mux.rx.next? s.memory = none) : drain (fuel + 1) s = .ok ((), s) := by
  have took : s.mux.rx.take? s.run.machine.bus = .ok ((none, s.mux.rx), s.run.machine.bus) :=
    Device.take?_of_next?_none placed.rxWithin next
  rw [drain, bind_of_ok (get_eq s), bind_of_ok (onBus_read took)]
  rfl

theorem drain_of_next? (fuel : Nat) (placed : s.cores.Placed)
    (next : s.mux.rx.next? s.memory = some idx) :
    drain (fuel + 1) s = (receive idx >>= fun _ => do
      onBus ((← get).mux.rx.publish idx (UInt32.ofNat maxLen) true)
      drain fuel) s.advanced := by
  have took : s.mux.rx.take? s.run.machine.bus =
      .ok ((some idx, s.mux.rx.advance), s.run.machine.bus) :=
    Device.take?_of_next? placed.rxWithin next
  have put : onMux (fun mux => { mux with rx := s.mux.rx.advance }) s = .ok ((), s.advanced) := rfl
  rw [drain, bind_of_ok (get_eq s), bind_of_ok (onBus_read took)]
  dsimp only
  rw [bind_of_ok put]

theorem drain_of_received (fuel : Nat) {s₁ : Station σ} (placed : s.cores.Placed)
    (next : s.mux.rx.next? s.memory = some idx) (received : receive idx s.advanced = .ok ((), s₁)) :
    drain (fuel + 1) s = drain fuel (s₁.handBack idx) := by
  obtain ⟨delivery, handled⟩ := receive_eq_ok received
  have placed₁ := Station.placed_advanced placed
  obtain ⟨acts, path, -⟩ := handled.path placed₁
  have within : s₁.mux.rx.layout.Within s₁.run.machine.bus.memory := (path.placed placed₁).rxWithin
  rw [drain_of_next? fuel placed next, bind_of_ok received, bind_of_ok (get_eq s₁),
    bind_of_ok (onBus_eq (Device.publish_handBack within idx _))]
  rfl

theorem drain_eq_ok {fuel : Nat} (placed : s.cores.Placed) (run : drain fuel s = .ok ((), s')) :
    ∃ log, Drains s log s' := by
  induction fuel generalizing s with
  | zero => cases run
  | succ fuel ih =>
    cases next : s.mux.rx.next? s.memory with
    | none =>
      rw [drain_of_none fuel placed next] at run
      cases run
      exact ⟨[], .empty next⟩
    | some idx =>
      cases received : receive idx s.advanced with
      | error fault =>
        rw [drain_of_next? fuel placed next, bind_of_error received] at run
        cases run
      | ok r =>
        obtain ⟨⟨⟩, s₁⟩ := r
        rw [drain_of_received fuel placed next received] at run
        obtain ⟨delivery, handled⟩ := receive_eq_ok received
        have placed₁ := handled.placed_handBack (Station.placed_advanced placed)
        obtain ⟨log, later⟩ := ih placed₁ run
        exact ⟨_, .packet next handled later⟩

theorem onMachine_eq {work : OnMachine α} {a : α} {m : Machine}
    (h : work s.run.machine = .ok (a, m)) :
    onMachine work s = .ok (a, { s with run.machine := m }) := by
  obtain ⟨⟨machine, schedule, waits⟩, mux, app⟩ := s
  dsimp only at h
  simp only [onMachine, h]

/-- What a poll does before it handles packets. -/
theorem poll_eq (s : Station σ) :
    poll s = match s.run.machine.kicks.rx.take? with
      | none => .ok (s.run.machine.kicks.takeTx.1, s.afterTxKick)
      | some k => (drain (patience s.run.schedule) >>= fun _ => pure true) (s.woken k) := by
  have rest : s.afterTxKick.run.machine.kicks.rx = s.run.machine.kicks.rx :=
    congrArg Cores.rxKicks s.cores_afterTxKick
  have tx : onMachine (serviceTxKick s.mux.tx) s =
      .ok (s.run.machine.kicks.takeTx.1, s.afterTxKick) :=
    onMachine_eq (serviceTxKick_eq _ _)
  have kicks (kicks : Kicks) : onMachine (Machine.onKicks fun _ => kicks) s.afterTxKick =
      .ok ((), { s.afterTxKick with run.machine.kicks := kicks }) := rfl
  rw [poll, bind_of_ok (get_eq s), bind_of_ok tx, bind_of_ok (get_eq s.afterTxKick)]
  dsimp only
  cases kick : s.run.machine.kicks.rx.take? with
  | none =>
    rw [Kicks.takeRx, rest, kick, bind_of_ok (kicks _)]
    rfl
  | some k =>
    let s₁ : Station σ := { s.afterTxKick with run.machine.kicks.rx := k }
    have flushed : onBus s₁.mux.rx.flush s₁ = .ok ((), s.woken k) :=
      onBus_eq (Bus.flush_eq _ _ _)
    rw [Kicks.takeRx, rest, kick, bind_of_ok (kicks _)]
    show (do onBus (← get).mux.rx.flush; drain (patience (← get).run.schedule); return true) s₁ = _
    rw [bind_of_ok (get_eq s₁), bind_of_ok flushed, bind_of_ok (get_eq (s.woken k))]
    rfl

/-- A poll that returns did what `Polled` says. -/
theorem poll_eq_ok {b : Bool} (placed : s.cores.Placed) (run : poll s = .ok (b, s')) :
    ∃ log, Polled s log b s' := by
  rw [poll_eq] at run
  cases kick : s.run.machine.kicks.rx.take? with
  | none =>
    rw [kick] at run
    cases run
    exact ⟨[], .idle kick⟩
  | some k =>
    rw [kick] at run
    obtain ⟨u, s₁, drained, last⟩ := bind_eq_ok.mp run
    cases last
    obtain ⟨log, drains⟩ := drain_eq_ok (Station.placed_woken placed k) drained
    exact ⟨log, .woken kick drains⟩

end Firmware

end InterCore.Link
