import InterCore.Bench.App
import InterCore.Bench.Script
import InterCore.Link.Station

/-!
# Bench for a link

The firmware and its peer over one window of memory: the ring for outgoing packets, the ring for
incoming ones, the buffers of either, and a resource table that names the rings.
-/

namespace InterCore.Bench.Link

open InterCore.Link
open InterCore.Ring (Driver)

/-- What a script says of the rings and their memory. -/
structure Setup where
  num : UInt16
  bufSize : UInt32
  base : UInt32
  fill : UInt8
  /-- Number of buffers that the peer offers for outgoing packets. -/
  offered : Nat
  /-- The rings are found through the resource table. -/
  viaTable : Bool

namespace Setup

/-- Bytes from one ring to the next. -/
def span (s : Setup) : Nat :=
  Ring.roundUp (Ring.byteSize s.num) Ring.usedAlign

/-- Address of the ring for outgoing packets. -/
def txAddr (s : Setup) : Nat :=
  s.base.toNat

/-- Address of the ring for incoming packets. -/
def rxAddr (s : Setup) : Nat :=
  s.txAddr + s.span

/-- Address of the buffers for outgoing packets. -/
def txBuffers (s : Setup) : Nat :=
  s.rxAddr + s.span

/-- Address of the buffers for incoming packets. -/
def rxBuffers (s : Setup) : Nat :=
  s.txBuffers + s.num.toNat * s.bufSize.toNat

/-- Address of the resource table. -/
def resourceTable (s : Setup) : Nat :=
  s.rxBuffers + s.num.toNat * s.bufSize.toNat

/-- Number of bytes of a resource table entry. -/
def entrySize : Nat := 20

/-- A window that holds the rings and the buffers, and ends 64 bytes behind the start of the resource
table. -/
def memory (s : Setup) : Memory :=
  .filled s.base (s.resourceTable + 64 - s.base.toNat) s.fill

/-- Writes the resource table entry of one ring. -/
def writeEntry (s : Setup) (entry ring : Nat) : OnBus Unit := do
  Bus.write32 (entry + ResourceEntry.addressOffset) (UInt32.ofNat ring)
  Bus.write32 (entry + ResourceEntry.alignOffset) (UInt32.ofNat Ring.usedAlign)
  Bus.write32 (entry + ResourceEntry.numOffset) s.num.toUInt32
  Bus.write32 (entry + ResourceEntry.notifyIdOffset) 0
  Bus.write32 (entry + ResourceEntry.reservedOffset) 0

/-- Where the firmware looks for the rings. -/
def placement (s : Setup) : Placement :=
  if s.viaTable then
    .resourceTable (UInt32.ofNat s.resourceTable) (UInt32.ofNat (s.resourceTable + entrySize))
  else
    .direct ⟨UInt32.ofNat s.txAddr, UInt32.ofNat s.rxAddr, s.num⟩

/-- Offers `count` buffers from index `idx` on. -/
def offerFrom (driver : Driver) : (count idx : Nat) → OnBus Driver
  | 0, _ => return driver
  | count + 1, idx => do offerFrom (← driver.offer (UInt16.ofNat idx)) count (idx + 1)

/-- Sets up both rings and the resource table, and gives the peer. -/
def peer (s : Setup) : OnBus Peer := do
  let tx ← Driver.create (UInt32.ofNat s.txAddr) s.num (UInt32.ofNat s.txBuffers) s.bufSize
  let tx ← offerFrom tx s.offered 0
  let rx ← Driver.create (UInt32.ofNat s.rxAddr) s.num (UInt32.ofNat s.rxBuffers) s.bufSize
  s.writeEntry s.resourceTable s.txAddr
  s.writeEntry (s.resourceTable + entrySize) s.rxAddr
  return { tx, rx, free := (List.range s.num.toNat).map UInt16.ofNat }

/-- The firmware and its peer at the beginning of a script. -/
def station (s : Setup) (app : App) : Except Fault (Answer (Station App)) := do
  let work : OnBus (Peer × Answer (Multiplexer App)) := do
    return (← s.peer, ← Multiplexer.attach s.placement)
  let ((peer, mux), bus) ← work { memory := s.memory }
  match mux with
  | .error e => return .error e
  | .ok mux => return .ok { run := { machine := { bus, kicks := {}, peer } }, mux, app }

end Setup

/-- One thing that the peer or the firmware does. -/
inductive Step where
  | peer (step : PeerStep)
  | create (name : String) (behaviour : Behaviour)
  | send (slot : Fin maxChannels) (data : List UInt8)
  | poll
  | channel (slot : Fin maxChannels)
  | channels

/-- A step, with what the peer does in each wait of the firmware. -/
structure Turn where
  step : Step
  idle : List (List PeerStep)

/-- What a step answers. -/
inductive Value where
  | outcome (o : PeerOutcome)
  | created (slot : Answer (Fin maxChannels))
  | done
  | polled (work : Bool)
  | channel (c : Channel App)
  | channels (cs : List (Channel App))

/-- What a step answers, and what happened in it. -/
structure Report where
  value : Value
  notifications : Nat
  kicks : InterCore.Kicks
  heard : List Heard
  waits : List (List PeerOutcome)
  calls : List Variable.Call
  trace : List Event

/-- Creates a channel that behaves as told. -/
def createChannel (name : String) (behaviour : Behaviour) :
    Firmware App (Answer (Fin maxChannels)) := do
  let handler ← modifyGet fun s =>
    let (handler, app) := behaviour.install s.app
    (handler, { s with app })
  Firmware.createChannel name handler

/-- Does one step. -/
def Step.run : Step → Firmware App Value
  | .peer step => do return .outcome (← Firmware.onMachine step.run)
  | .create name behaviour => do return .created (← createChannel name behaviour)
  | .send slot data => do Firmware.sendAt slot data; return .done
  | .poll => do return .polled (← Firmware.poll)
  | .channel slot => do return .channel ((← get).mux.channels.get slot)
  | .channels => do return .channels (← get).mux.channels.toList

/-- Gives the peer its turns for the waits to come, and forgets what was noted. -/
def prepare (idle : List (List PeerStep)) : Firmware App Unit :=
  modify fun ⟨⟨⟨bus, kicks, peer⟩, _, _⟩, mux, app⟩ =>
    ⟨⟨⟨bus.clearJournal, kicks, peer⟩, idle, []⟩, mux, app.forget⟩

/-- Does one step and reports it. -/
def report (turn : Turn) : Firmware App Report := do
  prepare turn.idle
  let value ← turn.step.run
  let s ← get
  let bus := s.run.machine.bus
  return {
    value
    notifications := bus.notifications
    kicks := s.run.machine.kicks
    heard := s.app.heard.reverse
    waits := s.run.waits.reverse
    calls := s.app.calls.reverse
    trace := bus.trace }

/-- Runs a script on a fresh link. -/
def run (setup : Setup) (turns : List Turn) :
    Except Fault (Answer (List (Except Fault Report))) := do
  match ← setup.station {} with
  | .error e => return .error e
  | .ok station => return .ok (runScript report turns station).1

/-- Writes several strings of bytes, each at its address. -/
def writeAll : List (Nat × List UInt8) → OnBus Unit
  | [] => return
  | (addr, bytes) :: rest => do
    Bus.writeBytes addr bytes
    writeAll rest

/-- The channels of a firmware that attaches to rings in a window of memory. -/
def attach (memory : Memory) (writes : List (Nat × List UInt8)) (placement : Placement) :
    Except Fault (Answer (List (Channel App))) := do
  let work : OnBus (Answer (Multiplexer App)) := do
    writeAll writes
    Multiplexer.attach placement
  let (mux, _) ← work { memory }
  return mux.map (·.channels.toList)

end InterCore.Bench.Link
