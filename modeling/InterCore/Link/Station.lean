import InterCore.Link.Channel
import InterCore.Link.Outgoing
import InterCore.Link.Placement

/-!
# The firmware's end of a link

The firmware sends and receives packets over two rings and spreads them over its channels. All of it
happens in `send`, `createChannel` and `poll`.
-/

namespace InterCore.Link

open InterCore.Packet (Header maxLen maxPayload)

/-- The firmware's ends of the two rings, with the channels that share them. -/
structure Multiplexer (σ : Type) where
  tx : Ring.Device
  rx : Ring.Device
  channels : Vector (Channel σ) maxChannels := Vector.replicate maxChannels {}
  nextAddr : UInt32 := firstLocalAddr

/-- Takes up the rings where they were placed, with no channel created yet. -/
def Multiplexer.attach (placement : Placement) : OnBus (Answer (Multiplexer σ)) := do
  match ← placement.resolve with
  | .error e => return .error e
  | .ok rings =>
    let tx ← Ring.Device.attach rings.tx rings.num
    let rx ← Ring.Device.attach rings.rx rings.num
    return .ok { tx, rx }

/-- The firmware with all that it works with: the machine and the peer's turns, its rings and
channels, and the state of the application. -/
structure Station (σ : Type) where
  run : Run
  mux : Multiplexer σ
  app : σ

/-- Work of the firmware. -/
abbrev Firmware (σ : Type) := StateT (Station σ) (Except Fault)

namespace Firmware

/-- Work on the machine, which leaves the peer's turns to come as they are. -/
def onMachine (work : OnMachine α) : Firmware σ α := fun ⟨⟨machine, schedule, waits⟩, mux, app⟩ =>
  match work machine with
  | .error fault => .error fault
  | .ok (a, machine) => .ok (a, ⟨⟨machine, schedule, waits⟩, mux, app⟩)

/-- Work on the bus that the firmware does. -/
def onBus (work : OnBus α) : Firmware σ α :=
  onMachine (Machine.onBus work)

/-- Changes the rings and channels and nothing else. -/
def onMux (f : Multiplexer σ → Multiplexer σ) : Firmware σ Unit :=
  modify fun ⟨run, mux, app⟩ => ⟨run, f mux, app⟩

/-- Sends a packet, waiting for a buffer if there is none. A payload that is longer than any packet
is cut. -/
def sendBlocking (src dst : UInt32) (data : List UInt8) : Firmware σ Unit :=
  fun ⟨⟨machine, schedule, waits⟩, mux, app⟩ =>
    match sendWaiting src dst (data.take maxPayload) schedule waits mux.tx machine with
    | .error fault => .error fault
    | .ok (tx, run) => .ok ((), ⟨run, { mux with tx }, app⟩)

/-- Creates a channel and announces it. Gives its slot. -/
def createChannel (name : String) (handler : Handler σ) :
    Firmware σ (Answer (Fin maxChannels)) := do
  let mux := (← get).mux
  match mux.channels.findFinIdx? (·.state = .unused) with
  | none => return .error .resourceExhausted
  | some slot =>
    let localAddr := mux.nextAddr
    onMux fun mux => { mux with
      nextAddr := localAddr + 1
      channels := mux.channels.set slot
        { localAddr, state := .announced, name := .ofText name, handler } }
    sendBlocking localAddr Packet.nameServiceAddr (Packet.Announcement.create name localAddr).encode
    return .ok slot

/-- Sends a message on a channel. A channel that was not created sends nothing. -/
def send (slot : Fin maxChannels) (data : List UInt8) : Firmware σ Unit := do
  let c := (← get).mux.channels.get slot
  if c.isLive then
    sendBlocking c.localAddr c.remoteAddr data

/-- Sends a message on the channel of a handle. A handle outside the table sends nothing. -/
def sendAt (handle : Nat) (data : List UInt8) : Firmware σ Unit :=
  if inTable : handle < maxChannels then send ⟨handle, inTable⟩ data else return

/-- Sends messages back to where a message came from. -/
def sendBack (ep : Endpoint) : Replies → Firmware σ Unit
  | .done => return
  | .next data rest => do
    sendBlocking ep.localAddr ep.remoteAddr data
    sendBack ep (rest ())

/-- Reads the packet in a buffer of the incoming ring. There is none where the buffer has no room
for a header, or where the header says more than the buffer holds. -/
def readPacket (idx : UInt16) : Firmware σ (Option (Header × List UInt8)) := do
  let d ← onBus ((← get).mux.rx.descriptor idx)
  let capacity := min d.len.toNat maxLen
  if capacity < Header.size then
    return none
  let addr := d.addr.toNat
  onBus (Bus.flush addr capacity)
  let header := Header.decode (← onBus (Bus.readBytes addr Header.size))
  let len := header.len.toNat
  if capacity < Header.size + len then
    return none
  return some (header, ← onBus (Bus.readBytes (addr + Header.size) len))

/-- Gives a packet to the channel it is meant for, if there is one. -/
def dispatch (header : Header) (data : List UInt8) : Firmware σ Unit := do
  let mux := (← get).mux
  match mux.channels.findFinIdx? (fun c => c.isLive && c.localAddr == header.dst) with
  | none => return
  | some slot =>
    let c := mux.channels.get slot
    onMux fun mux => { mux with
      channels := mux.channels.set slot { c with remoteAddr := header.src, state := .up } }
    let ep : Endpoint := ⟨header.dst, header.src⟩
    let replies ← modifyGet fun ⟨run, mux, app⟩ =>
      let (replies, app) := c.handler ep data app
      (replies, ⟨run, mux, app⟩)
    sendBack ep replies

/-- Handles the packet in a buffer of the incoming ring. -/
def receive (idx : UInt16) : Firmware σ Unit := do
  match ← readPacket idx with
  | none => return
  | some (header, data) => dispatch header data

/-- Handles the packets of the incoming ring until it is empty, and hands every buffer back. -/
def drain : (fuel : Nat) → Firmware σ Unit
  | 0 => throw .livelock
  | fuel + 1 => do
    let (idx?, rx) ← onBus (← get).mux.rx.take?
    onMux ({ · with rx })
    match idx? with
    | none => return
    | some idx =>
      receive idx
      onBus ((← get).mux.rx.publish idx (UInt32.ofNat maxLen) true)
      drain fuel

/-- The number of packets after which a ring that was never seen empty is held to be endless. An
index alone can show fewer than `indexSpan` of them and a turn of the peer can show as many anew,
but a packet that is sent into the ring itself can move the index on. -/
def patience (schedule : List (List PeerStep)) : Nat :=
  UInt64.size + indexSpan * schedule.length

/-- Handles pending kicks; says whether there were any. One kick of the incoming direction is enough
to handle all packets that are there. -/
def poll : Firmware σ Bool := do
  let work ← onMachine (serviceTxKick (← get).mux.tx)
  let (taken, kicks) := (← get).run.machine.kicks.takeRx
  onMachine (Machine.onKicks fun _ => kicks)
  if taken then
    onBus (← get).mux.rx.flush
    drain (patience (← get).run.schedule)
    return true
  return work

end Firmware

end InterCore.Link
