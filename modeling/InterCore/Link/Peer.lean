import InterCore.Link.Machine
import InterCore.Packet.Header

/-!
# The peer's steps

The peer offers empty buffers for outgoing packets and gets them back filled, and it sends by
filling buffers of the incoming ring. It is known by the steps that it can take, one at a time, and
every step has an outcome.
-/

namespace InterCore.Link

open InterCore.Packet (Header)
open InterCore.Ring (UsedElem)

/-- What the peer gets with a used buffer. -/
structure Received where
  id : UInt32
  usedLen : UInt32
  /-- Header and payload, if the buffer has room for a header. -/
  packet : Option (Header × List UInt8)
  deriving DecidableEq, Repr

/-- The payload, which is empty where the buffer has no room for a header. -/
def Received.payload (r : Received) : List UInt8 :=
  match r.packet with
  | none => []
  | some (_, data) => data

/-- One thing that the peer does. -/
inductive PeerStep where
  /-- Collects its buffers and sends a packet in one of them, with a header that says `len`. -/
  | send (src dst : UInt32) (data : List UInt8) (len : UInt16) (kick : Bool)
  /-- Offers a buffer of the incoming ring as it is. -/
  | offerRx (idx : UInt16)
  | offerTx (idx : UInt16)
  /-- Takes one packet, and offers its buffer again if `offer` is set. -/
  | receive (offer kick : Bool)
  | receiveAll (offer kick : Bool)
  /-- Takes one used element of the incoming ring, and forgets the buffer. -/
  | rxUsed
  | collect
  | kickTx
  | kickRx
  | write (addr : Nat) (bytes : List UInt8)
  | read (addr len : Nat)
  deriving DecidableEq, Repr

/-- What comes of a step of the peer. -/
inductive PeerOutcome where
  | nothing
  | index (idx : UInt16)
  | received (r : Received)
  | receivedAll (rs : List Received)
  | used (elem : UsedElem)
  /-- The free buffers, the next one to use last. -/
  | free (indices : List UInt16)
  | bytes (bytes : List UInt8)
  deriving DecidableEq, Repr

/-- More elements than a 16-bit index can run ahead of another. -/
def indexSpan : Nat := UInt16.size

namespace Peer

/-- Takes the next used element of the outgoing ring. -/
def takeTxUsed? : OnMachine (Option UsedElem) := do
  let (elem, tx) ← Machine.asPeer (← get).peer.tx.takeUsed?
  Machine.onPeer ({ · with tx })
  return elem

/-- Takes the next used element of the incoming ring. -/
def takeRxUsed? : OnMachine (Option UsedElem) := do
  let (elem, rx) ← Machine.asPeer (← get).peer.rx.takeUsed?
  Machine.onPeer ({ · with rx })
  return elem

/-- Offers a buffer for an outgoing packet. -/
def offerTx (idx : UInt16) : OnMachine Unit := do
  let tx ← Machine.asPeer ((← get).peer.tx.offer idx)
  Machine.onPeer ({ · with tx })

/-- Offers a buffer of the incoming ring to the firmware. -/
def offerRx (idx : UInt16) : OnMachine Unit := do
  let rx ← Machine.asPeer ((← get).peer.rx.offer idx)
  Machine.onPeer ({ · with rx })

/-- Puts the buffers of all used elements of the incoming ring on the stack of free ones. -/
def collect : (fuel : Nat) → OnMachine Unit
  | 0 => throw .livelock
  | fuel + 1 => do
    match ← takeRxUsed? with
    | none => return
    | some elem =>
      Machine.onPeer fun p => { p with free := elem.id.toUInt16 :: p.free }
      collect fuel

/-- Sends a packet in a free buffer, if there is one. Gives the buffer's index. -/
def send (src dst : UInt32) (data : List UInt8) (len : UInt16) (kick : Bool) :
    OnMachine (Option UInt16) := do
  collect indexSpan
  match (← get).peer.free with
  | [] => return none
  | idx :: free =>
    Machine.onPeer ({ · with free })
    let d ← Machine.asPeer ((← get).peer.rx.descriptor idx)
    Machine.asPeer do
      Bus.writeBytes d.addr.toNat (Header.encode { src, dst, len })
      Bus.writeBytes (d.addr.toNat + Header.size) data
    offerRx idx
    if kick then
      Machine.onKicks (·.onRx)
    return some idx

/-- Reads the packet in the buffer of a used element. -/
def contents (elem : UsedElem) : OnMachine Received := do
  let d ← Machine.asPeer ((← get).peer.tx.descriptor elem.id.toUInt16)
  if d.len.toNat < Header.size then
    return { id := elem.id, usedLen := elem.len, packet := none }
  let addr := d.addr.toNat
  let header := Header.decode (← Machine.asPeer (Bus.readBytes addr Header.size))
  let data ← Machine.asPeer (Bus.readBytes (addr + Header.size) header.len.toNat)
  return { id := elem.id, usedLen := elem.len, packet := some (header, data) }

/-- Takes one packet of the outgoing ring, if there is one, and does with it what the flags say. -/
def receive? (offer kick : Bool) : OnMachine (Option Received) := do
  match ← takeTxUsed? with
  | none => return none
  | some elem =>
    let received ← contents elem
    if offer then
      offerTx elem.id.toUInt16
    if kick then
      Machine.onKicks (·.onTx)
    return some received

/-- Takes packets of the outgoing ring until it is empty. -/
def receiveAll (offer kick : Bool) : (fuel : Nat) → OnMachine (List Received)
  | 0 => throw .livelock
  | fuel + 1 => do
    match ← receive? offer kick with
    | none => return []
    | some received => return received :: (← receiveAll offer kick fuel)

end Peer

/-- Takes one step. -/
def PeerStep.run : PeerStep → OnMachine PeerOutcome
  | send src dst data len kick => do
    match ← Peer.send src dst data len kick with
    | none => return .nothing
    | some idx => return .index idx
  | offerRx idx => do Peer.offerRx idx; return .nothing
  | offerTx idx => do Peer.offerTx idx; return .nothing
  | receive offer kick => do
    match ← Peer.receive? offer kick with
    | none => return .nothing
    | some received => return .received received
  | receiveAll offer kick => do return .receivedAll (← Peer.receiveAll offer kick indexSpan)
  | rxUsed => do
    match ← Peer.takeRxUsed? with
    | none => return .nothing
    | some elem => return .used elem
  | collect => do
    Peer.collect indexSpan
    return .free (← get).peer.free.reverse
  | kickTx => do Machine.onKicks (·.onTx); return .nothing
  | kickRx => do Machine.onKicks (·.onRx); return .nothing
  | write addr bytes => do Machine.asPeer (Bus.writeBytes addr bytes); return .nothing
  | read addr len => do return .bytes (← Machine.asPeer (Bus.readBytes addr len))

/-- Takes steps in order, and lists their outcomes. -/
def PeerStep.runAll : List PeerStep → OnMachine (List PeerOutcome)
  | [] => return []
  | step :: rest => do
    let outcome ← step.run
    return outcome :: (← runAll rest)

end InterCore.Link
