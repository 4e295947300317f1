import InterCore.Link.Peer
import InterCore.Ring.Device

/-!
# Outgoing packets

A packet needs a buffer that the peer has offered. Where there is none the firmware waits, and the
peer's turns that fall into such waits are given beforehand as a schedule. A wait for which no turn
is left never ends.
-/

namespace InterCore.Link

open InterCore.Packet (Header maxLen)

/-- Takes available buffers until one has room for a header. Buffers without room are handed
straight back. -/
def takeBuffer? (tx : Ring.Device) :
    (fuel : Nat) → OnBus (Option (UInt16 × Ring.Descriptor) × Ring.Device)
  | 0 => throw .livelock
  | fuel + 1 => do
    match ← tx.take? with
    | (none, tx) => return (none, tx)
    | (some idx, tx) =>
      let d ← tx.descriptor idx
      if Header.size ≤ d.len.toNat then
        return (some (idx, d), tx)
      tx.publish idx 0 true
      takeBuffer? tx fuel

/-- The part of a payload that fits into a buffer of `len` bytes. -/
def fitting (len : UInt32) (data : List UInt8) : List UInt8 :=
  data.take (min len.toNat maxLen - Header.size)

/-- Sends a packet if there is a buffer for it; says whether it was sent. -/
def trySend (tx : Ring.Device) (src dst : UInt32) (data : List UInt8) :
    OnBus (Bool × Ring.Device) := do
  match ← takeBuffer? tx indexSpan with
  | (none, tx) => return (false, tx)
  | (some (idx, d), tx) =>
    let data := fitting d.len data
    let addr := d.addr.toNat
    Bus.writeBytes addr (Header.encode { src, dst, len := UInt16.ofNat data.length })
    Bus.writeBytes (addr + Header.size) data
    Bus.flush addr (Header.size + data.length)
    tx.publish idx (UInt32.ofNat maxLen) true
    return (true, tx)

/-- Takes one kick of the outgoing direction, and looks at the ring anew if there was one. -/
def serviceTxKick (tx : Ring.Device) : OnMachine Bool := do
  let (taken, kicks) := (← get).kicks.takeTx
  Machine.onKicks fun _ => kicks
  if taken then
    Machine.onBus tx.flush
  return taken

/-- The machine, with the peer's turns in the waits to come and what came of those in the waits
so far, the latest first. -/
structure Run where
  machine : Machine
  schedule : List (List PeerStep) := []
  waits : List (List PeerOutcome) := []

/-- Waits for one turn of the peer. -/
def wait (tx : Ring.Device) (turn : List PeerStep) : OnMachine (List PeerOutcome) := do
  let outcomes ← PeerStep.runAll turn
  let _ ← serviceTxKick tx
  return outcomes

/-- Sends a packet, and gives the peer a turn each time there is no buffer for it. -/
def sendWaiting (src dst : UInt32) (data : List UInt8) :
    (schedule : List (List PeerStep)) → List (List PeerOutcome) → Ring.Device → Machine →
      Except Fault (Ring.Device × Run)
  | schedule, waits, tx, machine =>
    match Machine.onBus (trySend tx src dst data) machine with
    | .error fault => .error fault
    | .ok ((true, tx), machine) => .ok (tx, { machine, schedule, waits })
    | .ok ((false, tx), machine) =>
      match schedule with
      | [] => .error .blocked
      | turn :: schedule =>
        match wait tx turn machine with
        | .error fault => .error fault
        | .ok (outcomes, machine) =>
          sendWaiting src dst data schedule (outcomes :: waits) tx machine

end InterCore.Link
