import InterCore.Kick
import InterCore.Ring.Driver

/-!
# The machine

What the two cores of a link have between them: the bus with the shared memory, the kick counters of
the firmware, and the peer, which is the core at the other end. The peer holds the driver ends of
both rings.
-/

namespace InterCore.Link

open InterCore.Ring (Driver)

/-- The other core's ends of the two rings. -/
structure Peer where
  tx : Driver
  rx : Driver
  /-- The buffers of the incoming ring that are free to be filled, the next one to use first. -/
  free : List UInt16
  deriving DecidableEq

/-- What both cores work with: the bus, the kick counters of the firmware, and the peer. -/
structure Machine where
  bus : Bus
  kicks : Kicks
  peer : Peer

/-- Work of either core on what lies between them. -/
abbrev OnMachine := StateT Machine (Except Fault)

namespace Machine

/-- Work on the bus that the firmware does. -/
def onBus (work : OnBus α) : OnMachine α := fun ⟨bus, kicks, peer⟩ =>
  match work bus with
  | .error fault => .error fault
  | .ok (a, bus) => .ok (a, ⟨bus, kicks, peer⟩)

/-- Work on the bus that the peer does, of which the firmware's journal says nothing. -/
def asPeer (work : OnBus α) : OnMachine α :=
  onBus (Bus.unrecorded work)

/-- Changes the firmware's kick counters and nothing else. -/
def onKicks (f : Kicks → Kicks) : OnMachine Unit :=
  modify fun ⟨bus, kicks, peer⟩ => ⟨bus, f kicks, peer⟩

/-- Changes what the peer keeps to itself and nothing else. -/
def onPeer (f : Peer → Peer) : OnMachine Unit :=
  modify fun ⟨bus, kicks, peer⟩ => ⟨bus, kicks, f peer⟩

end Machine

end InterCore.Link
