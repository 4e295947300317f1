/-!
# Kicks

A kick is an interrupt that says no more than "look at the ring". The interrupt handler counts it,
and the polling loop takes counted kicks one at a time. A full counter stays full.
-/

namespace InterCore

/-- Kicks that were received and not yet taken. -/
structure KickCounter where
  pending : UInt32 := 0
  deriving DecidableEq, Repr

namespace KickCounter

/-- One more kick, unless the counter is full. -/
def signal (k : KickCounter) : KickCounter :=
  if k.pending = 0xFFFFFFFF then k else ⟨k.pending + 1⟩

/-- The counter without one kick, if there is one. -/
def take? (k : KickCounter) : Option KickCounter :=
  if k.pending = 0 then none else some ⟨k.pending - 1⟩

end KickCounter

/-- The firmware's kick counters, one for each direction. -/
structure Kicks where
  /-- The other core has returned buffers. -/
  tx : KickCounter := {}
  /-- The other core has sent messages. -/
  rx : KickCounter := {}
  deriving DecidableEq, Repr

namespace Kicks

/-- The counters after an interrupt of the outgoing direction. -/
def onTx (k : Kicks) : Kicks :=
  { k with tx := k.tx.signal }

/-- The counters after an interrupt of the incoming direction. -/
def onRx (k : Kicks) : Kicks :=
  { k with rx := k.rx.signal }

/-- Takes one kick of the outgoing direction; says whether there was one. -/
def takeTx (k : Kicks) : Bool × Kicks :=
  match k.tx.take? with
  | none => (false, k)
  | some tx => (true, { k with tx })

/-- Takes one kick of the incoming direction; says whether there was one. -/
def takeRx (k : Kicks) : Bool × Kicks :=
  match k.rx.take? with
  | none => (false, k)
  | some rx => (true, { k with rx })

end Kicks

end InterCore
