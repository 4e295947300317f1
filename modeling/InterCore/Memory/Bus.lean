import InterCore.Bytes.LittleEndian
import InterCore.Memory.Basic

/-!
# The memory bus

The shared memory as one core uses it: reads and writes of words and bytes, barriers, cache
flushes, and the interrupt that tells the other core to look. The journal lists what the other core
could notice, the latest first; reads are not noticed.
-/

namespace InterCore

/-- What a core did to the shared memory, or for the other core to see. -/
inductive Event where
  | write (addr : Nat) (bytes : List UInt8)
  /-- All earlier writes are visible before any later one. -/
  | barrier
  | flush (addr len : Nat)
  | notify
  deriving DecidableEq, Repr

/-- The shared memory, with the journal of what was done to it and the number of interrupts that
were sent. -/
structure Bus where
  memory : Memory
  journal : List Event := []
  notifications : Nat := 0
  deriving DecidableEq, Repr

/-- Work on the shared memory, which may fault. -/
abbrev OnBus := StateT Bus (Except Fault)

namespace Bus

/-- The journal in the order in which things happened. -/
def trace (bus : Bus) : List Event :=
  bus.journal.reverse

/-- Reads `len` bytes at `addr`. The journal is left as it is. -/
def readBytes (addr len : Nat) : OnBus (List UInt8) := fun bus =>
  match bus.memory.read addr len with
  | .error fault => .error fault
  | .ok bytes => .ok (bytes, bus)

/-- Reads the 16-bit word at `addr`. -/
def read16 (addr : Nat) : OnBus UInt16 := do
  return LittleEndian.decode16 (← readBytes addr 2)

/-- Reads the 32-bit word at `addr`. -/
def read32 (addr : Nat) : OnBus UInt32 := do
  return LittleEndian.decode32 (← readBytes addr 4)

/-- Writes bytes at `addr`, as one entry of the journal. -/
def writeBytes (addr : Nat) (bytes : List UInt8) : OnBus Unit := fun ⟨memory, journal, sent⟩ =>
  match memory.write addr bytes with
  | .error fault => .error fault
  | .ok memory => .ok ((), ⟨memory, .write addr bytes :: journal, sent⟩)

/-- Writes a 16-bit word at `addr`. -/
def write16 (addr : Nat) (w : UInt16) : OnBus Unit :=
  writeBytes addr (LittleEndian.encode16 w)

/-- Writes a 32-bit word at `addr`. -/
def write32 (addr : Nat) (w : UInt32) : OnBus Unit :=
  writeBytes addr (LittleEndian.encode32 w)

/-- Enters an event that leaves the memory alone. -/
def enter (event : Event) : OnBus Unit :=
  modify fun ⟨memory, journal, sent⟩ => ⟨memory, event :: journal, sent⟩

/-- Makes all earlier writes visible before any later one. -/
def barrier : OnBus Unit :=
  enter .barrier

/-- Writes the cache back over `len` bytes at `addr`. The memory itself does not change. -/
def flush (addr len : Nat) : OnBus Unit :=
  enter (.flush addr len)

/-- Interrupts the other core, and counts the interrupt. -/
def notify : OnBus Unit :=
  modify fun ⟨memory, journal, sent⟩ => ⟨memory, .notify :: journal, sent + 1⟩

/-- Work that leaves no entry in the journal, as it is done by somebody else. -/
def unrecorded (work : OnBus α) : OnBus α := fun ⟨memory, journal, sent⟩ =>
  match work ⟨memory, [], sent⟩ with
  | .error fault => .error fault
  | .ok (a, ⟨memory, _, sent⟩) => .ok (a, ⟨memory, journal, sent⟩)

/-- The bus with an empty journal, to begin a report with. -/
def clearJournal (bus : Bus) : Bus :=
  match bus with
  | ⟨memory, _, sent⟩ => ⟨memory, [], sent⟩

end Bus

end InterCore
