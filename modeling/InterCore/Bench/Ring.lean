import InterCore.Bench.Script
import InterCore.Ring.Device
import InterCore.Ring.Driver

/-!
# Bench for a ring

Both ends of one ring, worked by a script. Every report shows the indices that stand in memory and
what either end thinks of them.
-/

namespace InterCore.Bench.Ring

open InterCore.Ring (Layout Device Driver Descriptor UsedElem)

/-- Where a script has the ring and its buffers. -/
structure Setup where
  base : UInt32
  num : UInt16
  buffers : UInt32
  bufSize : UInt32

/-- The memory and both ends. The driver end appears with the first step. -/
structure State where
  bus : Bus
  device : Device
  driver : Option Driver := none

/-- One thing that an end or the script does. -/
inductive Step where
  | createDriver
  | attachDevice
  | offer (idx : UInt16)
  | take
  | publish (idx : UInt16) (len : UInt32) (kick : Bool)
  | takeUsed
  | flush
  | deviceDescriptor (idx : UInt16)
  | driverDescriptor (idx : UInt16)
  | layouts
  | memory
  | write (addr : Nat) (bytes : List UInt8)
  | read (addr len : Nat)
  /-- `rounds` times offer, take, hand back and collect one descriptor of the first `modulus`. -/
  | cycle (rounds modulus : Nat)

/-- What a step answers. -/
inductive Value where
  | done
  | index (idx : Option UInt16)
  | used (elem : Option UsedElem)
  | descriptor (d : Descriptor)
  | layouts (device driver : Layout)
  | memory (size : Nat) (base : UInt32)
  | bytes (bytes : List UInt8)
  | misses (count : Nat)

/-- What can be seen of the ring after a step. -/
structure Status where
  availIdx : UInt16
  usedIdx : UInt16
  hasIncoming : Bool
  hasUsed : Bool
  notifications : Nat

/-- What a step answers, the status after it, and what the ends did to the memory. -/
structure Report where
  value : Value
  status : Status
  trace : List Event

/-- Work of a script on both ends of the ring. -/
abbrev OnBench := StateT State (Except Fault)

/-- Work on the bus, which leaves both ends as they are. -/
def onBus (work : OnBus α) : OnBench α := fun ⟨bus, device, driver⟩ =>
  match work bus with
  | .error fault => .error fault
  | .ok (a, bus) => .ok (a, ⟨bus, device, driver⟩)

/-- The driver end, which has to be there. -/
def driverEnd : OnBench Driver := do
  match (← get).driver with
  | some driver => return driver
  | none => throw .notSetUp

/-- Has the driver end offer a descriptor. -/
def offer (idx : UInt16) : OnBench Unit := do
  let driver ← onBus ((← driverEnd).offer idx)
  modify ({ · with driver := some driver })

/-- Has the device end take an entry. -/
def take? : OnBench (Option UInt16) := do
  let (idx, device) ← onBus (← get).device.take?
  modify ({ · with device })
  return idx

/-- Has the driver end take a used element. -/
def takeUsed? : OnBench (Option UsedElem) := do
  let (elem, driver) ← onBus (← driverEnd).takeUsed?
  modify ({ · with driver := some driver })
  return elem

/-- Sends descriptor `idx` once around the ring. Says whether it came back unchanged and left the
ring empty. -/
def sendAround (idx : UInt16) (len : UInt32) : OnBench Bool := do
  offer idx
  let taken ← take?
  onBus ((← get).device.publish idx len false)
  let used ← takeUsed?
  let incoming ← onBus (← get).device.hasIncoming
  let returned ← onBus (← driverEnd).hasUsed
  return taken == some idx && used == some ⟨idx.toUInt32, len⟩ && !incoming && !returned

/-- Sends descriptors around the ring, from round `n` on. Counts the rounds that went wrong. -/
def cycle (modulus : Nat) : (rounds n misses : Nat) → State → Except Fault (Nat × State)
  | 0, _, misses, s => .ok (misses, s)
  | rounds + 1, n, misses, s =>
    match sendAround (UInt16.ofNat (n % modulus)) (UInt32.ofNat n) s with
    | .error fault => .error fault
    | .ok (kept, ⟨bus, device, driver⟩) =>
      let misses := if kept then misses else misses + 1
      cycle modulus rounds (n + 1) misses ⟨bus.clearJournal, device, driver⟩

/-- Does one step. -/
def Step.run (setup : Setup) : Step → OnBench Value
  | .createDriver => do
    let driver ← onBus (Driver.create setup.base setup.num setup.buffers setup.bufSize)
    modify ({ · with driver := some driver })
    return .done
  | .attachDevice => do
    let device ← Device.attach setup.base setup.num
    modify ({ · with device })
    return .done
  | .offer idx => do
    Ring.offer idx
    return .done
  | .take => do return .index (← take?)
  | .publish idx len kick => do
    onBus ((← get).device.publish idx len kick)
    return .done
  | .takeUsed => do return .used (← takeUsed?)
  | .flush => do
    onBus (← get).device.flush
    return .done
  | .deviceDescriptor idx => do return .descriptor (← onBus ((← get).device.descriptor idx))
  | .driverDescriptor idx => do return .descriptor (← onBus ((← driverEnd).descriptor idx))
  | .layouts => do return .layouts (← get).device.layout (← driverEnd).layout
  | .memory => do
    let memory := (← get).bus.memory
    return .memory memory.size memory.base
  | .write addr bytes => do
    onBus (Bus.unrecorded (Bus.writeBytes addr bytes))
    return .done
  | .read addr len => do return .bytes (← onBus (Bus.readBytes addr len))
  | .cycle rounds modulus => do
    if modulus = 0 ∧ 0 < rounds then
      throw .nothingToChoose
    return .misses (← Ring.cycle modulus rounds 0 0)

/-- Looks at the indices in memory, and asks either end what it makes of them. -/
def status : OnBench Status := do
  let device := (← get).device
  let availIdx ← onBus (Bus.read16 device.layout.availIdxAddr)
  let usedIdx ← onBus (Bus.read16 device.layout.usedIdxAddr)
  let hasIncoming ← onBus device.hasIncoming
  let hasUsed ← onBus (← driverEnd).hasUsed
  return { availIdx, usedIdx, hasIncoming, hasUsed, notifications := (← get).bus.notifications }

/-- Does one step and reports it. What is looked up for the status is not in the trace. -/
def report (setup : Setup) (step : Step) : OnBench Report := do
  modify fun ⟨bus, device, driver⟩ => ⟨bus.clearJournal, device, driver⟩
  let value ← step.run setup
  let trace := (← get).bus.trace
  return { value, status := ← status, trace }

/-- Runs a script on a fresh device end over a window of memory. -/
def run (memory : Memory) (setup : Setup) (steps : List Step) :
    Except Fault (List (Except Fault Report)) := do
  let device ← Device.attach setup.base setup.num
  return (runScript (report setup) steps { bus := { memory }, device }).1

end InterCore.Bench.Ring
