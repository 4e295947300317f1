import InterCore.Bench.Script
import InterCore.Memory.Bus

/-!
# Bench for the memory bus

Words and bytes read and written one after the other.
-/

namespace InterCore.Bench.Window

/-- One access to the memory, or one use of the bus that changes nothing in it. -/
inductive Step where
  | read16 (addr : Nat)
  | read32 (addr : Nat)
  | write16 (addr : Nat) (w : UInt16)
  | write32 (addr : Nat) (w : UInt32)
  | readBytes (addr len : Nat)
  | writeBytes (addr : Nat) (bytes : List UInt8)
  | flush (addr len : Nat)
  | barrier

/-- What a step answers. -/
inductive Value where
  | done
  | word (w : Nat)
  | bytes (bytes : List UInt8)

/-- Does one step. -/
def Step.run : Step → OnBus Value
  | .read16 addr => do return .word (← Bus.read16 addr).toNat
  | .read32 addr => do return .word (← Bus.read32 addr).toNat
  | .write16 addr w => do Bus.write16 addr w; return .done
  | .write32 addr w => do Bus.write32 addr w; return .done
  | .readBytes addr len => do return .bytes (← Bus.readBytes addr len)
  | .writeBytes addr bytes => do Bus.writeBytes addr bytes; return .done
  | .flush addr len => do Bus.flush addr len; return .done
  | .barrier => do Bus.barrier; return .done

/-- The outcome of a script, and the ranges that were flushed. -/
def run (memory : Memory) (steps : List Step) : List (Except Fault Value) × List (Nat × Nat) :=
  let (reports, bus) := runScript Step.run steps { memory }
  let flushed := bus.trace.filterMap fun
    | .flush addr len => some (addr, len)
    | _ => none
  (reports, flushed)

end InterCore.Bench.Window
