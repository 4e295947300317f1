import InterCore.Fault

/-!
# Shared memory

A window of byte memory at a bus address. An access names an address and a length, and lies within
the window or is refused. A refused access changes nothing, and an access of length zero may stand
at the very end of the window.
-/

namespace InterCore

/-- Byte memory whose first byte stands at bus address `base`. -/
structure Memory where
  base : UInt32
  bytes : Array UInt8
  deriving DecidableEq, Repr

/-- An array with a string of bytes laid over it from position `offset` on. -/
def overlay (bytes : Array UInt8) (offset : Nat) : List UInt8 → Array UInt8
  | [] => bytes
  | b :: rest => overlay (bytes.setIfInBounds offset b) (offset + 1) rest

namespace Memory

/-- Number of bytes in the window. -/
def size (m : Memory) : Nat :=
  m.bytes.size

/-- A window of `size` bytes that are all the same. -/
def filled (base : UInt32) (size : Nat) (fill : UInt8) : Memory :=
  ⟨base, Array.replicate size fill⟩

/-- An access of `len` bytes at `addr` lies within the window. -/
def Covers (m : Memory) (addr len : Nat) : Prop :=
  addr < UInt32.size ∧ m.base.toNat ≤ addr ∧ addr - m.base.toNat + len ≤ m.size

instance (m : Memory) (addr len : Nat) : Decidable (m.Covers addr len) :=
  inferInstanceAs (Decidable (_ ∧ _))

/-- The `len` bytes at `addr`, if they all lie within the window. -/
def read (m : Memory) (addr len : Nat) : Except Fault (List UInt8) :=
  if m.Covers addr len then
    let offset := addr - m.base.toNat
    .ok (m.bytes.extract offset (offset + len)).toList
  else
    .error .outsideMemory

/-- The window with `data` put in at `addr`, if it all lies within the window. -/
def write (m : Memory) (addr : Nat) (data : List UInt8) : Except Fault Memory :=
  if m.Covers addr data.length then
    match m with
    | ⟨base, bytes⟩ => .ok ⟨base, overlay bytes (addr - base.toNat) data⟩
  else
    .error .outsideMemory

end Memory

@[simp]
theorem size_overlay (bytes : Array UInt8) (offset : Nat) (data : List UInt8) :
    (overlay bytes offset data).size = bytes.size := by
  induction data generalizing bytes offset with
  | nil => rfl
  | cons b rest ih => simp [overlay, ih]

end InterCore
