import InterCore.Proofs.Memory.Faults

/-!
# Memory cell by cell

A core reads and writes strings of bytes by going through the cells of a window. First it finds the
place of the access: the address less the base, which must not fall below zero, and from there on as
many cells as the access has bytes, which must not go beyond the last. A fault leaves the cells as
they are when it happens, so that nothing that was written before it is taken back.

`Access.onCells` is what an access does to the cells and `Access.onBus` what it does on the bus.
They are the same, and where the access faults it has written nothing (`Access.onCells_eq_onBus`).
-/

namespace InterCore

/-- Work on the cells of a memory. What was written stays written where a fault follows. -/
abbrev OnCells := ExceptT Fault (StateM Memory)

namespace Cells

/-- The place of an access among the cells. -/
def place (addr : UInt32) (len : Nat) : OnCells Nat := do
  let m ← get
  if addr < m.base then
    throw .outsideMemory
  else if m.size < (addr - m.base).toNat + len then
    throw .outsideMemory
  else
    return (addr - m.base).toNat

/-- Writes cells one after the other. -/
def store (offset : Nat) : List UInt8 → OnCells Unit
  | [] => return
  | b :: rest => do
    let m ← get
    if offset < m.size then
      set (Memory.mk m.base (m.bytes.setIfInBounds offset b))
      store (offset + 1) rest
    else
      throw .outsideMemory

/-- Reads cells one after the other. -/
def load (offset : Nat) : (len : Nat) → OnCells (List UInt8)
  | 0 => return []
  | len + 1 => do
    match (← get).bytes[offset]? with
    | none => throw .outsideMemory
    | some b => return b :: (← load (offset + 1) len)

/-- Reads byte by byte after the place was checked. -/
def readBytes (addr : UInt32) (len : Nat) : OnCells (List UInt8) := do
  load (← place addr len) len

/-- Writes byte by byte after the place was checked. -/
def writeBytes (addr : UInt32) (bytes : List UInt8) : OnCells Unit := do
  store (← place addr bytes.length) bytes

end Cells

namespace Memory

/-- One read or write of the memory. -/
inductive Access where
  | read16 (addr : UInt32)
  | read32 (addr : UInt32)
  | readBytes (addr : UInt32) (len : Nat)
  | write16 (addr : UInt32) (w : UInt16)
  | write32 (addr : UInt32) (w : UInt32)
  | writeBytes (addr : UInt32) (bytes : List UInt8)
  deriving DecidableEq, Repr

/-- What comes back from an access. -/
inductive Found where
  | nothing
  | word16 (w : UInt16)
  | word32 (w : UInt32)
  | bytes (bytes : List UInt8)
  deriving DecidableEq, Repr

namespace Access

/-- Where an access begins. -/
def addr : Access → UInt32
  | read16 addr => addr
  | read32 addr => addr
  | readBytes addr _ => addr
  | write16 addr _ => addr
  | write32 addr _ => addr
  | writeBytes addr _ => addr

/-- How many bytes are read or written. -/
def len : Access → Nat
  | read16 _ => 2
  | read32 _ => 4
  | readBytes _ len => len
  | write16 _ _ => 2
  | write32 _ _ => 4
  | writeBytes _ bytes => bytes.length

/-- The access on the bus. -/
def onBus : Access → OnBus Found
  | read16 addr => do return .word16 (← Bus.read16 addr.toNat)
  | read32 addr => do return .word32 (← Bus.read32 addr.toNat)
  | readBytes addr len => do return .bytes (← Bus.readBytes addr.toNat len)
  | write16 addr w => do
    Bus.write16 addr.toNat w
    return .nothing
  | write32 addr w => do
    Bus.write32 addr.toNat w
    return .nothing
  | writeBytes addr bytes => do
    Bus.writeBytes addr.toNat bytes
    return .nothing

/-- The access on the cells. -/
def onCells : Access → OnCells Found
  | read16 addr => do return .word16 (LittleEndian.decode16 (← Cells.readBytes addr 2))
  | read32 addr => do return .word32 (LittleEndian.decode32 (← Cells.readBytes addr 4))
  | readBytes addr len => do return .bytes (← Cells.readBytes addr len)
  | write16 addr w => do
    Cells.writeBytes addr (LittleEndian.encode16 w)
    return .nothing
  | write32 addr w => do
    Cells.writeBytes addr (LittleEndian.encode32 w)
    return .nothing
  | writeBytes addr bytes => do
    Cells.writeBytes addr bytes
    return .nothing

/-- The access begins below the window or goes beyond its end. -/
def Refused (x : Access) (m : Memory) : Prop :=
  x.addr.toNat < m.base.toNat ∨ m.size < x.addr.toNat - m.base.toNat + x.len

instance (x : Access) (m : Memory) : Decidable (x.Refused m) :=
  inferInstanceAs (Decidable (_ ∨ _))

end Access

end Memory

/-! ## Work on cells in parts -/

namespace OnCells

variable {m m' : Memory}

theorem get_eq (m : Memory) : (get : OnCells Memory) m = (.ok m, m) := rfl

theorem bind_of_ok {work : OnCells α} {next : α → OnCells β} {a : α}
    (h : work m = (.ok a, m')) : (work >>= next) m = next a m' := by
  show ExceptT.bindCont next (work m).1 (work m).2 = next a m'
  rw [h]
  rfl

theorem bind_of_error {work : OnCells α} {next : α → OnCells β} {fault : Fault}
    (h : work m = (.error fault, m')) : (work >>= next) m = (.error fault, m') := by
  show ExceptT.bindCont next (work m).1 (work m).2 = (.error fault, m')
  rw [h]
  rfl

end OnCells

namespace Cells

variable {m : Memory} {addr : UInt32} {offset len a : Nat} {bytes : List UInt8}

/-- The difference of two addresses, where it does not fall below zero. -/
theorem toNat_sub_base (above : ¬ addr < m.base) :
    (addr - m.base).toNat = addr.toNat - m.base.toNat :=
  UInt32.toNat_sub_of_le _ _ (UInt32.not_lt.mp above)

theorem place_of_covers (h : m.Covers addr.toNat len) :
    place addr len m = (.ok (addr.toNat - m.base.toNat), m) := by
  obtain ⟨-, lower, upper⟩ := h
  have above : ¬ addr < m.base := by
    rw [UInt32.lt_iff_toNat_lt]
    omega
  have offset := toNat_sub_base above
  rw [place, OnCells.bind_of_ok (OnCells.get_eq m), if_neg above, if_neg (by omega), offset]
  rfl

theorem place_of_not_covers (h : ¬ m.Covers addr.toNat len) :
    place addr len m = (.error .outsideMemory, m) := by
  rw [place, OnCells.bind_of_ok (OnCells.get_eq m)]
  by_cases below : addr < m.base
  · rw [if_pos below]
    rfl
  · have offset := toNat_sub_base below
    have lower := UInt32.le_iff_toNat_le.mp (UInt32.not_lt.mp below)
    have beyond : m.size < (addr - m.base).toNat + len := by
      refine Nat.lt_of_not_le fun upper => h ⟨addr.toNat_lt, lower, ?_⟩
      rwa [← offset]
    rw [if_neg below, if_pos beyond]
    rfl

/-- Cells that are there take the bytes that are written, and the store does not fault. -/
theorem store_eq (room : offset + bytes.length ≤ m.size) :
    store offset bytes m = (.ok (), ⟨m.base, overlay m.bytes offset bytes⟩) := by
  induction bytes generalizing offset m with
  | nil => rfl
  | cons b rest ih =>
    rw [List.length_cons] at room
    have here : offset < m.size := by omega
    rw [store, OnCells.bind_of_ok (OnCells.get_eq m), if_pos here]
    refine (ih ?_).trans rfl
    rw [Memory.size, Array.size_setIfInBounds]
    show offset + 1 + rest.length ≤ m.size
    omega

/-- Cells that are there tell their bytes. -/
theorem load_eq (lower : m.base.toNat ≤ a) (room : a - m.base.toNat + len ≤ m.size) :
    load (a - m.base.toNat) len m = (.ok (m.slice a len), m) := by
  induction len generalizing a with
  | zero => rfl
  | succ len ih =>
    have here : a - m.base.toNat < m.bytes.size := by
      rw [Memory.size] at room
      omega
    have first : m.bytes[a - m.base.toNat]? = some (m.byteAt a) := by
      rw [Memory.byteAt, if_pos lower, Array.getElem?_eq_getElem here, Option.getD_some]
    have next : a - m.base.toNat + 1 = a + 1 - m.base.toNat := by omega
    have rest := ih (a := a + 1) (by omega) (by omega)
    have split : m.slice a (len + 1) = m.byteAt a :: m.slice (a + 1) len := by
      rw [Nat.add_comm, Memory.slice_add]
      rfl
    rw [load, OnCells.bind_of_ok (OnCells.get_eq m), first]
    show (load (a - m.base.toNat + 1) len >>= fun bytes => pure (m.byteAt a :: bytes)) m = _
    rw [next, OnCells.bind_of_ok rest, split]
    rfl

theorem readBytes_of_covers (h : m.Covers addr.toNat len) :
    readBytes addr len m = (.ok (m.slice addr.toNat len), m) := by
  rw [readBytes, OnCells.bind_of_ok (place_of_covers h)]
  exact load_eq h.2.1 h.2.2

theorem readBytes_of_not_covers (h : ¬ m.Covers addr.toNat len) :
    readBytes addr len m = (.error .outsideMemory, m) := by
  rw [readBytes, OnCells.bind_of_error (place_of_not_covers h)]

theorem writeBytes_of_covers (h : m.Covers addr.toNat bytes.length) :
    writeBytes addr bytes m = (.ok (), m.patch addr.toNat bytes) := by
  rw [writeBytes, OnCells.bind_of_ok (place_of_covers h)]
  exact store_eq h.2.2

theorem writeBytes_of_not_covers (h : ¬ m.Covers addr.toNat bytes.length) :
    writeBytes addr bytes m = (.error .outsideMemory, m) := by
  rw [writeBytes, OnCells.bind_of_error (place_of_not_covers h)]

end Cells

/-! ## Accesses -/

namespace Memory.Access

open LittleEndian (encode16 encode32)

variable {m : Memory} {bus : Bus}

/-- The bytes that an access writes. -/
def data : Access → List UInt8
  | write16 _ w => encode16 w
  | write32 _ w => encode32 w
  | writeBytes _ bytes => bytes
  | _ => []

/-- What an access within the window finds. -/
def found (m : Memory) : Access → Found
  | read16 addr => .word16 (m.word16 addr.toNat)
  | read32 addr => .word32 (m.word32 addr.toNat)
  | readBytes addr len => .bytes (m.slice addr.toNat len)
  | _ => .nothing

theorem refused_iff (x : Access) (m : Memory) :
    x.Refused m ↔ ¬ m.Covers x.addr.toNat x.len := by
  have below := x.addr.toNat_lt
  unfold Refused Covers
  change x.addr.toNat < UInt32.size at below
  omega

theorem covers_of_not_refused {x : Access} (h : ¬ x.Refused m) :
    m.Covers x.addr.toNat x.len :=
  Decidable.not_not.mp fun outside => h ((x.refused_iff m).mpr outside)

theorem onCells_of_not_refused {x : Access} (h : ¬ x.Refused m) :
    x.onCells m = (.ok (x.found m), m.patch x.addr.toNat x.data) := by
  have covered := covers_of_not_refused h
  cases x with
  | read16 addr => exact OnCells.bind_of_ok (Cells.readBytes_of_covers covered)
  | read32 addr => exact OnCells.bind_of_ok (Cells.readBytes_of_covers covered)
  | readBytes addr len => exact OnCells.bind_of_ok (Cells.readBytes_of_covers covered)
  | write16 addr w =>
    exact OnCells.bind_of_ok (Cells.writeBytes_of_covers
      (by rwa [LittleEndian.length_encode16]))
  | write32 addr w =>
    exact OnCells.bind_of_ok (Cells.writeBytes_of_covers
      (by rwa [LittleEndian.length_encode32]))
  | writeBytes addr bytes => exact OnCells.bind_of_ok (Cells.writeBytes_of_covers covered)

/-- The place is found before anything is written. -/
theorem onCells_of_refused {x : Access} (h : x.Refused m) :
    x.onCells m = (.error .outsideMemory, m) := by
  have outside := (x.refused_iff m).mp h
  cases x with
  | read16 addr => exact OnCells.bind_of_error (Cells.readBytes_of_not_covers outside)
  | read32 addr => exact OnCells.bind_of_error (Cells.readBytes_of_not_covers outside)
  | readBytes addr len => exact OnCells.bind_of_error (Cells.readBytes_of_not_covers outside)
  | write16 addr w =>
    exact OnCells.bind_of_error (Cells.writeBytes_of_not_covers
      (by rwa [LittleEndian.length_encode16]))
  | write32 addr w =>
    exact OnCells.bind_of_error (Cells.writeBytes_of_not_covers
      (by rwa [LittleEndian.length_encode32]))
  | writeBytes addr bytes => exact OnCells.bind_of_error (Cells.writeBytes_of_not_covers outside)

theorem onBus_of_not_refused {x : Access} (h : ¬ x.Refused bus.memory) :
    ∃ bus', x.onBus bus = .ok (x.found bus.memory, bus') ∧
      bus'.memory = bus.memory.patch x.addr.toNat x.data := by
  have covered := covers_of_not_refused h
  cases x with
  | read16 addr => exact ⟨bus, OnBus.bind_eq (OnBus.read16_eq covered), rfl⟩
  | read32 addr => exact ⟨bus, OnBus.bind_eq (OnBus.read32_eq covered), rfl⟩
  | readBytes addr len => exact ⟨bus, OnBus.bind_eq (Bus.readBytes_eq covered), rfl⟩
  | write16 addr w => exact ⟨_, OnBus.bind_eq (Bus.write16_eq w covered), rfl⟩
  | write32 addr w => exact ⟨_, OnBus.bind_eq (Bus.write32_eq w covered), rfl⟩
  | writeBytes addr bytes => exact ⟨_, OnBus.bind_eq (Bus.writeBytes_eq covered), rfl⟩

theorem onBus_of_refused {x : Access} (h : x.Refused bus.memory) :
    x.onBus bus = .error .outsideMemory := by
  have outside := (x.refused_iff bus.memory).mp h
  cases x with
  | read16 addr => exact bind_of_error (Bus.read16_outside outside)
  | read32 addr => exact bind_of_error (Bus.read32_outside outside)
  | readBytes addr len => exact bind_of_error (Bus.readBytes_outside outside)
  | write16 addr w => exact bind_of_error (Bus.write16_outside w outside)
  | write32 addr w => exact bind_of_error (Bus.write32_outside w outside)
  | writeBytes addr bytes => exact bind_of_error (Bus.writeBytes_outside outside)

/-- An access does to the memory of the bus what it does to the cells, and a fault leaves the memory
as it was. -/
theorem onCells_eq_onBus (x : Access) (bus : Bus) :
    x.onCells bus.memory = match x.onBus bus with
      | .ok (found, bus') => (.ok found, bus'.memory)
      | .error fault => (.error fault, bus.memory) := by
  by_cases h : x.Refused bus.memory
  · rw [onCells_of_refused h, onBus_of_refused h]
  · obtain ⟨bus', run, memory⟩ := onBus_of_not_refused h
    rw [onCells_of_not_refused h, run, ← memory]

end Memory.Access

end InterCore
