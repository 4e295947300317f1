import InterCore.Proofs.Memory.Cells
import Mathlib.Data.List.Induction

/-!
# What a memory tells

A memory holds at each address the byte that was last written there, be it as part of a word or of a
string of bytes, and the byte that it started with where nothing was written. A word is read from
the bytes at its addresses as they are, the least significant first, so that words and strings of
bytes that overlap in any way agree. What an access does is told once (`byteAt_onCells`), and what
many accesses come to follows by induction (`byteAt_accessed`).

Accesses that have no address in common can change places (`Apart.commutes`).
-/

namespace InterCore

namespace LittleEndian

/-- Byte number `i` of a number, from the least significant on. -/
def byteOf (v i : Nat) : UInt8 :=
  UInt8.ofNat (v >>> (8 * i))

theorem byteOf_succ (v i : Nat) : byteOf v (i + 1) = byteOf (v / 256) i := by
  have places : 8 * (i + 1) = 8 + 8 * i := by omega
  rw [byteOf, places, Nat.shiftRight_add, Nat.shiftRight_eq_div_pow v 8, byteOf]

theorem getElem?_digits (n v i : Nat) :
    (digits n v)[i]? = if i < n then some (byteOf v i) else none := by
  induction n generalizing v i with
  | zero => rfl
  | succ n ih =>
    cases i with
    | zero => simp [digits, byteOf]
    | succ i =>
      rw [digits, List.getElem?_cons_succ, ih, byteOf_succ]
      simp only [Nat.add_lt_add_iff_right]

end LittleEndian

namespace Memory

open LittleEndian (byteOf)

variable {m m' : Memory} {a : Nat} {x y : Access}

/-- Two memories that hold the same bytes in the same window are the same. -/
theorem eq_of_byteAt (base : m'.base = m.base) (size : m'.size = m.size)
    (bytes : ∀ a, m'.byteAt a = m.byteAt a) : m' = m := by
  obtain ⟨base₁, bytes₁⟩ := m
  obtain ⟨base₂, bytes₂⟩ := m'
  obtain rfl : base₂ = base₁ := base
  refine congrArg (Memory.mk base₂) (Array.ext size fun i hi hi' => ?_)
  have here := bytes (base₂.toNat + i)
  simpa only [byteAt, Nat.le_add_right, if_true, Nat.add_sub_cancel_left,
    Array.getElem?_eq_getElem hi, Array.getElem?_eq_getElem hi', Option.getD_some] using here

theorem toNat_word16 (m : Memory) (a : Nat) :
    (m.word16 a).toNat = (m.byteAt a).toNat + 256 * (m.byteAt (a + 1)).toNat := by
  have low := (m.byteAt a).toNat_lt
  have high := (m.byteAt (a + 1)).toNat_lt
  show (UInt16.ofNat (LittleEndian.value [m.byteAt a, m.byteAt (a + 1)])).toNat = _
  simp only [LittleEndian.value, UInt16.toNat_ofNat']
  omega

theorem toNat_word32 (m : Memory) (a : Nat) :
    (m.word32 a).toNat = (m.byteAt a).toNat + 256 * (m.byteAt (a + 1)).toNat +
      65536 * (m.byteAt (a + 2)).toNat + 16777216 * (m.byteAt (a + 3)).toNat := by
  have first := (m.byteAt a).toNat_lt
  have second := (m.byteAt (a + 1)).toNat_lt
  have third := (m.byteAt (a + 2)).toNat_lt
  have fourth := (m.byteAt (a + 3)).toNat_lt
  show (UInt32.ofNat (LittleEndian.value
    [m.byteAt a, m.byteAt (a + 1), m.byteAt (a + 2), m.byteAt (a + 3)])).toNat = _
  simp only [LittleEndian.value, UInt32.toNat_ofNat']
  omega

namespace Access

/-- The access reads or writes the byte at an address. -/
def Touches (x : Access) (a : Nat) : Prop :=
  x.addr.toNat ≤ a ∧ a < x.addr.toNat + x.len

/-- Two accesses have no address in common. -/
def Apart (x y : Access) : Prop :=
  ∀ a, x.Touches a → ¬ y.Touches a

/-- The byte that an access writes at an address, if it writes there. -/
def stored? (a : Nat) : Access → Option UInt8
  | write16 addr w =>
    if addr.toNat ≤ a ∧ a < addr.toNat + 2 then some (byteOf w.toNat (a - addr.toNat)) else none
  | write32 addr w =>
    if addr.toNat ≤ a ∧ a < addr.toNat + 4 then some (byteOf w.toNat (a - addr.toNat)) else none
  | writeBytes addr bytes => if addr.toNat ≤ a then bytes[a - addr.toNat]? else none
  | _ => none

/-- What an access finds where the bytes at all addresses are known. -/
inductive Tells (byte : Nat → UInt8) : Access → Found → Prop
  | read16 {addr : UInt32} {w : UInt16}
      (value : w.toNat = (byte addr.toNat).toNat + 256 * (byte (addr.toNat + 1)).toNat) :
      Tells byte (.read16 addr) (.word16 w)
  | read32 {addr : UInt32} {w : UInt32}
      (value : w.toNat = (byte addr.toNat).toNat + 256 * (byte (addr.toNat + 1)).toNat +
        65536 * (byte (addr.toNat + 2)).toNat + 16777216 * (byte (addr.toNat + 3)).toNat) :
      Tells byte (.read32 addr) (.word32 w)
  | readBytes {addr : UInt32} {len : Nat} :
      Tells byte (.readBytes addr len) (.bytes ((List.range len).map fun i => byte (addr.toNat + i)))
  | write16 {addr : UInt32} {w : UInt16} : Tells byte (.write16 addr w) .nothing
  | write32 {addr : UInt32} {w : UInt32} : Tells byte (.write32 addr w) .nothing
  | writeBytes {addr : UInt32} {bytes : List UInt8} : Tells byte (.writeBytes addr bytes) .nothing

/-- Two accesses find the same in either order, and leave the same memory. -/
structure Commutes (x y : Access) (m : Memory) : Prop where
  first : (x.onCells (y.onCells m).2).1 = (x.onCells m).1
  second : (y.onCells (x.onCells m).2).1 = (y.onCells m).1
  memory : (y.onCells (x.onCells m).2).2 = (x.onCells (y.onCells m).2).2

/-! ## One access -/

theorem stored?_eq (x : Access) (a : Nat) :
    x.stored? a = if x.addr.toNat ≤ a then x.data[a - x.addr.toNat]? else none := by
  cases x with
  | write16 addr w =>
    by_cases above : addr.toNat ≤ a
    · have inside : a < addr.toNat + 2 ↔ a - addr.toNat < 2 := by omega
      simp only [stored?, Access.addr, data, LittleEndian.encode16, above, true_and, if_true,
        LittleEndian.getElem?_digits, inside]
    · simp only [stored?, Access.addr, above, false_and, if_false]
  | write32 addr w =>
    by_cases above : addr.toNat ≤ a
    · have inside : a < addr.toNat + 4 ↔ a - addr.toNat < 4 := by omega
      simp only [stored?, Access.addr, data, LittleEndian.encode32, above, true_and, if_true,
        LittleEndian.getElem?_digits, inside]
    · simp only [stored?, Access.addr, above, false_and, if_false]
  | writeBytes addr bytes => rfl
  | _ => simp only [stored?, data, List.getElem?_nil, ite_self]

theorem length_data_le (x : Access) : x.data.length ≤ x.len := by
  cases x with
  | write16 addr w => exact Nat.le_of_eq (LittleEndian.length_encode16 w)
  | write32 addr w => exact Nat.le_of_eq (LittleEndian.length_encode32 w)
  | writeBytes addr bytes => exact Nat.le_refl _
  | _ => exact Nat.zero_le _

theorem stored?_of_not_touches (h : ¬ x.Touches a) : x.stored? a = none := by
  have short := x.length_data_le
  rw [stored?_eq]
  split
  case isTrue above =>
    refine List.getElem?_eq_none ?_
    have beyond : x.addr.toNat + x.len ≤ a := Nat.le_of_not_lt fun below => h ⟨above, below⟩
    omega
  case isFalse => rfl

theorem base_onCells (x : Access) (m : Memory) : (x.onCells m).2.base = m.base := by
  by_cases h : x.Refused m
  · rw [onCells_of_refused h]
  · rw [onCells_of_not_refused h]
    rfl

theorem size_onCells (x : Access) (m : Memory) : (x.onCells m).2.size = m.size := by
  by_cases h : x.Refused m
  · rw [onCells_of_refused h]
  · rw [onCells_of_not_refused h]
    exact size_patch _ _ _

theorem refused_congr (base : m'.base = m.base) (size : m'.size = m.size) :
    x.Refused m' ↔ x.Refused m := by
  rw [Refused, Refused, base, size]

/-- After an access a byte is the one that it wrote there, or what it was before. -/
theorem byteAt_onCells (x : Access) (m : Memory) (a : Nat) :
    (x.onCells m).2.byteAt a = (if x.Refused m then none else x.stored? a).getD (m.byteAt a) := by
  by_cases h : x.Refused m
  · rw [onCells_of_refused h, if_pos h, Option.getD_none]
  · obtain ⟨below, lower, upper⟩ := covers_of_not_refused h
    have short := x.length_data_le
    have covered : m.Covers x.addr.toNat x.data.length := ⟨below, lower, by omega⟩
    rw [onCells_of_not_refused h, if_neg h, byteAt_patch covered, stored?_eq]
    by_cases above : x.addr.toNat ≤ a
    · rw [if_pos above]
      by_cases inside : a < x.addr.toNat + x.data.length
      · have here : a - x.addr.toNat < x.data.length := by omega
        rw [if_pos ⟨above, inside⟩, List.getElem?_eq_getElem here, Option.getD_some,
          Option.getD_some]
      · have beyond : x.data.length ≤ a - x.addr.toNat := by omega
        rw [if_neg (by omega), List.getElem?_eq_none beyond, Option.getD_none]
    · rw [if_neg (by omega), if_neg above, Option.getD_none]

/-- An access finds what the bytes of the memory tell. -/
theorem tells_found (x : Access) (m : Memory) : x.Tells m.byteAt (x.found m) := by
  cases x with
  | read16 addr => exact .read16 (m.toNat_word16 _)
  | read32 addr => exact .read32 (m.toNat_word32 _)
  | readBytes addr len => exact .readBytes
  | write16 addr w => exact .write16
  | write32 addr w => exact .write32
  | writeBytes addr bytes => exact .writeBytes

/-- What an access finds depends on the bytes that it touches. -/
theorem found_congr (h : m.AgreeOn m' x.addr.toNat (x.addr.toNat + x.len)) :
    x.found m' = x.found m := by
  cases x with
  | read16 addr => exact congrArg Found.word16 (h.word16 (Nat.le_refl _) (Nat.le_refl _))
  | read32 addr => exact congrArg Found.word32 (h.word32 (Nat.le_refl _) (Nat.le_refl _))
  | readBytes addr len => exact congrArg Found.bytes (h.slice (Nat.le_refl _) (Nat.le_refl _))
  | _ => rfl

/-! ## Two accesses -/

namespace Apart

theorem symm (h : x.Apart y) : y.Apart x :=
  fun a touches touched => h a touched touches

/-- An access does not notice another one elsewhere. -/
theorem unnoticed (h : x.Apart y) (m : Memory) :
    (y.onCells (x.onCells m).2).1 = (y.onCells m).1 := by
  have sameWindow := refused_congr (x := y) (x.base_onCells m) (x.size_onCells m)
  have untouched : m.AgreeOn (x.onCells m).2 y.addr.toNat (y.addr.toNat + y.len) := by
    intro a lower upper
    have elsewhere : x.stored? a = none :=
      stored?_of_not_touches fun touches => h a touches ⟨lower, upper⟩
    rw [byteAt_onCells, elsewhere, ite_self, Option.getD_none]
  by_cases refused : y.Refused m
  · rw [onCells_of_refused refused, onCells_of_refused (sameWindow.mpr refused)]
  · rw [onCells_of_not_refused refused, onCells_of_not_refused (mt sameWindow.mp refused),
      found_congr untouched]

theorem commutes (h : x.Apart y) (m : Memory) : x.Commutes y m := by
  refine ⟨h.symm.unnoticed m, h.unnoticed m, eq_of_byteAt ?_ ?_ fun a => ?_⟩
  · simp only [base_onCells]
  · simp only [size_onCells]
  · have sameForX := refused_congr (x := x) (y.base_onCells m) (y.size_onCells m)
    have sameForY := refused_congr (x := y) (x.base_onCells m) (x.size_onCells m)
    simp only [byteAt_onCells, sameForX, sameForY]
    -- At most one of the two writes there.
    by_cases touches : x.Touches a
    · rw [stored?_of_not_touches (h a touches), ite_self, Option.getD_none, Option.getD_none]
    · rw [stored?_of_not_touches touches, ite_self, Option.getD_none, Option.getD_none]

end Apart

end Access

/-! ## Any number of accesses -/

/-- The memory after accesses, one after the other. -/
def accessed (m : Memory) (xs : List Access) : Memory :=
  xs.foldl (fun m x => (x.onCells m).2) m

/-- The byte that was last written at an address, if any of the accesses that were not refused wrote
there. -/
def lastStored? (m : Memory) (xs : List Access) (a : Nat) : Option UInt8 :=
  xs.reverse.findSome? fun x => if x.Refused m then none else x.stored? a

/-- The byte at an address as the accesses leave it. -/
def contents (m : Memory) (xs : List Access) (a : Nat) : UInt8 :=
  (m.lastStored? xs a).getD (m.byteAt a)

theorem accessed_concat (m : Memory) (xs : List Access) (x : Access) :
    m.accessed (xs ++ [x]) = (x.onCells (m.accessed xs)).2 := by
  rw [accessed, List.foldl_append]
  rfl

theorem contents_concat (m : Memory) (xs : List Access) (x : Access) (a : Nat) :
    m.contents (xs ++ [x]) a =
      (if x.Refused m then none else x.stored? a).getD (m.contents xs a) := by
  rw [contents, lastStored?, List.reverse_concat, List.findSome?_cons]
  cases (if x.Refused m then none else x.stored? a) with
  | none => rfl
  | some b => rfl

/-- The window stays as it is. -/
theorem window_accessed (m : Memory) (xs : List Access) :
    (m.accessed xs).base = m.base ∧ (m.accessed xs).size = m.size := by
  induction xs using List.reverseRecOn with
  | nil => exact ⟨rfl, rfl⟩
  | append_singleton xs x ih =>
    rw [accessed_concat, Access.base_onCells, Access.size_onCells]
    exact ih

theorem refused_accessed {xs : List Access} : x.Refused (m.accessed xs) ↔ x.Refused m :=
  Access.refused_congr (m.window_accessed xs).1 (m.window_accessed xs).2

theorem byteAt_accessed (m : Memory) (xs : List Access) (a : Nat) :
    (m.accessed xs).byteAt a = m.contents xs a := by
  induction xs using List.reverseRecOn with
  | nil => rfl
  | append_singleton xs x ih =>
    rw [accessed_concat, Access.byteAt_onCells, contents_concat, ih]
    simp only [refused_accessed]

/-- Whatever was read and written before, each byte is the one that was last written to it, or the
one that it was at first. An access is refused if and only if it begins below the window or goes
beyond its end, and then it changes nothing; else it finds what those bytes tell. Accesses that have
no address in common can change places. All this is what the bus does with the memory. -/
theorem memory_tells_last_written (m : Memory) (before : List Access) :
    (∀ a, (m.accessed before).byteAt a = m.contents before a) ∧
    (∀ x : Access, x.Refused m →
      x.onCells (m.accessed before) = (.error .outsideMemory, m.accessed before)) ∧
    (∀ x : Access, ¬ x.Refused m → ∃ found, x.Tells (m.contents before) found ∧
      (x.onCells (m.accessed before)).1 = .ok found) ∧
    (∀ x y : Access, x.Apart y → x.Commutes y (m.accessed before)) ∧
    ∀ (x : Access) (bus : Bus), bus.memory = m.accessed before →
      x.onCells (m.accessed before) = match x.onBus bus with
        | .ok (found, bus') => (.ok found, bus'.memory)
        | .error fault => (.error fault, bus.memory) := by
  refine ⟨m.byteAt_accessed before, ?_, ?_, fun x y apart => apart.commutes _, ?_⟩
  · intro x refused
    exact Access.onCells_of_refused (refused_accessed.mpr refused)
  · intro x admitted
    have here : ¬ x.Refused (m.accessed before) := mt refused_accessed.mp admitted
    have told := x.tells_found (m.accessed before)
    rw [funext (m.byteAt_accessed before)] at told
    exact ⟨_, told, congrArg Prod.fst (Access.onCells_of_not_refused here)⟩
  · intro x bus same
    rw [← same]
    exact x.onCells_eq_onBus bus

/-- Two writes that overlap, and one that would go beyond the end. -/
def overlappingWrites : List Access :=
  [.write32 0x1001 0x11223344, .write16 0x1007 0xBEEF, .writeBytes 0x1003 [0xAA]]

/-- A word that is read across both writes and what was there at first. -/
theorem memory_tells_overlapping :
    (Access.write16 0x1007 0xBEEF).Refused (filled 0x1000 8 0xFF) ∧
      ¬ (Access.read32 0x1002).Refused (filled 0x1000 8 0xFF) ∧
      ((Access.read32 0x1002).onCells ((filled 0x1000 8 0xFF).accessed overlappingWrites)).1 =
        .ok (.word32 0xFF11AA33) := by
  have admitted : ¬ (Access.read32 0x1002).Refused (filled 0x1000 8 0xFF) := by decide
  obtain ⟨-, -, finds, -⟩ := memory_tells_last_written (filled 0x1000 8 0xFF) overlappingWrites
  obtain ⟨found, told, run⟩ := finds _ admitted
  cases told with
  | read32 value =>
    obtain rfl := UInt32.toNat_inj.mp (value.trans (show _ = (0xFF11AA33 : UInt32).toNat by decide))
    exact ⟨by decide, admitted, run⟩

end Memory

end InterCore
