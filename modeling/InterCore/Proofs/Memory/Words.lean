import InterCore.Memory.Basic
import InterCore.Proofs.Bytes.Fields

/-!
# The words of a memory

A memory is seen as a function from addresses to bytes, zero outside the window. An access that
lies within the window reads a slice of that function or lays a patch over it, and a patch changes
nothing outside its own range. Words are read from slices, so what was written as a word is read
back, and a write elsewhere leaves the word alone.
-/

namespace InterCore

theorem getElem?_overlay (bytes : Array UInt8) (offset i : Nat) (data : List UInt8)
    (fits : offset + data.length ≤ bytes.size) :
    (overlay bytes offset data)[i]? =
      if offset ≤ i ∧ i < offset + data.length then data[i - offset]? else bytes[i]? := by
  induction data generalizing bytes offset with
  | nil =>
    have outside : ¬ (offset ≤ i ∧ i < offset + ([] : List UInt8).length) := by
      simp only [List.length_nil]
      omega
    rw [if_neg outside, overlay]
  | cons b rest ih =>
    simp only [List.length_cons] at fits
    rw [overlay, ih _ _ (by rw [Array.size_setIfInBounds]; omega), List.length_cons]
    by_cases first : i = offset
    · subst first
      have before : ¬ (i + 1 ≤ i ∧ i < i + 1 + rest.length) := by omega
      rw [if_neg before, if_pos (by omega), Nat.sub_self, List.getElem?_cons_zero,
        Array.getElem?_setIfInBounds_self_of_lt (by omega)]
    · by_cases later : offset ≤ i ∧ i < offset + (rest.length + 1)
      · have shift : i - offset = i - (offset + 1) + 1 := by omega
        rw [if_pos (by omega), if_pos later, shift, List.getElem?_cons_succ]
      · rw [if_neg (by omega), if_neg later, Array.getElem?_setIfInBounds_ne (Ne.symm first)]

namespace Memory

variable {m : Memory} {addr a len : Nat} {data : List UInt8}

/-- The byte at a bus address, zero outside the window. -/
def byteAt (m : Memory) (addr : Nat) : UInt8 :=
  if m.base.toNat ≤ addr then m.bytes[addr - m.base.toNat]?.getD 0 else 0

/-- The bytes from an address on. -/
def slice (m : Memory) (addr len : Nat) : List UInt8 :=
  (List.range len).map fun i => m.byteAt (addr + i)

/-- The memory with bytes laid over it at an address within the window. -/
def patch (m : Memory) (addr : Nat) (data : List UInt8) : Memory :=
  ⟨m.base, overlay m.bytes (addr - m.base.toNat) data⟩

@[simp]
theorem base_patch (m : Memory) (addr : Nat) (data : List UInt8) :
    (m.patch addr data).base = m.base := rfl

@[simp]
theorem size_patch (m : Memory) (addr : Nat) (data : List UInt8) :
    (m.patch addr data).size = m.size :=
  size_overlay _ _ _

@[simp]
theorem covers_patch : (m.patch addr data).Covers a len ↔ m.Covers a len := by
  simp only [Covers, base_patch, size_patch]

@[simp]
theorem length_slice (m : Memory) (addr len : Nat) : (m.slice addr len).length = len := by
  simp [slice]

/-- A slice in two parts. -/
theorem slice_add (m : Memory) (addr a b : Nat) :
    m.slice addr (a + b) = m.slice addr a ++ m.slice (addr + a) b := by
  simp only [slice, List.range_add, List.map_append, List.map_map]
  refine congrArg (_ ++ ·) (List.map_congr_left fun i _ => ?_)
  simp [Nat.add_assoc]

theorem read_eq (h : m.Covers addr len) : m.read addr len = .ok (m.slice addr len) := by
  obtain ⟨-, lower, upper⟩ := id h
  rw [read, if_pos h]
  apply congrArg Except.ok
  apply List.ext_getElem?
  intro i
  have start : m.base.toNat ≤ addr + i := by omega
  have index : addr + i - m.base.toNat = addr - m.base.toNat + i := by omega
  rw [Array.getElem?_toList, Array.getElem?_extract, slice, List.getElem?_map]
  rw [size] at upper
  by_cases hi : i < len
  · rw [if_pos (by omega), List.getElem?_range hi, Option.map_some, byteAt, if_pos start, index,
      Array.getElem?_eq_getElem (by omega), Option.getD_some]
  · rw [if_neg (by omega), List.getElem?_eq_none (by simp; omega), Option.map_none]

theorem write_eq (h : m.Covers addr data.length) :
    m.write addr data = .ok (m.patch addr data) := by
  rw [write, if_pos h]
  rfl

/-- A patch is seen on its own range and nowhere else. -/
theorem byteAt_patch (h : m.Covers addr data.length) :
    (m.patch addr data).byteAt a =
      if addr ≤ a ∧ a < addr + data.length then data[a - addr]?.getD 0 else m.byteAt a := by
  obtain ⟨-, lower, upper⟩ := h
  rw [size] at upper
  unfold byteAt patch
  by_cases below : m.base.toNat ≤ a
  · simp only [below, if_true]
    rw [getElem?_overlay _ _ _ _ upper]
    by_cases own : addr ≤ a ∧ a < addr + data.length
    · have index : a - m.base.toNat - (addr - m.base.toNat) = a - addr := by omega
      rw [if_pos (by omega), if_pos own, index]
    · rw [if_neg (by omega), if_neg own]
  · have outside : ¬ (addr ≤ a ∧ a < addr + data.length) := by omega
    simp only [below, if_false, outside]

theorem slice_patch_self (h : m.Covers addr data.length) :
    (m.patch addr data).slice addr data.length = data := by
  apply List.ext_getElem (length_slice _ _ _)
  intro i hi hd
  have own : addr ≤ addr + i ∧ addr + i < addr + data.length := by omega
  simp only [slice, List.getElem_map, List.getElem_range]
  rw [byteAt_patch h, if_pos own, Nat.add_sub_cancel_left, List.getElem?_eq_getElem hd,
    Option.getD_some]

/-- The 16-bit word at an address. -/
def word16 (m : Memory) (addr : Nat) : UInt16 :=
  LittleEndian.decode16 (m.slice addr 2)

/-- The 32-bit word at an address. -/
def word32 (m : Memory) (addr : Nat) : UInt32 :=
  LittleEndian.decode32 (m.slice addr 4)

/-- Two memories hold the same bytes from one address up to another. -/
def AgreeOn (m m' : Memory) (start stop : Nat) : Prop :=
  ∀ a, start ≤ a → a < stop → m'.byteAt a = m.byteAt a

section AgreeOn

variable {m' m'' : Memory} {start stop : Nat}

theorem AgreeOn.trans (h : AgreeOn m m' start stop) (h' : AgreeOn m' m'' start stop) :
    AgreeOn m m'' start stop :=
  fun a lower upper => (h' a lower upper).trans (h a lower upper)

theorem AgreeOn.symm (h : AgreeOn m m' start stop) : AgreeOn m' m start stop :=
  fun a lower upper => (h a lower upper).symm

theorem AgreeOn.mono {start' stop' : Nat} (h : AgreeOn m m' start stop) (lower : start ≤ start')
    (upper : stop' ≤ stop) : AgreeOn m m' start' stop' := by
  intro a ha hb
  exact h a (by omega) (by omega)

theorem AgreeOn.slice (h : AgreeOn m m' start stop) (lower : start ≤ a) (upper : a + len ≤ stop) :
    m'.slice a len = m.slice a len := by
  apply List.map_congr_left
  intro i hi
  rw [List.mem_range] at hi
  exact h (a + i) (by omega) (by omega)

theorem AgreeOn.word16 (h : AgreeOn m m' start stop) (lower : start ≤ a) (upper : a + 2 ≤ stop) :
    m'.word16 a = m.word16 a := by
  rw [Memory.word16, Memory.word16, h.slice lower upper]

theorem AgreeOn.word32 (h : AgreeOn m m' start stop) (lower : start ≤ a) (upper : a + 4 ≤ stop) :
    m'.word32 a = m.word32 a := by
  rw [Memory.word32, Memory.word32, h.slice lower upper]

/-- A patch is not seen outside its own range. -/
theorem agreeOn_patch (h : m.Covers addr data.length)
    (apart : addr + data.length ≤ start ∨ stop ≤ addr) :
    AgreeOn m (m.patch addr data) start stop := by
  intro a lower upper
  rw [byteAt_patch h, if_neg (by omega)]

end AgreeOn

theorem word16_patch_apart (h : m.Covers addr data.length)
    (apart : addr + data.length ≤ a ∨ a + 2 ≤ addr) :
    (m.patch addr data).word16 a = m.word16 a :=
  (agreeOn_patch h apart).word16 (Nat.le_refl _) (Nat.le_refl _)

theorem word32_patch_apart (h : m.Covers addr data.length)
    (apart : addr + data.length ≤ a ∨ a + 4 ≤ addr) :
    (m.patch addr data).word32 a = m.word32 a :=
  (agreeOn_patch h apart).word32 (Nat.le_refl _) (Nat.le_refl _)

theorem word16_patch_self (w : UInt16) (h : m.Covers addr 2) :
    (m.patch addr (LittleEndian.encode16 w)).word16 addr = w := by
  have covered : m.Covers addr (LittleEndian.encode16 w).length := by simpa using h
  have back : (m.patch addr (LittleEndian.encode16 w)).slice addr 2 = LittleEndian.encode16 w := by
    simpa using slice_patch_self covered
  rw [word16, back, LittleEndian.decode16_encode16]

theorem word32_patch_self (w : UInt32) (h : m.Covers addr 4) :
    (m.patch addr (LittleEndian.encode32 w)).word32 addr = w := by
  have covered : m.Covers addr (LittleEndian.encode32 w).length := by simpa using h
  have back : (m.patch addr (LittleEndian.encode32 w)).slice addr 4 = LittleEndian.encode32 w := by
    simpa using slice_patch_self covered
  rw [word32, back, LittleEndian.decode32_encode32]

end Memory

end InterCore
