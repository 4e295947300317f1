import InterCore.Proofs.Memory.Replay
import InterCore.Ring.Layout
import Mathlib.Data.Nat.ModEq
import Mathlib.Data.Nat.Prime.Basic

/-!
# The areas of a ring

Where the parts of a ring lie to each other: descriptors, then the available ring, then the used
ring, with no overlap. The entries of as many successive indices as the ring has descriptors stand
in different slots, also where the index wraps, because the size of a ring divides the number of
16-bit indices.
-/

namespace InterCore.Ring

theorem le_roundUp (n : Nat) {align : Nat} (h : 0 < align) : n ≤ roundUp n align := by
  have split := Nat.div_add_mod (n + align - 1) align
  have rest := Nat.mod_lt (n + align - 1) h
  rw [Nat.mul_comm] at split
  unfold roundUp
  omega

theorem dvd_roundUp (n align : Nat) : align ∣ roundUp n align :=
  Nat.dvd_mul_left _ _

theorem roundUp_lt (n : Nat) {align : Nat} (h : 0 < align) : roundUp n align < n + align := by
  have below := Nat.div_mul_le_self (n + align - 1) align
  unfold roundUp
  omega

/-- There is no multiple in between. -/
theorem roundUp_le {n align a : Nat} (multiple : align ∣ a) (above : n ≤ a) : roundUp n align ≤ a := by
  obtain ⟨k, rfl⟩ := multiple
  rcases Nat.eq_zero_or_pos align with rfl | positive
  · simp [roundUp]
  · have few : (n + align - 1) / align < k + 1 := by
      rw [Nat.div_lt_iff_lt_mul positive, Nat.add_mul, Nat.one_mul, Nat.mul_comm k]
      omega
    rw [roundUp, Nat.mul_comm]
    exact Nat.mul_le_mul_left align (Nat.le_of_lt_succ few)

/-- Whole multiples in front of a number do not count. -/
theorem roundUp_add {align a : Nat} (multiple : align ∣ a) (n : Nat) :
    roundUp (a + n) align = a + roundUp n align := by
  obtain ⟨k, rfl⟩ := multiple
  rcases Nat.eq_zero_or_pos align with rfl | positive
  · simp [roundUp]
  · have split : align * k + n + align - 1 = n + align - 1 + align * k := by omega
    rw [roundUp, split, Nat.add_mul_div_left _ _ positive, Nat.add_mul, Nat.mul_comm k,
      Nat.add_comm, roundUp]

/-- A multiple stays, and otherwise what is missing is added. -/
theorem roundUp_eq (n : Nat) {align : Nat} (h : 0 < align) :
    roundUp n align = if n % align = 0 then n else n + (align - n % align) := by
  have rest := Nat.mod_lt n h
  have split := Nat.div_add_mod n align
  split
  case isTrue whole =>
    exact Nat.le_antisymm (roundUp_le (Nat.dvd_of_mod_eq_zero whole) (Nat.le_refl n))
      (le_roundUp n h)
  case isFalse broken =>
    have next : n + align - 1 = n % align - 1 + align * (n / align + 1) := by
      rw [Nat.mul_add, Nat.mul_one]
      omega
    have none : (n % align - 1) / align = 0 := Nat.div_eq_of_lt (by omega)
    rw [roundUp, next, Nat.add_mul_div_left _ _ h, none, Nat.zero_add, Nat.add_mul, Nat.one_mul,
      Nat.mul_comm]
    omega

/-- The sizes that a ring may have are the numbers that divide the number of 16-bit indices. -/
theorem isPowerOfTwo_iff_dvd (num : UInt16) : num.toNat.isPowerOfTwo ↔ num.toNat ∣ 2 ^ 16 := by
  rw [Nat.dvd_prime_pow Nat.prime_two]
  constructor
  · rintro ⟨k, eq⟩
    have few : 2 ^ k < 2 ^ 16 := eq ▸ num.toNat_lt
    exact ⟨k, ((Nat.pow_lt_pow_iff_right (by decide)).mp few).le, eq⟩
  · rintro ⟨k, -, eq⟩
    exact ⟨k, eq⟩

namespace Layout

variable {l : Layout} {m : Memory} {a len : Nat}

theorem num_pos (l : Layout) : 0 < l.num.toNat :=
  Nat.pos_of_isPowerOfTwo l.powerOfTwo

/-- The exponent of a ring's size. -/
theorem exists_num_eq (l : Layout) : ∃ k ≤ 15, l.num.toNat = 2 ^ k := by
  obtain ⟨k, hk⟩ := l.powerOfTwo
  refine ⟨k, ?_, hk⟩
  have bound : 2 ^ k < 2 ^ 16 := hk ▸ l.num.toNat_lt
  have := (Nat.pow_lt_pow_iff_right (by decide : 1 < 2)).mp bound
  omega

theorem num_le (l : Layout) : l.num.toNat ≤ 32768 := by
  obtain ⟨k, hk, eq⟩ := l.exists_num_eq
  rw [eq]
  exact Nat.pow_le_pow_right (by decide) hk

theorem num_dvd_span (l : Layout) : l.num.toNat ∣ 2 ^ 16 :=
  (isPowerOfTwo_iff_dvd l.num).mp l.powerOfTwo

theorem slot_lt (l : Layout) (idx : UInt16) : l.slot idx < l.num.toNat :=
  Nat.mod_lt _ l.num_pos

/-- An index that has wrapped still stands in the slot of the number it counts. -/
theorem slot_add (l : Layout) (start : UInt16) (k : Nat) :
    l.slot (start + UInt16.ofNat k) = (start.toNat + k) % l.num.toNat := by
  rw [slot, UInt16.toNat_add, UInt16.toNat_ofNat', Nat.mod_mod_of_dvd _ l.num_dvd_span,
    Nat.add_mod, Nat.mod_mod_of_dvd _ l.num_dvd_span, ← Nat.add_mod]

/-- Fewer successive indices than the ring has descriptors stand in different slots. -/
theorem slot_add_ne (l : Layout) (start : UInt16) {i j : Nat} (hi : i < l.num.toNat)
    (hj : j < l.num.toNat) (different : i ≠ j) :
    l.slot (start + UInt16.ofNat i) ≠ l.slot (start + UInt16.ofNat j) := by
  rw [slot_add, slot_add]
  intro same
  have cancelled : i ≡ j [MOD l.num.toNat] := Nat.ModEq.add_left_cancel' start.toNat same
  exact different (Nat.ModEq.eq_of_lt_of_lt cancelled hi hj)

theorem slot_eq_iff {i j : UInt16} : l.slot i = l.slot j ↔ i.toNat ≡ j.toNat [MOD l.num.toNat] :=
  Iff.rfl

/-- Behind the last slot comes the first. -/
theorem slot_succ (l : Layout) (i : UInt16) :
    l.slot (i + 1) = if l.slot i + 1 = l.num.toNat then 0 else l.slot i + 1 := by
  have below := l.slot_lt i
  have next : l.slot (i + 1) = (l.slot i + 1) % l.num.toNat :=
    (l.slot_add i 1).trans (Nat.mod_add_mod _ _ _).symm
  rw [next]
  split
  case isTrue last => rw [last, Nat.mod_self]
  case isFalse inside => exact Nat.mod_eq_of_lt (by omega)

/-! ## Bounds of the areas -/

theorem avail_eq (l : Layout) : l.avail = l.base.toNat + 16 * l.num.toNat := rfl

theorem availFlagsAddr_eq (l : Layout) : l.availFlagsAddr = l.avail := rfl

theorem availIdxAddr_eq (l : Layout) : l.availIdxAddr = l.avail + 2 := rfl

theorem usedFlagsAddr_eq (l : Layout) : l.usedFlagsAddr = l.used := rfl

theorem usedIdxAddr_eq (l : Layout) : l.usedIdxAddr = l.used + 2 := rfl

theorem ringEnd_eq (l : Layout) : l.ringEnd = l.used + 4 + 8 * l.num.toNat := rfl

/-- The available ring ends before the used ring starts. -/
theorem avail_add_le_used (l : Layout) : l.avail + 4 + 2 * l.num.toNat + 2 ≤ l.used :=
  le_roundUp l.availEnd (by decide)

theorem base_add_len (l : Layout) : l.base.toNat + l.len = l.ringEnd := by
  have := l.avail_eq
  have := l.avail_add_le_used
  have := l.ringEnd_eq
  unfold Place.len
  omega

/-- A descriptor of the ring lies before the available ring. -/
theorem descriptor_bounds {idx : UInt16} (h : idx.toNat < l.num.toNat) :
    l.base.toNat ≤ l.descriptorAddr idx ∧ l.descriptorAddr idx + 16 ≤ l.avail := by
  have := l.avail_eq
  unfold descriptorAddr descriptorSize
  omega

/-- An available entry lies behind the index of the available ring and before the used ring. -/
theorem availEntry_bounds (l : Layout) (idx : UInt16) :
    l.avail + 4 ≤ l.availEntryAddr idx ∧ l.availEntryAddr idx + 2 ≤ l.used := by
  have := l.slot_lt idx
  have := l.avail_add_le_used
  unfold availEntryAddr
  omega

/-- A used entry lies behind the index of the used ring and before the end of the ring. -/
theorem usedEntry_bounds (l : Layout) (idx : UInt16) :
    l.used + 4 ≤ l.usedEntryAddr idx ∧ l.usedEntryAddr idx + 8 ≤ l.ringEnd := by
  have := l.slot_lt idx
  have := l.ringEnd_eq
  unfold usedEntryAddr usedElemSize
  omega

/-- Entries of different slots of the available ring do not overlap. -/
theorem availEntry_apart {i j : UInt16} (h : l.slot i ≠ l.slot j) :
    l.availEntryAddr i + 2 ≤ l.availEntryAddr j ∨ l.availEntryAddr j + 2 ≤ l.availEntryAddr i := by
  unfold availEntryAddr
  omega

/-- Entries of different slots of the used ring do not overlap. -/
theorem usedEntry_apart {i j : UInt16} (h : l.slot i ≠ l.slot j) :
    l.usedEntryAddr i + 8 ≤ l.usedEntryAddr j ∨ l.usedEntryAddr j + 8 ≤ l.usedEntryAddr i := by
  unfold usedEntryAddr usedElemSize
  omega

/-! ## Rings within a window -/

/-- The ring lies within the window of a memory. -/
def Within (l : Layout) (m : Memory) : Prop :=
  m.base.toNat ≤ l.base.toNat ∧ l.ringEnd ≤ m.base.toNat + m.size

theorem Within.patch (h : l.Within m) (addr : Nat) (data : List UInt8) :
    l.Within (m.patch addr data) := by
  simpa only [Within, Memory.base_patch, Memory.size_patch] using h

theorem Within.after {bus : Bus} (h : l.Within bus.memory) (es : List Event) :
    l.Within (bus.after es).memory := by
  simpa only [Within, Bus.base_after, Bus.size_after] using h

theorem Within.replay (h : l.Within m) (es : List Event) : l.Within (m.after es) := by
  simpa only [Within, Memory.base_after, Memory.size_after] using h

/-- The memory covers what lies between the start and the end of the ring. -/
theorem Within.covers (h : l.Within m) (lower : l.base.toNat ≤ a) (upper : a + len ≤ l.ringEnd) :
    m.Covers a len := by
  obtain ⟨start, stop⟩ := h
  have := l.inAddressSpace
  refine ⟨by omega, by omega, by omega⟩

/-- The memory covers what lies between the start of the available ring and the end of the ring. -/
theorem Within.covers_rings (h : l.Within m) (lower : l.avail ≤ a) (upper : a + len ≤ l.ringEnd) :
    m.Covers a len := by
  have := l.avail_eq
  exact h.covers (by omega) upper

theorem Within.covers_availFlags (h : l.Within m) : m.Covers l.availFlagsAddr 2 := by
  have := l.avail_add_le_used
  exact h.covers_rings (by rw [availFlagsAddr_eq]) (by rw [availFlagsAddr_eq, ringEnd_eq]; omega)

theorem Within.covers_availIdx (h : l.Within m) : m.Covers l.availIdxAddr 2 := by
  have := l.avail_add_le_used
  exact h.covers_rings (by rw [availIdxAddr_eq]; omega)
    (by rw [availIdxAddr_eq, ringEnd_eq]; omega)

theorem Within.covers_availEntry (h : l.Within m) (idx : UInt16) :
    m.Covers (l.availEntryAddr idx) 2 := by
  have := l.availEntry_bounds idx
  exact h.covers_rings (by omega) (by rw [ringEnd_eq]; omega)

theorem Within.covers_usedFlags (h : l.Within m) : m.Covers l.usedFlagsAddr 2 := by
  have := l.avail_add_le_used
  exact h.covers_rings (by rw [usedFlagsAddr_eq]; omega)
    (by rw [usedFlagsAddr_eq, ringEnd_eq]; omega)

theorem Within.covers_usedIdx (h : l.Within m) : m.Covers l.usedIdxAddr 2 := by
  have := l.avail_add_le_used
  exact h.covers_rings (by rw [usedIdxAddr_eq]; omega)
    (by rw [usedIdxAddr_eq, ringEnd_eq]; omega)

/-- Both words of a used entry. -/
theorem Within.covers_usedEntry (h : l.Within m) (idx : UInt16) {offset : Nat}
    (fits : offset + 4 ≤ 8) : m.Covers (l.usedEntryAddr idx + offset) 4 := by
  have := l.usedEntry_bounds idx
  have := l.avail_add_le_used
  exact h.covers_rings (by omega) (by omega)

/-- Every field of a descriptor. -/
theorem Within.covers_descriptor (h : l.Within m) {idx : UInt16} (inRing : idx.toNat < l.num.toNat)
    {offset : Nat} (fits : offset + len ≤ 16) : m.Covers (l.descriptorAddr idx + offset) len := by
  have := descriptor_bounds inRing
  have := l.avail_add_le_used
  exact h.covers (by omega) (by rw [ringEnd_eq]; omega)

end Layout

end InterCore.Ring
