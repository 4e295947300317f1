import InterCore.Proofs.Ring.Areas
import InterCore.Ring.Descriptor
import Mathlib.Data.List.Pairwise

/-!
# The words of a ring

The parts of a ring follow each other without overlap between its start and its end
(`Layout.inOrder`). Every word that is read or written lies in the part it belongs to, and is
aligned to its size where the ring starts at a multiple of sixteen (`Layout.HasWord.placed`).

While the number of an entry is counted up through all 16-bit values, its address goes round in a
circle, and takes every step of it also where the number wraps (`Layout.Circle`).
-/

namespace InterCore.Ring

/-- A part of a ring. -/
inductive Region where
  | descriptors
  | availFlags
  | availIdx
  | availEntries
  | event
  | usedFlags
  | usedIdx
  | usedEntries
  deriving DecidableEq, Repr

namespace Region

/-- The parts in the order in which they follow each other. -/
def all : List Region :=
  [descriptors, availFlags, availIdx, availEntries, event, usedFlags, usedIdx, usedEntries]

/-- The first address of a part. -/
def start (l : Layout) : Region → Nat
  | descriptors => l.base.toNat
  | availFlags => l.avail
  | availIdx => l.avail + 2
  | availEntries => l.avail + 4
  | event => l.avail + 4 + 2 * l.num.toNat
  | usedFlags => l.used
  | usedIdx => l.used + 2
  | usedEntries => l.used + 4

/-- Number of bytes of a part. -/
def size (l : Layout) : Region → Nat
  | descriptors => descriptorSize * l.num.toNat
  | availFlags | availIdx | event | usedFlags | usedIdx => 2
  | availEntries => 2 * l.num.toNat
  | usedEntries => usedElemSize * l.num.toNat

/-- The first address behind a part. -/
def stop (l : Layout) (region : Region) : Nat :=
  region.start l + region.size l

/-- No byte belongs to both parts. -/
def Disjoint (l : Layout) (a b : Region) : Prop :=
  a.stop l ≤ b.start l ∨ b.stop l ≤ a.start l

/-- Two parts are apart in either order. -/
instance (l : Layout) : Std.Symm (Region.Disjoint l) :=
  ⟨fun _ _ => Or.symm⟩

theorem mem_all (region : Region) : region ∈ all := by
  cases region <;> decide

end Region

namespace Layout

variable {l : Layout} {region : Region} {addr size : Nat}

/-- The parts of a ring follow each other, fill it from its start to its end up to the padding, and
the padding is as short as a used ring on a page allows. -/
structure InOrder (l : Layout) : Prop where
  apart : Region.all.Pairwise fun a b => a.stop l ≤ b.start l
  starts : Region.descriptors.start l = l.base.toNat
  within : ∀ region : Region, l.base.toNat ≤ region.start l ∧ region.stop l ≤ l.base.toNat + l.len
  stops : Region.usedEntries.stop l = l.base.toNat + l.len
  onPage : usedAlign ∣ Region.usedFlags.start l
  behind : Region.event.stop l ≤ Region.usedFlags.start l
  first : ∀ page, usedAlign ∣ page → Region.event.stop l ≤ page → Region.usedFlags.start l ≤ page

theorem inOrder (l : Layout) : l.InOrder := by
  have availEq := l.avail_eq
  have order := l.avail_add_le_used
  have ends : l.used + 4 + 8 * l.num.toNat = l.base.toNat + l.len :=
    l.ringEnd_eq.symm.trans l.base_add_len.symm
  refine ⟨?_, rfl, ?_, ends, dvd_roundUp _ _, order, fun page onPage behind => ?_⟩
  · simp only [Region.all, List.pairwise_cons, List.forall_mem_cons, List.not_mem_nil,
      IsEmpty.forall_iff, implies_true, List.Pairwise.nil, and_true, Region.stop, Region.start,
      Region.size, descriptorSize]
    omega
  · intro region
    cases region <;>
      simp only [Region.stop, Region.start, Region.size, descriptorSize, usedElemSize] <;>
      omega
  · exact roundUp_le onPage behind

theorem InOrder.disjoint (h : l.InOrder) {a b : Region} (different : a ≠ b) :
    Region.Disjoint l a b := by
  have apart : Region.all.Pairwise (Region.Disjoint l) := h.apart.imp Or.inl
  exact apart.forall a.mem_all b.mem_all different

/-- A word of a ring: the part it belongs to, its address and its size. -/
inductive HasWord (l : Layout) : Region → Nat → Nat → Prop
  | bufferAddr {idx : UInt16} (inRing : idx.toNat < l.num.toNat) :
      l.HasWord .descriptors (l.descriptorAddr idx + Descriptor.addrOffset) 4
  | bufferAddrHigh {idx : UInt16} (inRing : idx.toNat < l.num.toNat) :
      l.HasWord .descriptors (l.descriptorAddr idx + Descriptor.addrHighOffset) 4
  | bufferLen {idx : UInt16} (inRing : idx.toNat < l.num.toNat) :
      l.HasWord .descriptors (l.descriptorAddr idx + Descriptor.lenOffset) 4
  | flags {idx : UInt16} (inRing : idx.toNat < l.num.toNat) :
      l.HasWord .descriptors (l.descriptorAddr idx + Descriptor.flagsOffset) 2
  | next {idx : UInt16} (inRing : idx.toNat < l.num.toNat) :
      l.HasWord .descriptors (l.descriptorAddr idx + Descriptor.nextOffset) 2
  | availFlags : l.HasWord .availFlags l.availFlagsAddr 2
  | availIdx : l.HasWord .availIdx l.availIdxAddr 2
  | availEntry (idx : UInt16) : l.HasWord .availEntries (l.availEntryAddr idx) 2
  | event : l.HasWord .event (l.avail + 4 + 2 * l.num.toNat) 2
  | usedFlags : l.HasWord .usedFlags l.usedFlagsAddr 2
  | usedIdx : l.HasWord .usedIdx l.usedIdxAddr 2
  | usedId (idx : UInt16) : l.HasWord .usedEntries (l.usedEntryAddr idx + UsedElem.idOffset) 4
  | usedLen (idx : UInt16) : l.HasWord .usedEntries (l.usedEntryAddr idx + UsedElem.lenOffset) 4

/-- A word lies in its part, aligned to its size. -/
structure Placed (l : Layout) (region : Region) (addr size : Nat) : Prop where
  lower : region.start l ≤ addr
  upper : addr + size ≤ region.stop l
  aligned : size ∣ addr

theorem HasWord.placed (aligned : 16 ∣ l.base.toNat) (word : l.HasWord region addr size) :
    l.Placed region addr size := by
  have availEq := l.avail_eq
  have onPage : 4096 ∣ l.used := dvd_roundUp _ _
  cases word with
  | bufferAddr | bufferAddrHigh | bufferLen | flags | next =>
    constructor <;>
      simp only [Region.stop, Region.start, Region.size, descriptorAddr, descriptorSize,
        Descriptor.addrOffset, Descriptor.addrHighOffset, Descriptor.lenOffset,
        Descriptor.flagsOffset, Descriptor.nextOffset] <;>
      omega
  | event => exact ⟨Nat.le_refl _, Nat.le_refl _, by omega⟩
  | availFlags | availIdx | usedFlags | usedIdx =>
    constructor <;>
      simp only [Region.stop, Region.start, Region.size, availFlagsAddr_eq, availIdxAddr_eq,
        usedFlagsAddr_eq, usedIdxAddr_eq] <;>
      omega
  | availEntry idx =>
    have slot := l.slot_lt idx
    constructor <;> simp only [Region.stop, Region.start, Region.size, availEntryAddr] <;> omega
  | usedId idx | usedLen idx =>
    have slot := l.slot_lt idx
    constructor <;>
      simp only [Region.stop, Region.start, Region.size, usedEntryAddr, usedElemSize,
        UsedElem.idOffset, UsedElem.lenOffset] <;>
      omega

/-! ## Entries in a circle -/

/-- The entries of a part, counted through all 16-bit numbers, go round in a circle: behind the last
entry of the part comes the first. -/
structure Circle (l : Layout) (region : Region) (width : Nat) (entryAddr : UInt16 → Nat) : Prop where
  starts : entryAddr 0 = region.start l
  eq_iff : ∀ i j, entryAddr i = entryAddr j ↔ i.toNat ≡ j.toNat [MOD l.num.toNat]
  succ : ∀ i, entryAddr (i + 1) =
    if entryAddr i + width = region.stop l then region.start l else entryAddr i + width

theorem slot_zero (l : Layout) : l.slot 0 = 0 :=
  Nat.zero_mod _

/-- Entries that stand side by side in their slots. -/
theorem circle_of_slots {width : Nat} {entryAddr : UInt16 → Nat} (positive : 0 < width)
    (fills : region.size l = width * l.num.toNat)
    (value : ∀ idx, entryAddr idx = region.start l + width * l.slot idx) :
    l.Circle region width entryAddr := by
  refine ⟨?_, fun i j => ?_, fun i => ?_⟩
  · rw [value, slot_zero, Nat.mul_zero, Nat.add_zero]
  · rw [value, value, Nat.add_left_cancel_iff, Nat.mul_right_inj positive.ne', slot_eq_iff]
  · have last : region.start l + width * l.slot i + width = region.stop l ↔
        l.slot i + 1 = l.num.toNat := by
      rw [Region.stop, fills, Nat.add_assoc, Nat.add_left_cancel_iff, ← Nat.mul_succ,
        Nat.mul_right_inj positive.ne']
    rw [value, value, l.slot_succ]
    simp only [last]
    split
    · rfl
    · rw [Nat.mul_succ, Nat.add_assoc]

theorem circle_availEntries (l : Layout) : l.Circle .availEntries 2 l.availEntryAddr :=
  circle_of_slots (by decide) rfl fun _ => rfl

theorem circle_usedEntries (l : Layout) : l.Circle .usedEntries usedElemSize l.usedEntryAddr :=
  circle_of_slots (by decide) rfl fun _ => rfl

end Layout

end InterCore.Ring
