import InterCore.Proofs.Ring.Events
import InterCore.Proofs.Ring.Words

/-!
# Addresses in 32-bit words

A machine finds its way about a ring by sums and products of 32-bit words, none of which may
overflow. Where the ring ends below the top of the address space none does, and what the machine
computes is what the layout says (`Parts.compute?_eq_some`, `Parts.Reaches`). A ring with its parts
side by side and a page of padding below the top is such a ring (`Place.ringEnd_le`).
-/

namespace InterCore.Ring

/-! ## Words that do not overflow -/

variable {a b w : UInt32} {n : Nat}

/-- A number in a 32-bit word, if it has room there. -/
def word? (n : Nat) : Option UInt32 :=
  if n < UInt32.size then some (UInt32.ofNat n) else none

/-- A sum, if it is a 32-bit number. -/
def sum? (a b : UInt32) : Option UInt32 :=
  word? (a.toNat + b.toNat)

/-- A product, if it is a 32-bit number. -/
def product? (a b : UInt32) : Option UInt32 :=
  word? (a.toNat * b.toNat)

/-- A difference, if it is not below zero. -/
def difference? (a b : UInt32) : Option UInt32 :=
  if b ≤ a then some (a - b) else none

/-- The next multiple of `align`: a multiple stays, and otherwise what is missing is added. -/
def nextMultiple? (a align : UInt32) : Option UInt32 :=
  if a % align = 0 then some a else sum? a (align - a % align)

theorem word?_eq_some : word? n = some w ↔ w.toNat = n := by
  rw [word?]
  constructor
  · intro h
    split at h
    case isTrue room =>
      obtain rfl := Option.some.inj h
      exact UInt32.toNat_ofNat_of_lt' room
    case isFalse => cases h
  · rintro rfl
    rw [if_pos w.toNat_lt, UInt32.ofNat_toNat]

theorem sum?_eq_some : sum? a b = some w ↔ w.toNat = a.toNat + b.toNat :=
  word?_eq_some

theorem product?_eq_some : product? a b = some w ↔ w.toNat = a.toNat * b.toNat :=
  word?_eq_some

theorem difference?_eq_some : difference? a b = some w ↔ w.toNat + b.toNat = a.toNat := by
  rw [difference?]
  split
  case isTrue below =>
    have value := UInt32.toNat_sub_of_le _ _ below
    rw [UInt32.le_iff_toNat_le] at below
    rw [Option.some_inj, ← UInt32.toNat_inj, value]
    omega
  case isFalse above =>
    rw [UInt32.le_iff_toNat_le] at above
    simp only [reduceCtorEq, false_iff]
    omega

theorem nextMultiple?_eq_some (positive : 0 < b.toNat) :
    nextMultiple? a b = some w ↔ w.toNat = roundUp a.toNat b.toNat := by
  have rest : (a % b).toNat = a.toNat % b.toNat := UInt32.toNat_mod a b
  have few := Nat.mod_lt a.toNat positive
  have missing : (b - a % b).toNat = b.toNat - a.toNat % b.toNat := by
    rw [UInt32.toNat_sub_of_le, rest]
    rw [UInt32.le_iff_toNat_le, rest]
    exact few.le
  have whole : a % b = 0 ↔ a.toNat % b.toNat = 0 := by
    rw [← UInt32.toNat_inj, rest]
    rfl
  rw [nextMultiple?, roundUp_eq a.toNat positive]
  simp only [whole]
  split
  · rw [Option.some_inj, ← UInt32.toNat_inj, eq_comm]
  · rw [sum?_eq_some, missing]

/-- A number that is not larger than one below the top of the address space is in some word. -/
theorem exists_word {top : Nat} (room : top < UInt32.size) (within : n ≤ top) :
    ∃ w : UInt32, w.toNat = n :=
  ⟨UInt32.ofNat n, UInt32.toNat_ofNat_of_lt' (Nat.lt_of_le_of_lt within room)⟩

/-! ## The parts of a ring as a machine computes them -/

/-- A ring as a machine keeps it. -/
structure Parts where
  num : UInt16
  base : UInt32
  avail : UInt32
  used : UInt32
  len : UInt32
  deriving DecidableEq, Repr

namespace Parts

/-- The parts of a ring of `num` descriptors. There are none if a sum or a product overflows. -/
def compute? (base : UInt32) (num : UInt16) : Option Parts := do
  let avail ← sum? base (← product? num.toUInt32 16)
  let availSize ← sum? (← sum? 4 (← product? num.toUInt32 2)) 2
  let used ← nextMultiple? (← sum? avail availSize) 4096
  let usedSize ← sum? 4 (← product? num.toUInt32 8)
  let len ← difference? (← sum? used usedSize) base
  return { num, base, avail, used, len }

/-- The number of bytes of a ring that starts on a page. -/
def size? (num : UInt16) : Option UInt32 :=
  (compute? 0 num).map len

/-- The slot of entry number `idx` in either ring. -/
def slot (p : Parts) (idx : UInt16) : UInt32 :=
  (idx % p.num).toUInt32

/-- Address of descriptor `idx`, as the machine computes it. -/
def descriptorAddr? (p : Parts) (idx : UInt16) : Option UInt32 := do
  sum? p.base (← product? idx.toUInt32 16)

/-- Address of the available ring's flags, as the machine computes it. -/
def availFlagsAddr? (p : Parts) : Option UInt32 :=
  sum? p.avail 0

/-- Address of the available ring's index, as the machine computes it. -/
def availIdxAddr? (p : Parts) : Option UInt32 :=
  sum? p.avail 2

/-- Address of an entry of the available ring, as the machine computes it. -/
def availEntryAddr? (p : Parts) (idx : UInt16) : Option UInt32 := do
  sum? (← sum? p.avail 4) (← product? (p.slot idx) 2)

/-- Address of the used ring's flags, as the machine computes it. -/
def usedFlagsAddr? (p : Parts) : Option UInt32 :=
  sum? p.used 0

/-- Address of the used ring's index, as the machine computes it. -/
def usedIdxAddr? (p : Parts) : Option UInt32 :=
  sum? p.used 2

/-- Address of an entry of the used ring, as the machine computes it. -/
def usedEntryAddr? (p : Parts) (idx : UInt16) : Option UInt32 := do
  sum? (← sum? p.used 4) (← product? (p.slot idx) 8)

end Parts

/-- The machine has the numbers of a place. -/
structure Parts.Has (p : Parts) (place : Place) : Prop where
  num : p.num = place.num
  base : p.base = place.base
  avail : p.avail.toNat = place.avail
  used : p.used.toNat = place.used
  len : p.len.toNat = place.len

namespace Place

variable {place : Place}

theorem avail_eq (place : Place) : place.avail = place.base.toNat + 16 * place.num.toNat := rfl

theorem availEnd_eq (place : Place) :
    place.availEnd = place.avail + 4 + 2 * place.num.toNat + 2 := rfl

theorem used_eq (place : Place) : place.used = roundUp place.availEnd 4096 := rfl

theorem ringEnd_eq (place : Place) : place.ringEnd = place.used + 4 + 8 * place.num.toNat := rfl

theorem len_eq (place : Place) : place.len = place.ringEnd - place.base.toNat := rfl

theorem availEnd_le_used (place : Place) : place.availEnd ≤ place.used :=
  le_roundUp _ (by decide)

end Place

namespace Parts

variable {place : Place} {p : Parts}

/-- What the machine computes are the numbers of the place. -/
theorem has_of_compute? (h : compute? place.base place.num = some p) :
    place.ringEnd < UInt32.size ∧ p.Has place := by
  simp only [compute?, Option.bind_eq_bind, Option.bind_eq_some_iff, sum?_eq_some,
    product?_eq_some, difference?_eq_some, Option.pure_def, Option.some_inj,
    nextMultiple?_eq_some (b := 4096) (by decide), UInt16.toNat_toUInt32, UInt32.reduceToNat] at h
  obtain ⟨table, tableEq, avail, availSum, entries, entriesEq, head, headEq, availSize, sizeEq,
    availEnd, endSum, used, usedEq, elems, elemsEq, usedSize, usedSizeEq, stop, stopSum, len, lenSum,
    rfl⟩ := h
  have availHas : avail.toNat = place.avail := by
    rw [place.avail_eq]
    omega
  have ends : availEnd.toNat = place.availEnd := by
    rw [place.availEnd_eq]
    omega
  have usedHas : used.toNat = place.used := by rw [usedEq, ends, place.used_eq]
  have stops : stop.toNat = place.ringEnd := by
    rw [place.ringEnd_eq]
    omega
  refine ⟨stops ▸ stop.toNat_lt, rfl, rfl, availHas, usedHas, ?_⟩
  show len.toNat = place.len
  rw [place.len_eq]
  omega

/-- Nothing on the way is larger than the end of the ring. -/
theorem compute?_of_has (room : place.ringEnd < UInt32.size) (has : p.Has place) :
    compute? place.base place.num = some p := by
  have word {n : Nat} := exists_word (n := n) room
  have availEq := place.avail_eq
  have availEndEq := place.availEnd_eq
  have usedEq := place.used_eq
  have ringEndEq := place.ringEnd_eq
  have lenEq := place.len_eq
  have padding := place.availEnd_le_used
  obtain ⟨num, base, avail, used, len⟩ := p
  obtain ⟨rfl, rfl, availHas, usedHas, lenHas⟩ := has
  dsimp only at availHas usedHas lenHas
  obtain ⟨table, tableEq⟩ := word (n := place.num.toNat * 16) (by omega)
  obtain ⟨entries, entriesEq⟩ := word (n := place.num.toNat * 2) (by omega)
  obtain ⟨head, headEq⟩ := word (n := 4 + place.num.toNat * 2) (by omega)
  obtain ⟨availSize, sizeEq⟩ := word (n := 4 + place.num.toNat * 2 + 2) (by omega)
  obtain ⟨availEnd, endEq⟩ := word (n := place.availEnd) (by omega)
  obtain ⟨elems, elemsEq⟩ := word (n := place.num.toNat * 8) (by omega)
  obtain ⟨usedSize, usedSizeEq⟩ := word (n := 4 + place.num.toNat * 8) (by omega)
  obtain ⟨stop, stopEq⟩ := word (Nat.le_refl place.ringEnd)
  simp only [compute?, Option.bind_eq_bind, Option.bind_eq_some_iff, sum?_eq_some,
    product?_eq_some, difference?_eq_some, Option.pure_def, Option.some_inj,
    nextMultiple?_eq_some (b := 4096) (by decide), UInt16.toNat_toUInt32, UInt32.reduceToNat]
  refine ⟨table, tableEq, avail, by omega, entries, entriesEq, head, by omega, availSize, by omega,
    availEnd, by omega, used, ?_, elems, elemsEq, usedSize, by omega, stop, by omega, len, by omega,
    rfl⟩
  rw [usedHas, endEq, usedEq]

theorem compute?_eq_some :
    compute? place.base place.num = some p ↔ place.ringEnd < UInt32.size ∧ p.Has place :=
  ⟨has_of_compute?, fun h => compute?_of_has h.1 h.2⟩

/-- A ring of the default size, and a smaller one that leaves most of its first page unused. -/
example : compute? 0x3E800000 defaultSize =
      some ⟨defaultSize, 0x3E800000, 0x3E801000, 0x3E802000, 0x2804⟩ ∧
    compute? 0x1000 16 = some ⟨16, 0x1000, 0x1100, 0x2000, 0x1084⟩ := by
  decide

/-- The machine has words for a ring that ends below the top of the address space. -/
theorem exists_has (room : place.ringEnd < UInt32.size) : ∃ p : Parts, p.Has place := by
  have word {n : Nat} := exists_word (n := n) room
  have availEndEq := place.availEnd_eq
  have ringEndEq := place.ringEnd_eq
  have lenEq := place.len_eq
  have padding := place.availEnd_le_used
  obtain ⟨avail, availEq⟩ := word (n := place.avail) (by omega)
  obtain ⟨used, usedEq⟩ := word (n := place.used) (by omega)
  obtain ⟨len, lenEq⟩ := word (n := place.len) (by omega)
  exact ⟨⟨place.num, place.base, avail, used, len⟩, rfl, rfl, availEq, usedEq, lenEq⟩

end Parts

/-! ## The addresses that a machine computes -/

/-- A computation does not overflow, and comes to a number. -/
def ComesTo (computed : Option UInt32) (n : Nat) : Prop :=
  ∃ w, computed = some w ∧ w.toNat = n

namespace ComesTo

variable {x y : Option UInt32} {i j : Nat}

theorem sum (hx : ComesTo x i) (hy : ComesTo y j) (room : i + j < UInt32.size) :
    ComesTo (do sum? (← x) (← y)) (i + j) := by
  obtain ⟨a, rfl, rfl⟩ := hx
  obtain ⟨b, rfl, rfl⟩ := hy
  exact ⟨_, sum?_eq_some.mpr (UInt32.toNat_ofNat_of_lt' room), UInt32.toNat_ofNat_of_lt' room⟩

theorem product (a b : UInt32) (room : a.toNat * b.toNat < UInt32.size) :
    ComesTo (product? a b) (a.toNat * b.toNat) :=
  ⟨_, product?_eq_some.mpr (UInt32.toNat_ofNat_of_lt' room), UInt32.toNat_ofNat_of_lt' room⟩

theorem word (a : UInt32) : ComesTo (some a) a.toNat :=
  ⟨a, rfl, rfl⟩

theorem of_eq (h : ComesTo x i) (same : i = j) : ComesTo x j :=
  same ▸ h

end ComesTo

/-- The machine comes to every address of a ring that the layout names. -/
structure Parts.Reaches (p : Parts) (l : Layout) : Prop where
  descriptor : ∀ idx : UInt16, idx.toNat < l.num.toNat →
    ComesTo (p.descriptorAddr? idx) (l.descriptorAddr idx)
  descriptorField : ∀ (idx : UInt16) (offset : UInt32), idx.toNat < l.num.toNat →
    offset.toNat < descriptorSize →
      ComesTo (do sum? (← p.descriptorAddr? idx) offset) (l.descriptorAddr idx + offset.toNat)
  availFlags : ComesTo p.availFlagsAddr? l.availFlagsAddr
  availIdx : ComesTo p.availIdxAddr? l.availIdxAddr
  availEntry : ∀ idx, ComesTo (p.availEntryAddr? idx) (l.availEntryAddr idx)
  usedFlags : ComesTo p.usedFlagsAddr? l.usedFlagsAddr
  usedIdx : ComesTo p.usedIdxAddr? l.usedIdxAddr
  usedEntry : ∀ idx, ComesTo (p.usedEntryAddr? idx) (l.usedEntryAddr idx)
  usedField : ∀ (idx : UInt16) (offset : UInt32), offset.toNat < usedElemSize →
    ComesTo (do sum? (← p.usedEntryAddr? idx) offset) (l.usedEntryAddr idx + offset.toNat)

namespace Parts.Has

variable {p : Parts} {l : Layout}

theorem toNat_slot (has : p.Has l.toPlace) (idx : UInt16) : (p.slot idx).toNat = l.slot idx := by
  rw [Parts.slot, has.num, UInt16.toNat_toUInt32, UInt16.toNat_mod, Layout.slot]

/-- An entry of either ring, which stands behind the flags and the index. -/
theorem entry (has : p.Has l.toPlace) (start size : UInt32) (idx : UInt16)
    (room : start.toNat + 4 + l.slot idx * size.toNat < UInt32.size) :
    ComesTo (do sum? (← sum? start 4) (← product? (p.slot idx) size))
      (start.toNat + 4 + l.slot idx * size.toNat) := by
  rw [← has.toNat_slot] at room ⊢
  have head : ComesTo (sum? start 4) (start.toNat + 4) :=
    (ComesTo.word start).sum (ComesTo.word 4) (Nat.lt_of_add_right_lt room)
  exact head.sum (ComesTo.product _ _ (Nat.lt_of_add_left_lt room)) room

/-- The flags and the index, with which either ring begins. -/
theorem head {start : UInt32} {a : Nat} (value : start.toNat = a) (room : a + 2 < UInt32.size) :
    ComesTo (sum? start 0) a ∧ ComesTo (sum? start 2) (a + 2) := by
  subst value
  exact ⟨(ComesTo.word start).sum (ComesTo.word 0) start.toNat_lt,
    (ComesTo.word start).sum (ComesTo.word 2) room⟩

theorem reaches (has : p.Has l.toPlace) : p.Reaches l := by
  have base : p.base.toNat = l.base.toNat := congrArg UInt32.toNat has.base
  have avail : p.avail.toNat = l.avail := has.avail
  have used : p.used.toNat = l.used := has.used
  have top := l.inAddressSpace
  have stop := l.ringEnd_eq
  have order := l.avail_add_le_used
  have descriptor (idx : UInt16) (inRing : idx.toNat < l.num.toNat) :
      ComesTo (p.descriptorAddr? idx) (l.descriptorAddr idx) := by
    have bounds := Layout.descriptor_bounds inRing
    have value : p.base.toNat + idx.toUInt32.toNat * 16 = l.descriptorAddr idx := by
      rw [base, UInt16.toNat_toUInt32, Layout.descriptorAddr, descriptorSize, Nat.mul_comm]
    have room : p.base.toNat + idx.toUInt32.toNat * 16 < UInt32.size := by
      rw [value]
      omega
    exact ((ComesTo.word p.base).sum (ComesTo.product idx.toUInt32 16
      (Nat.lt_of_add_left_lt room)) room).of_eq value
  have usedEntry (idx : UInt16) : ComesTo (p.usedEntryAddr? idx) (l.usedEntryAddr idx) := by
    have bounds := l.usedEntry_bounds idx
    have value : p.used.toNat + 4 + l.slot idx * 8 = l.usedEntryAddr idx := by
      rw [used, Layout.usedEntryAddr, usedElemSize, Nat.mul_comm]
    exact (has.entry p.used 8 idx (value.trans_lt (by omega))).of_eq value
  have availEntry (idx : UInt16) : ComesTo (p.availEntryAddr? idx) (l.availEntryAddr idx) := by
    have bounds := l.availEntry_bounds idx
    have value : p.avail.toNat + 4 + l.slot idx * 2 = l.availEntryAddr idx := by
      rw [avail, Layout.availEntryAddr, Nat.mul_comm]
    exact (has.entry p.avail 2 idx (value.trans_lt (by omega))).of_eq value
  obtain ⟨availFlags, availIdx⟩ := head avail (by omega)
  obtain ⟨usedFlags, usedIdx⟩ := head used (by omega)
  refine ⟨descriptor, ?_, availFlags, availIdx, availEntry, usedFlags, usedIdx, usedEntry, ?_⟩
  · intro idx offset inRing within
    have bounds := Layout.descriptor_bounds inRing
    rw [descriptorSize] at within
    exact (descriptor idx inRing).sum (ComesTo.word offset) (by omega)
  · intro idx offset within
    have bounds := l.usedEntry_bounds idx
    rw [usedElemSize] at within
    exact (usedEntry idx).sum (ComesTo.word offset) (by omega)

end Parts.Has

/-! ## Rings with room for the padding -/

namespace Place

variable {place : Place}

/-- The padding is less than a page. -/
theorem ringEnd_le (place : Place) :
    place.ringEnd ≤ place.base.toNat + place.num.toNat * 16 + 2 * place.num.toNat + 6 + 4095 + 4 +
      8 * place.num.toNat := by
  have padding : place.used < place.availEnd + 4096 := roundUp_lt _ (by decide)
  have availEq := place.avail_eq
  have availEndEq := place.availEnd_eq
  have ringEndEq := place.ringEnd_eq
  omega

theorem byteSize_eq (num : UInt16) : byteSize num = Place.ringEnd ⟨0, num⟩ :=
  Nat.sub_zero _

/-- From one page to another a ring moves as it is. -/
theorem ringEnd_eq_add (onPage : usedAlign ∣ place.base.toNat) :
    place.ringEnd = place.base.toNat + byteSize place.num := by
  have used : place.used = place.base.toNat + Place.used ⟨0, place.num⟩ := by
    have ends : place.availEnd = place.base.toNat + Place.availEnd ⟨0, place.num⟩ := by
      simp only [availEnd, avail, UInt32.reduceToNat]
      omega
    rw [Place.used, ends, roundUp_add onPage, Place.used]
  rw [byteSize_eq, place.ringEnd_eq, used, Place.ringEnd_eq]
  dsimp only
  omega

end Place

/-- The size of a ring is what it takes from any page on. -/
theorem Parts.Has.size?_eq {p : Parts} {place : Place} (room : place.ringEnd < UInt32.size)
    (has : p.Has place) (onPage : usedAlign ∣ place.base.toNat) :
    place.len = byteSize place.num ∧ Parts.size? place.num = some p.len := by
  have moved := Place.ringEnd_eq_add onPage
  have len : place.len = byteSize place.num := by rw [place.len_eq, moved, Nat.add_sub_cancel_left]
  have below : Place.ringEnd ⟨0, place.num⟩ < UInt32.size := by
    rw [← Place.byteSize_eq]
    omega
  obtain ⟨q, atZero⟩ := Parts.exists_has below
  have same : q.len = p.len := UInt32.toNat_inj.mp (atZero.len.trans (has.len.trans len).symm)
  have computed : Parts.compute? 0 place.num = some q :=
    Parts.compute?_eq_some.mpr ⟨below, atZero⟩
  refine ⟨len, ?_⟩
  rw [Parts.size?, computed, Option.map_some, same]

/-- Where the parts of a ring side by side, with a page of padding, end below the top of the address
space, the ring can be there and no address in it overflows. -/
theorem layout_sound {base : UInt32} {num : UInt16} (powerOfTwo : num.toNat.isPowerOfTwo)
    (aligned : 16 ∣ base.toNat)
    (room : base.toNat + num.toNat * 16 + 2 * num.toNat + 6 + 4095 + 4 + 8 * num.toNat <
      UInt32.size) :
    ∃ (l : Layout) (p : Parts),
      Layout.place base num = .ok l ∧ l.toPlace = ⟨base, num⟩ ∧
      Parts.compute? base num = some p ∧ p.Has l.toPlace ∧ p.Reaches l ∧
      l.InOrder ∧ (∀ a b : Region, a ≠ b → Region.Disjoint l a b) ∧
      (∀ region addr size, l.HasWord region addr size → l.Placed region addr size) ∧
      l.Circle .availEntries 2 l.availEntryAddr ∧
      l.Circle .usedEntries usedElemSize l.usedEntryAddr ∧
      (usedAlign ∣ base.toNat → l.len = byteSize num ∧ Parts.size? num = some p.len) := by
  have below : Place.ringEnd ⟨base, num⟩ < UInt32.size :=
    Nat.lt_of_le_of_lt (Place.ringEnd_le ⟨base, num⟩) room
  obtain ⟨l, rfl, rfl⟩ : ∃ l : Layout, l.base = base ∧ l.num = num :=
    ⟨⟨⟨base, num⟩, powerOfTwo, below⟩, rfl, rfl⟩
  obtain ⟨p, has⟩ := Parts.exists_has l.inAddressSpace
  have computed : Parts.compute? l.base l.num = some p :=
    Parts.compute?_eq_some.mpr ⟨l.inAddressSpace, has⟩
  exact ⟨l, p, l.place_eq, rfl, computed, has, has.reaches, l.inOrder,
    fun _ _ => l.inOrder.disjoint, fun _ _ _ => Layout.HasWord.placed aligned,
    l.circle_availEntries, l.circle_usedEntries, has.size?_eq l.inAddressSpace⟩

/-- The largest ring, at the last place that has room for it. -/
theorem layout_sound_topmost :
    (32768 : UInt16).toNat.isPowerOfTwo ∧ 16 ∣ (4294111216 : UInt32).toNat ∧
      ∃ (l : Layout) (p : Parts),
        Layout.place 4294111216 32768 = .ok l ∧
        Parts.compute? 4294111216 32768 = some p ∧ p.Reaches l ∧ l.InOrder := by
  have powerOfTwo : (32768 : UInt16).toNat.isPowerOfTwo := ⟨15, by decide⟩
  have aligned : 16 ∣ (4294111216 : UInt32).toNat := by decide
  obtain ⟨l, p, placed, -, computed, -, reaches, inOrder, -⟩ :=
    layout_sound powerOfTwo aligned (by decide)
  exact ⟨powerOfTwo, aligned, l, p, placed, computed, reaches, inOrder⟩

end InterCore.Ring
