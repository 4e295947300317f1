import InterCore.Bytes.Area
import InterCore.Bytes.LittleEndian

/-!
# Fields in byte strings

A message is words and areas at fixed offsets. What is written at an offset is read back from there,
and what is read there is what stands there, so a message and its bytes tell each other.
-/

namespace InterCore

/-! ## Areas -/

theorem Area.ofBytes_toList {n : Nat} (area : Area n) : Area.ofBytes n area.toList = area := by
  apply Vector.toArray_inj.mp
  show (fit n area.toList).toArray = area.toArray
  rw [fit_of_length Vector.length_toList, Vector.toList, Array.toArray_toList]

/-- What fits of a byte string, and zero bytes behind it. -/
theorem fit_eq (n : Nat) (bs : List UInt8) :
    fit n bs = bs.take n ++ List.replicate (n - bs.length) 0 := by
  induction n generalizing bs with
  | zero => simp [fit]
  | succ n ih =>
    cases bs with
    | nil => simp [fit, ih, List.replicate_succ]
    | cons b rest => simp [fit, ih]

theorem take_fit {n : Nat} (bs : List UInt8) (k : Nat) (within : k ≤ bs.length) (fits : k ≤ n) :
    (fit n bs).take k = bs.take k := by
  have inside : k ≤ (bs.take n).length := by
    rw [List.length_take]
    exact Nat.le_min.mpr ⟨fits, within⟩
  rw [fit_eq, List.take_append_of_le_length inside, List.take_take, Nat.min_eq_left fits]

/-- Nothing is missing of a byte string that is long enough. -/
theorem fit_of_le {n : Nat} {bs : List UInt8} (long : n ≤ bs.length) : fit n bs = bs.take n := by
  rw [fit_eq, Nat.sub_eq_zero_of_le long, List.replicate_zero, List.append_nil]

/-- An area does not see more bytes than it has. -/
theorem Area.ofBytes_take {n k : Nat} (within : n ≤ k) (bs : List UInt8) :
    Area.ofBytes n (bs.take k) = Area.ofBytes n bs := by
  apply Vector.toArray_inj.mp
  show (fit n (bs.take k)).toArray = (fit n bs).toArray
  have missing : n - min k bs.length = n - bs.length := by omega
  rw [fit_eq, fit_eq, List.take_take, Nat.min_eq_left within, List.length_take, missing]

namespace LittleEndian

variable {bs : List UInt8}

/-- The number that stands in a field of some bytes. -/
def fieldAt (bs : List UInt8) (offset size : Nat) : Nat :=
  value ((bs.drop offset).take size)

/-! ## Words that were written -/

theorem decode16_encode16 (w : UInt16) : decode16 (encode16 w) = w := by
  have whole : (encode16 w).take 2 = encode16 w := List.take_of_length_le (by simp)
  have fits : w.toNat % span 2 = w.toNat := Nat.mod_eq_of_lt w.toNat_lt
  rw [decode16, whole, encode16, value_digits, fits, UInt16.ofNat_toNat]

theorem decode32_encode32 (w : UInt32) : decode32 (encode32 w) = w := by
  have whole : (encode32 w).take 4 = encode32 w := List.take_of_length_le (by simp)
  have fits : w.toNat % span 4 = w.toNat := Nat.mod_eq_of_lt w.toNat_lt
  rw [decode32, whole, encode32, value_digits, fits, UInt32.ofNat_toNat]

theorem decode16_append (w : UInt16) (rest : List UInt8) : decode16 (encode16 w ++ rest) = w := by
  have first : (encode16 w ++ rest).take 2 = (encode16 w).take 2 :=
    List.take_append_of_le_length (by simp)
  rw [decode16, first]
  exact decode16_encode16 w

theorem decode32_append (w : UInt32) (rest : List UInt8) : decode32 (encode32 w ++ rest) = w := by
  have first : (encode32 w ++ rest).take 4 = (encode32 w).take 4 :=
    List.take_append_of_le_length (by simp)
  rw [decode32, first]
  exact decode32_encode32 w

theorem drop_encode16 (w : UInt16) (rest : List UInt8) (k : Nat) :
    (encode16 w ++ rest).drop (k + 2) = rest.drop k := by
  rw [Nat.add_comm, ← length_encode16 w, List.drop_length_add_append]

theorem drop_encode32 (w : UInt32) (rest : List UInt8) (k : Nat) :
    (encode32 w ++ rest).drop (k + 4) = rest.drop k := by
  rw [Nat.add_comm, ← length_encode32 w, List.drop_length_add_append]

/-- A number that was written stands in its bytes. -/
theorem value_take_digits (n v : Nat) (rest : List UInt8) :
    value ((digits n v ++ rest).take n) = v % span n := by
  rw [List.take_left' (length_digits n v), value_digits]

theorem value_take_encode16 (w : UInt16) (rest : List UInt8) :
    value ((encode16 w ++ rest).take 2) = w.toNat :=
  (value_take_digits 2 _ rest).trans (Nat.mod_eq_of_lt w.toNat_lt)

theorem value_take_encode32 (w : UInt32) (rest : List UInt8) :
    value ((encode32 w ++ rest).take 4) = w.toNat :=
  (value_take_digits 4 _ rest).trans (Nat.mod_eq_of_lt w.toNat_lt)

/-! ## Words that were read -/

theorem toNat_decode32 (long : 4 ≤ bs.length) : (decode32 bs).toNat = fieldAt bs 0 4 := by
  have fits := value_lt (bs.take 4)
  rw [List.length_take_of_le long] at fits
  exact UInt32.toNat_ofNat_of_lt' fits

theorem encode16_decode16 (long : 2 ≤ bs.length) : encode16 (decode16 bs) = bs.take 2 := by
  have fits := value_lt (bs.take 2)
  have whole := digits_value (bs.take 2)
  rw [List.length_take_of_le long] at fits whole
  rw [encode16, decode16, UInt16.toNat_ofNat_of_lt' fits, whole]

theorem encode32_decode32 (long : 4 ≤ bs.length) : encode32 (decode32 bs) = bs.take 4 := by
  have fits := value_lt (bs.take 4)
  have whole := digits_value (bs.take 4)
  rw [List.length_take_of_le long] at fits whole
  rw [encode32, decode32, UInt32.toNat_ofNat_of_lt' fits, whole]

/-- The bytes before a word and the word itself are the bytes up to its end. -/
theorem take_append_word16 {k : Nat} (long : k + 2 ≤ bs.length) :
    bs.take k ++ encode16 (decode16 (bs.drop k)) = bs.take (k + 2) := by
  have enough : 2 ≤ (bs.drop k).length := by
    rw [List.length_drop]
    omega
  rw [encode16_decode16 enough, List.take_add]

theorem take_append_word32 {k : Nat} (long : k + 4 ≤ bs.length) :
    bs.take k ++ encode32 (decode32 (bs.drop k)) = bs.take (k + 4) := by
  have enough : 4 ≤ (bs.drop k).length := by
    rw [List.length_drop]
    omega
  rw [encode32_decode32 enough, List.take_add]

/-- A word that ends within the first bytes is read from these alone. -/
theorem decode32_drop_take {j k : Nat} (within : j + 4 ≤ k) (bs : List UInt8) :
    decode32 ((bs.take k).drop j) = decode32 (bs.drop j) := by
  have inside : 4 ≤ k - j := by omega
  rw [decode32, decode32, List.drop_take, List.take_take, Nat.min_eq_left inside]

end LittleEndian

end InterCore
