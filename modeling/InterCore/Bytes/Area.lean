/-!
# Fixed areas

A field of a message has a fixed number of bytes. Shorter contents are padded with zero bytes and
longer ones cut.
-/

namespace InterCore

/-- The first `n` bytes of a string, with zero bytes in place of those that are missing. -/
def fit : Nat → List UInt8 → List UInt8
  | 0, _ => []
  | n + 1, [] => 0 :: fit n []
  | n + 1, b :: rest => b :: fit n rest

@[simp]
theorem length_fit (n : Nat) (bs : List UInt8) : (fit n bs).length = n := by
  induction n generalizing bs with
  | zero => cases bs <;> rfl
  | succ n ih => cases bs <;> simp [fit, ih]

theorem fit_of_length {n : Nat} {bs : List UInt8} (h : bs.length = n) : fit n bs = bs := by
  induction n generalizing bs with
  | zero => simp_all [fit]
  | succ n ih =>
    cases bs with
    | nil => simp at h
    | cons b rest => simp_all [fit]

/-- An area of `n` bytes. -/
abbrev Area (n : Nat) := Vector UInt8 n

/-- The area that holds a byte string, cut or padded to its size. -/
def Area.ofBytes (n : Nat) (bs : List UInt8) : Area n :=
  ⟨(fit n bs).toArray, by simp⟩

@[simp]
theorem Area.toList_ofBytes (n : Nat) (bs : List UInt8) :
    (Area.ofBytes n bs).toList = fit n bs := by
  simp [Area.ofBytes, Vector.toList]

end InterCore
