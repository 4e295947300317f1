/-!
# Little-endian words

Numbers as bytes, the least significant first. `digits n v` writes the low `n` bytes of `v` and
`value` reads bytes back. They undo each other: `value_digits` says so for numbers that fit, and
`digits_value` for all byte strings.
-/

namespace InterCore.LittleEndian

/-- The low `n` bytes of a number, the least significant first. -/
def digits : Nat → Nat → List UInt8
  | 0, _ => []
  | n + 1, v => UInt8.ofNat v :: digits n (v / 256)

/-- The number that bytes denote, the least significant first. -/
def value : List UInt8 → Nat
  | [] => 0
  | b :: rest => b.toNat + 256 * value rest

/-- How many numbers `n` bytes can tell apart. -/
def span : Nat → Nat
  | 0 => 1
  | n + 1 => 256 * span n

@[simp]
theorem length_digits (n v : Nat) : (digits n v).length = n := by
  induction n generalizing v with
  | zero => rfl
  | succ n ih => simp [digits, ih]

theorem value_lt (bs : List UInt8) : value bs < span bs.length := by
  induction bs with
  | nil => simp [value, span]
  | cons b rest ih =>
    have hb := b.toNat_lt
    simp only [value, List.length_cons, span]
    omega

/-- Reading back what was written gives the number, as far as the bytes reach. -/
theorem value_digits (n v : Nat) : value (digits n v) = v % span n := by
  induction n generalizing v with
  | zero => simp [digits, value, span, Nat.mod_one]
  | succ n ih =>
    have byte : (UInt8.ofNat v).toNat = v % 256 := UInt8.toNat_ofNat'
    rw [digits, value, ih, byte, span, Nat.mod_mul]

/-- Writing what was read gives the bytes. -/
theorem digits_value (bs : List UInt8) : digits bs.length (value bs) = bs := by
  induction bs with
  | nil => rfl
  | cons b rest ih =>
    have hb := b.toNat_lt
    have hd : (b.toNat + 256 * value rest) / 256 = value rest := by omega
    have hm : UInt8.ofNat (b.toNat + 256 * value rest) = b := by
      apply UInt8.toNat_inj.mp
      rw [UInt8.toNat_ofNat']
      omega
    simp only [List.length_cons, value, digits, hd, hm, ih]

/-- The two bytes of a 16-bit word. -/
def encode16 (w : UInt16) : List UInt8 :=
  digits 2 w.toNat

/-- The four bytes of a 32-bit word. -/
def encode32 (w : UInt32) : List UInt8 :=
  digits 4 w.toNat

/-- The 16-bit word in the first two bytes. Bytes that are missing count as zero. -/
def decode16 (bs : List UInt8) : UInt16 :=
  UInt16.ofNat (value (bs.take 2))

/-- The 32-bit word in the first four bytes. Bytes that are missing count as zero. -/
def decode32 (bs : List UInt8) : UInt32 :=
  UInt32.ofNat (value (bs.take 4))

@[simp]
theorem length_encode16 (w : UInt16) : (encode16 w).length = 2 :=
  length_digits 2 _

@[simp]
theorem length_encode32 (w : UInt32) : (encode32 w).length = 4 :=
  length_digits 4 _

end InterCore.LittleEndian
