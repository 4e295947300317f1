import InterCore.Error

/-!
# Integers as text

`parse` reads an integer in the form that settings files use: an optional sign, then `0x` and
hexadecimal digits, or `0` and octal digits, or decimal digits, and at most one newline at the
end. `render` writes the decimal form. A text is refused as a whole: for a character that is no
digit of the radix, for having no digits, and for a value outside the 32-bit range.
-/

namespace InterCore.Text

/-- The value of a digit, where letters of either case go on from ten. -/
def digitValue? (radix : Nat) (c : Char) : Option Nat :=
  let value? :=
    if '0' ≤ c ∧ c ≤ '9' then some (c.toNat - '0'.toNat)
    else if 'a' ≤ c ∧ c ≤ 'z' then some (c.toNat - 'a'.toNat + 10)
    else if 'A' ≤ c ∧ c ≤ 'Z' then some (c.toNat - 'A'.toNat + 10)
    else none
  value?.filter (· < radix)

/-- The greatest distance of a 32-bit number from zero. -/
def maxMagnitude : Nat := Int32.minValue.toInt.natAbs

/-- The number that digits denote after those that denote `acc`, if it is no greater than
`maxMagnitude`. -/
def accumulate? (radix : Nat) : Nat → List Char → Option Nat
  | acc, [] => some acc
  | acc, c :: rest =>
    match digitValue? radix c with
    | none => none
    | some d =>
      let acc := acc * radix + d
      if acc ≤ maxMagnitude then accumulate? radix acc rest else none

/-- The number that a non-empty string of digits denotes, if it is no greater than
`maxMagnitude`. -/
def magnitude? (radix : Nat) : List Char → Option Nat
  | [] => none
  | digits => accumulate? radix 0 digits

/-- A text without the one newline that may end it. -/
def dropNewline (text : List Char) : List Char :=
  if text.getLast? = some '\n' then text.dropLast else text

/-- Whether a number is negative, and what follows its sign. -/
def splitSign : List Char → Bool × List Char
  | '-' :: rest => (true, rest)
  | '+' :: rest => (false, rest)
  | text => (false, text)

/-- The radix of an unsigned number and its digits. A zero that stands alone is decimal. -/
def splitRadix : List Char → Nat × List Char
  | '0' :: 'x' :: digits => (16, digits)
  | '0' :: 'X' :: digits => (16, digits)
  | '0' :: d :: digits => (8, d :: digits)
  | digits => (10, digits)

/-- The integer as a 32-bit number, if it lies in the range. -/
def toInt32? (v : Int) : Option Int32 :=
  if Int32.minValue.toInt ≤ v ∧ v ≤ Int32.maxValue.toInt then some (Int32.ofInt v) else none

/-- The number that a text denotes, or a refusal of the text as a whole. -/
def parse (text : String) : Answer Int32 :=
  let (negative, unsigned) := splitSign (dropNewline text.toList)
  let (radix, digits) := splitRadix unsigned
  match magnitude? radix digits with
  | none => .error .notANumber
  | some m =>
    match toInt32? (if negative then -(m : Int) else m) with
    | none => .error .notANumber
    | some v => .ok v

/-- The decimal digits of a number, with no leading zero but for zero itself. -/
def decimal (n : Nat) : List Char :=
  let last := Char.ofNat ('0'.toNat + n % 10)
  if n < 10 then [last] else decimal (n / 10) ++ [last]
  termination_by n

/-- The decimal form of an integer, with a sign only if it is negative. -/
def renderChars (v : Int) : List Char :=
  if v < 0 then '-' :: decimal v.natAbs else decimal v.natAbs

/-- The decimal form of a 32-bit number. -/
def render (v : Int32) : String :=
  String.ofList (renderChars v.toInt)

end InterCore.Text
