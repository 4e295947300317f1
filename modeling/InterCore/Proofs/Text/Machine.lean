import InterCore.Proofs.Text.Grammar
import InterCore.Proofs.Text.Utf8

/-!
# Integers and texts in a machine

A machine has a text as bytes of UTF-8, and adds a number up in 64 bits. The bytes come apart
between characters, and what overflows 64 bits is no 32-bit number either.
-/

namespace InterCore.Text

variable {radix : Nat} {c : Char} {cs : List Char} {z : Int}

/-! ## Numbers in 64 bits -/

/-- A number in 64 bits, if it has room there. -/
def toInt64? (z : Int) : Option Int64 :=
  if Int64.minValue.toInt ≤ z ∧ z ≤ Int64.maxValue.toInt then some (Int64.ofInt z) else none

/-- The number that digits denote after those that denote `acc`, by 64-bit products and sums, each
of which is refused if it overflows. -/
def accumulateWide? (radix : Nat) : Int64 → List Char → Option Int64
  | acc, [] => some acc
  | acc, c :: rest =>
    match digitValue? radix c with
    | none => none
    | some d =>
      (toInt64? (acc.toInt * radix)).bind fun product =>
        (toInt64? (product.toInt + d)).bind fun sum => accumulateWide? radix sum rest

theorem toInt64?_eq_some {w : Int64} : toInt64? z = some w ↔ w.toInt = z := by
  rw [toInt64?]
  constructor
  · intro h
    split at h
    case isTrue within =>
      obtain rfl := Option.some.inj h
      exact Int64.toInt_ofInt_of_le within.1 (Int.lt_add_one_of_le within.2)
    case isFalse => cases h
  · rintro rfl
    rw [if_pos ⟨w.minValue_le_toInt, w.toInt_le⟩, Int64.ofInt_toInt]

theorem exists_toInt_eq {n : Nat} {w : Int64} (within : n ≤ w.toInt) :
    ∃ s : Int64, s.toInt = n := by
  refine ⟨.ofInt n, Int64.toInt_ofInt_of_le ?_ (Int.lt_of_le_of_lt within w.toInt_lt)⟩
  exact Int.le_trans (by decide) (Int.natCast_nonneg n)

theorem accumulateWide?_eq_some {acc w : Int64} {a : Nat} (positive : 0 < radix) (few : radix ≤ 16)
    (start : acc.toInt = a) :
    accumulateWide? radix acc cs = some w ↔ ∃ m : Nat, w.toInt = m ∧ Extends radix a cs m := by
  induction cs generalizing acc a with
  | nil =>
    simp only [accumulateWide?, extends_nil, exists_eq_right, Option.some_inj]
    rw [← start, Int64.toInt_inj]
    exact eq_comm
  | cons c rest ih =>
    rw [accumulateWide?]
    simp only [extends_cons few]
    cases value : digitValue? radix c with
    | none => simp
    | some d =>
      simp only [Option.some.injEq, exists_eq_left', Option.bind_eq_some_iff, toInt64?_eq_some]
      constructor
      · rintro ⟨product, first, sum, second, more⟩
        refine (ih ?_).mp more
        rw [second, first, start]
        push_cast
        rfl
      · rintro ⟨m, last, more⟩
        have within : ((a * radix + d : Nat) : Int) ≤ w.toInt := by
          rw [last]
          exact Int.ofNat_le.mpr (more.le positive)
        obtain ⟨sum, second⟩ := exists_toInt_eq within
        obtain ⟨product, first⟩ : ∃ s : Int64, s.toInt = (a * radix : Nat) :=
          exists_toInt_eq ((Int.ofNat_le.mpr (Nat.le_add_right _ d)).trans within)
        refine ⟨product, ?_, sum, ?_, (ih second).mpr ⟨m, last, more⟩⟩
        · rw [first, start]
          push_cast
          rfl
        · rw [first, second]
          push_cast
          rfl

/-- The number of a text in 64 bits. It is turned around without a check. -/
def signedWide? (text : List Char) : Option Int64 :=
  if (partsOf text).digits = [] then none
  else (accumulateWide? (partsOf text).radix 0 (partsOf text).digits).map fun m =>
    if (partsOf text).negative then -m else m

/-- An integer read by way of 64 bits. -/
def parseWide (text : String) : Answer Int32 :=
  answer ((signedWide? text.toList).bind fun w => toInt32? w.toInt)

/-- A number that is not negative has its opposite in 64 bits. -/
theorem toInt_turned {m : Int64} {k : Nat} (negative : Bool) (value : m.toInt = k) :
    (if negative then -m else m).toInt = if negative then -(k : Int) else k := by
  cases negative with
  | false => exact value
  | true =>
    have upper := m.toInt_lt
    show (-m).toInt = -(k : Int)
    rw [Int64.toInt_neg, value]
    exact Int.bmod_eq_of_le (by omega) (by omega)

theorem signedWide?_eq_some {text : List Char} {w : Int64} :
    signedWide? text = some w ↔ ∃ m : Int64, (if (partsOf text).negative then -m else m) = w ∧
      ∃ k : Nat, m.toInt = k ∧ (partsOf text).digits ≠ [] ∧
        Digits (partsOf text).radix (partsOf text).digits k := by
  obtain ⟨positive, few⟩ := radix_bounds text
  rw [signedWide?]
  by_cases empty : (partsOf text).digits = []
  · simp [empty]
  · rw [if_neg empty, Option.map_eq_some_iff]
    have start : (0 : Int64).toInt = (0 : Nat) := rfl
    simp only [accumulateWide?_eq_some positive few start, extends_zero, and_iff_right empty,
      and_comm]

theorem signedWide?_bind_eq_some {text : List Char} {v : Int32} :
    ((signedWide? text).bind fun w => toInt32? w.toInt) = some v ↔ Denotes text v.toInt := by
  simp only [Option.bind_eq_some_iff, toInt32?_eq_some, signedWide?_eq_some, denotes_iff]
  constructor
  · rintro ⟨_, ⟨m, rfl, k, value, digits⟩, same⟩
    refine ⟨k, digits, ?_⟩
    rw [← same]
    exact toInt_turned _ value
  · rintro ⟨k, digits, same⟩
    have near : k ≤ maxMagnitude := by
      have near := natAbs_toInt_le v
      rwa [same, natAbs_turned] at near
    obtain ⟨m, value⟩ : ∃ m : Int64, m.toInt = k :=
      exists_toInt_eq (w := Int64.maxValue) ((Int.ofNat_le.mpr near).trans (by decide))
    refine ⟨_, ⟨m, rfl, k, value, digits⟩, ?_⟩
    rw [same]
    exact toInt_turned _ value

theorem parse_eq_parseWide (text : String) : parse text = parseWide text := by
  rw [parse_eq, parseWide]
  congr 1
  ext v
  exact signedValue?_bind_eq_some.trans signedWide?_bind_eq_some.symm

/-! ## Bytes -/

/-- The first byte of a text tells whether it begins with a certain character below 128. -/
theorem utf8_cons_eq (c : Char) (cs : List Char) :
    ∃ b bs, utf8 (c :: cs) = b :: bs ∧ ∀ a : Char, a.toNat < 128 → c ≠ a → b ≠ UInt8.ofNat a.toNat := by
  rw [utf8_cons]
  cases bytes : String.utf8EncodeChar c with
  | nil => exact absurd bytes String.utf8EncodeChar_ne_nil
  | cons b bs =>
    refine ⟨b, bs ++ utf8 cs, rfl, ?_⟩
    intro a small apart same
    exact apart (eq_of_mem_utf8EncodeChar (bytes ▸ List.mem_cons_self) small same)

/-! ## Cutting bytes -/

/-- `dropNewline` on bytes. -/
def cutNewline (bytes : List UInt8) : List UInt8 :=
  if bytes.getLast? = some 10 then bytes.dropLast else bytes

/-- `splitSign` on bytes. -/
def cutSign : List UInt8 → Bool × List UInt8
  | 45 :: rest => (true, rest)
  | 43 :: rest => (false, rest)
  | bytes => (false, bytes)

/-- `splitRadix` on bytes. -/
def cutRadix : List UInt8 → Nat × List UInt8
  | 48 :: 120 :: rest => (16, rest)
  | 48 :: 88 :: rest => (16, rest)
  | 48 :: b :: rest => (8, b :: rest)
  | bytes => (10, bytes)

theorem cutNewline_utf8 (cs : List Char) : cutNewline (utf8 cs) = utf8 (dropNewline cs) := by
  rw [cutNewline, dropNewline]
  rcases List.eq_nil_or_concat' cs with rfl | ⟨init, last, rfl⟩
  · rfl
  · rw [utf8_concat, List.getLast?_concat, List.dropLast_concat]
    by_cases newline : last = '\n'
    · subst newline
      have whole : utf8 init ++ String.utf8EncodeChar '\n' = utf8 init ++ [10] := rfl
      rw [whole, List.getLast?_concat, List.dropLast_concat, if_pos rfl, if_pos rfl]
    · rw [if_neg, if_neg (by simpa using newline), utf8_concat]
      intro ends
      refine newline (eq_of_mem_utf8EncodeChar (List.mem_of_getLast? ?_) (by decide) rfl)
      rwa [List.getLast?_append_of_ne_nil _ String.utf8EncodeChar_ne_nil] at ends

theorem cutSign_utf8 (cs : List Char) :
    cutSign (utf8 cs) = ((splitSign cs).1, utf8 (splitSign cs).2) := by
  fun_cases splitSign cs
  case case1 rest =>
    rw [utf8_cons]
    rfl
  case case2 rest =>
    rw [utf8_cons]
    rfl
  case case3 minus plus =>
    cases cs with
    | nil => rfl
    | cons c rest =>
      obtain ⟨b, bs, bytes, differs⟩ := utf8_cons_eq c rest
      have notMinus : b ≠ 45 := differs '-' (by decide) (by rintro rfl; exact minus _ rfl)
      have notPlus : b ≠ 43 := differs '+' (by decide) (by rintro rfl; exact plus _ rfl)
      rw [bytes]
      unfold cutSign
      split <;> simp_all

theorem cutRadix_utf8 (cs : List Char) :
    cutRadix (utf8 cs) = ((splitRadix cs).1, utf8 (splitRadix cs).2) := by
  fun_cases splitRadix cs
  case case1 digits =>
    rw [utf8_cons, utf8_cons]
    rfl
  case case2 digits =>
    rw [utf8_cons, utf8_cons]
    rfl
  case case3 d digits small capital =>
    obtain ⟨b, bs, bytes, differs⟩ := utf8_cons_eq d digits
    have notSmall : b ≠ 120 := differs 'x' (by decide) small
    have notCapital : b ≠ 88 := differs 'X' (by decide) capital
    rw [utf8_cons, bytes]
    show cutRadix (48 :: b :: bs) = (8, b :: bs)
    unfold cutRadix
    split <;> simp_all
  case case4 small capital octal =>
    cases cs with
    | nil => rfl
    | cons c rest =>
      by_cases first : c = '0'
      · subst first
        cases rest with
        | nil => rfl
        | cons d rest => exact absurd rfl (octal d rest)
      · obtain ⟨b, bs, bytes, differs⟩ := utf8_cons_eq c rest
        have notZero : b ≠ 48 := differs '0' (by decide) first
        rw [bytes]
        unfold cutRadix
        split <;> simp_all

/-- The sign, the radix and the digits of an integer, cut off where its bytes begin and end. -/
def cutBytes (bytes : List UInt8) : Bool × Nat × List UInt8 :=
  let (negative, unsigned) := cutSign (cutNewline bytes)
  let (radix, digits) := cutRadix unsigned
  (negative, radix, digits)

/-- The bytes are cut between characters. -/
theorem cutBytes_toBytes (text : String) :
    cutBytes (toBytes text) =
      ((partsOf text.toList).negative, (partsOf text.toList).radix,
        utf8 (partsOf text.toList).digits) := by
  have whole : toBytes text = utf8 text.toList := by rw [utf8, String.ofList_toList]
  rw [whole, cutBytes, cutNewline_utf8, cutSign_utf8]
  dsimp only
  rw [cutRadix_utf8]
  rfl

/-- A text is taken for the 32-bit number that it denotes in the grammar, and refused if it denotes
none. That is so although the number is added up in 64 bits, with nothing lost where it is turned
around, and although the text is cut into parts as bytes. -/
theorem parse_accepts_the_grammar (text : String) :
    (∀ v : Int32, parse text = .ok v ↔ ∃ line z, IsLine text.toList line ∧ Signed line z ∧
        -2147483648 ≤ z ∧ z ≤ 2147483647 ∧ v.toInt = z) ∧
      (parse text = .error .notANumber ↔ ¬∃ line z, IsLine text.toList line ∧ Signed line z ∧
        -2147483648 ≤ z ∧ z ≤ 2147483647) ∧
      parse text = parseWide text ∧
      cutBytes (toBytes text) =
        ((partsOf text.toList).negative, (partsOf text.toList).radix,
          utf8 (partsOf text.toList).digits) := by
  have accepted (v : Int32) : parse text = .ok v ↔ ∃ line z, IsLine text.toList line ∧
      Signed line z ∧ -2147483648 ≤ z ∧ z ≤ 2147483647 ∧ v.toInt = z := by
    rw [parse_eq_ok_iff]
    constructor
    · rintro ⟨line, isLine, signed⟩
      exact ⟨line, _, isLine, signed, v.le_toInt, Int.le_of_lt_add_one v.toInt_lt, rfl⟩
    · rintro ⟨line, _, isLine, signed, -, -, rfl⟩
      exact ⟨line, isLine, signed⟩
  refine ⟨accepted, ?_, parse_eq_parseWide text, cutBytes_toBytes text⟩
  constructor
  · rintro refused ⟨line, z, isLine, signed, lower, upper⟩
    have here := (accepted (.ofInt z)).mpr ⟨line, z, isLine, signed, lower, upper,
      Int32.toInt_ofInt_of_le lower (Int.lt_add_one_of_le upper)⟩
    rw [refused] at here
    cases here
  · intro none
    rcases parse_eq_ok_or_error text with ⟨v, taken⟩ | refused
    · obtain ⟨line, z, isLine, signed, lower, upper, -⟩ := (accepted v).mp taken
      exact absurd ⟨line, z, isLine, signed, lower, upper⟩ none
    · exact refused

example : parse "-0X10\n" = .ok (-16) := by decide
example : parse "09" = .error .notANumber := by decide
example : parse "-2147483648" = .ok Int32.minValue := by decide

end InterCore.Text
