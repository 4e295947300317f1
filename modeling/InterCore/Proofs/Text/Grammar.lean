import InterCore.Text.Integer
import Mathlib.Data.List.Basic
import Mathlib.Data.Nat.Digits.Defs
import Mathlib.Tactic.IntervalCases
import Mathlib.Tactic.Ring

/-!
# The grammar of integers

Which texts `Text.parse` takes for a number, and for which number: what the digits of the text
denote is said in unbounded integers, and nothing but the 32-bit range is refused of it.
-/

namespace InterCore.Text

variable {radix : Nat} {c : Char} {cs : List Char} {m : Nat} {z : Int}

/-- The digits by their value. -/
def lowerDigits : List Char :=
  ['0', '1', '2', '3', '4', '5', '6', '7', '8', '9', 'a', 'b', 'c', 'd', 'e', 'f']

/-- The digits with capital letters. -/
def upperDigits : List Char :=
  ['0', '1', '2', '3', '4', '5', '6', '7', '8', '9', 'A', 'B', 'C', 'D', 'E', 'F']

/-- A digit of a radix and its value. -/
def IsDigit (radix : Nat) (c : Char) (d : Nat) : Prop :=
  d < radix ∧ (lowerDigits[d]? = some c ∨ upperDigits[d]? = some c)

/-- Digits of a radix, the most significant one first, and the number that they denote. -/
def Digits (radix : Nat) (cs : List Char) (m : Nat) : Prop :=
  ∃ ds, List.Forall₂ (IsDigit radix) cs ds ∧ Nat.ofDigits radix ds.reverse = m

/-- A number without a sign. -/
inductive Unsigned : List Char → Nat → Prop where
  | hexadecimal {x : Char} {cs : List Char} {m : Nat} :
      x = 'x' ∨ x = 'X' → cs ≠ [] → Digits 16 cs m → Unsigned ('0' :: x :: cs) m
  | octal {cs : List Char} {m : Nat} : cs ≠ [] → Digits 8 cs m → Unsigned ('0' :: cs) m
  | zero : Unsigned ['0'] 0
  | decimal {c : Char} {cs : List Char} {m : Nat} :
      c ≠ '0' → Digits 10 (c :: cs) m → Unsigned (c :: cs) m

/-- A number with at most one sign. -/
inductive Signed : List Char → Int → Prop where
  | bare {cs : List Char} {m : Nat} : Unsigned cs m → Signed cs m
  | plus {cs : List Char} {m : Nat} : Unsigned cs m → Signed ('+' :: cs) m
  | minus {cs : List Char} {m : Nat} : Unsigned cs m → Signed ('-' :: cs) (-m)

/-- A text without one newline at its end, if it has one. -/
def IsLine (text line : List Char) : Prop :=
  text = line ++ ['\n'] ∨ text = line ∧ ∀ rest, text ≠ rest ++ ['\n']

/-- A text in the grammar, and the number that it denotes. -/
def Denotes (text : List Char) (z : Int) : Prop :=
  ∃ line, IsLine text line ∧ Signed line z

/-! ## Digits -/

theorem eq_ofNat_of_le {a b : Char} (above : a ≤ c) (below : c ≤ b) :
    ∃ k ≤ b.toNat - a.toNat, c = Char.ofNat (a.toNat + k) := by
  have lower : a.toNat ≤ c.toNat := above
  have upper : c.toNat ≤ b.toNat := below
  refine ⟨c.toNat - a.toNat, Nat.sub_le_sub_right upper _, ?_⟩
  rw [Nat.add_sub_of_le lower, Char.ofNat_toNat]

theorem isDigit_of_digitValue? {d : Nat} (few : radix ≤ 16) (value : digitValue? radix c = some d) :
    IsDigit radix c d := by
  obtain ⟨value, small⟩ := Option.filter_eq_some_iff.mp value
  have small := of_decide_eq_true small
  refine ⟨small, ?_⟩
  have bound : d < 16 := small.trans_le few
  split_ifs at value with digit lower upper
  · obtain ⟨k, within, rfl⟩ := eq_ofNat_of_le digit.1 digit.2
    obtain rfl := Option.some.inj value
    have within : k ≤ 9 := within
    interval_cases k <;> exact .inl rfl
  · obtain rfl := Option.some.inj value
    -- The letters behind `f` are no digits of a radix up to 16.
    have upTo : c ≤ 'f' := by
      change c.toNat - 97 + 10 < 16 at bound
      show c.toNat ≤ 102
      omega
    obtain ⟨k, within, rfl⟩ := eq_ofNat_of_le lower.1 upTo
    have within : k ≤ 5 := within
    interval_cases k <;> exact .inl rfl
  · obtain rfl := Option.some.inj value
    have upTo : c ≤ 'F' := by
      change c.toNat - 65 + 10 < 16 at bound
      show c.toNat ≤ 70
      omega
    obtain ⟨k, within, rfl⟩ := eq_ofNat_of_le upper.1 upTo
    have within : k ≤ 5 := within
    interval_cases k <;> exact .inr rfl

theorem digitValue?_of_isDigit {d : Nat} (few : radix ≤ 16) (digit : IsDigit radix c d) :
    digitValue? radix c = some d := by
  obtain ⟨small, digit⟩ := digit
  have bound : d < 16 := small.trans_le few
  have value : digitValue? 36 c = some d := by
    interval_cases d <;> rcases digit with digit | digit <;> cases digit <;> rfl
  rw [digitValue?, Option.filter_eq_some_iff] at value
  exact Option.filter_eq_some_iff.mpr ⟨value.1, decide_eq_true small⟩

theorem digitValue?_eq_some {d : Nat} (few : radix ≤ 16) :
    digitValue? radix c = some d ↔ IsDigit radix c d :=
  ⟨isDigit_of_digitValue? few, digitValue?_of_isDigit few⟩

/-! ## Strings of digits -/

/-- Digits that go on after a number denote another one. -/
def Extends (radix acc : Nat) (cs : List Char) (m : Nat) : Prop :=
  ∃ ds, List.Forall₂ (IsDigit radix) cs ds ∧
    acc * radix ^ ds.length + Nat.ofDigits radix ds.reverse = m

theorem extends_nil {acc : Nat} : Extends radix acc [] m ↔ m = acc := by
  constructor
  · rintro ⟨_, digits, rfl⟩
    cases digits
    simp
  · rintro rfl
    exact ⟨[], .nil, by simp⟩

theorem extends_cons {acc : Nat} (few : radix ≤ 16) :
    Extends radix acc (c :: cs) m ↔
      ∃ d, digitValue? radix c = some d ∧ Extends radix (acc * radix + d) cs m := by
  have step (d : Nat) (ds : List Nat) :
      acc * radix ^ (d :: ds).length + Nat.ofDigits radix (d :: ds).reverse =
        (acc * radix + d) * radix ^ ds.length + Nat.ofDigits radix ds.reverse := by
    rw [List.reverse_cons, Nat.ofDigits_append, Nat.ofDigits_singleton, List.length_reverse,
      List.length_cons, pow_succ]
    ring
  constructor
  · rintro ⟨_, digits, total⟩
    cases digits with
    | @cons _ d _ ds digit digits =>
      rw [step] at total
      exact ⟨d, (digitValue?_eq_some few).mpr digit, ds, digits, total⟩
  · rintro ⟨d, digit, ds, digits, total⟩
    refine ⟨d :: ds, .cons ((digitValue?_eq_some few).mp digit) digits, ?_⟩
    rw [step]
    exact total

theorem extends_zero : Extends radix 0 cs m ↔ Digits radix cs m := by
  simp only [Extends, Digits, Nat.zero_mul, Nat.zero_add]

/-- A number does not get less by more digits. -/
theorem Extends.le {acc : Nat} (positive : 0 < radix) (h : Extends radix acc cs m) : acc ≤ m := by
  obtain ⟨ds, -, rfl⟩ := h
  exact (Nat.le_mul_of_pos_right acc (Nat.pow_pos positive)).trans (Nat.le_add_right _ _)

theorem accumulate?_eq_some {acc : Nat} (positive : 0 < radix) (few : radix ≤ 16)
    (small : acc ≤ maxMagnitude) :
    accumulate? radix acc cs = some m ↔ Extends radix acc cs m ∧ m ≤ maxMagnitude := by
  induction cs generalizing acc with
  | nil =>
    rw [accumulate?, extends_nil, Option.some_inj]
    constructor
    · rintro rfl
      exact ⟨rfl, small⟩
    · exact fun h => h.1.symm
  | cons c rest ih =>
    rw [accumulate?, extends_cons few]
    cases value : digitValue? radix c with
    | none => simp
    | some d =>
      simp only [Option.some.injEq, exists_eq_left']
      by_cases fits : acc * radix + d ≤ maxMagnitude
      · rw [if_pos fits]
        exact ih fits
      · rw [if_neg fits]
        simp only [reduceCtorEq, false_iff]
        rintro ⟨more, within⟩
        exact fits ((more.le positive).trans within)

theorem magnitude?_eq_some (positive : 0 < radix) (few : radix ≤ 16) :
    magnitude? radix cs = some m ↔ cs ≠ [] ∧ Digits radix cs m ∧ m ≤ maxMagnitude := by
  cases cs with
  | nil => simp [magnitude?]
  | cons c rest =>
    rw [magnitude?, accumulate?_eq_some positive few (Nat.zero_le _), extends_zero]
    · exact (and_iff_right (List.cons_ne_nil _ _)).symm
    · exact List.cons_ne_nil _ _

/-! ## The parts of a text -/

theorem digits_cons_of_none (few : radix ≤ 16) (none : digitValue? radix c = none) :
    ¬Digits radix (c :: cs) m := by
  rw [← extends_zero, extends_cons few, none]
  rintro ⟨d, ⟨⟩, -⟩

theorem splitRadix_octal {d : Char} (small : d ≠ 'x') (capital : d ≠ 'X') (rest : List Char) :
    splitRadix ('0' :: d :: rest) = (8, d :: rest) := by
  unfold splitRadix
  split <;> simp_all

theorem splitRadix_decimal (first : c ≠ '0') (rest : List Char) :
    splitRadix (c :: rest) = (10, c :: rest) := by
  unfold splitRadix
  split <;> simp_all

theorem digits_zero : Digits 10 ['0'] m ↔ m = 0 := by
  have zero : digitValue? 10 '0' = some 0 := rfl
  rw [← extends_zero, extends_cons (by decide), zero]
  simp only [Option.some.injEq, exists_eq_left', extends_nil, Nat.zero_mul, Nat.add_zero]

/-- What follows the sign is taken apart by its prefix. -/
theorem unsigned_iff :
    Unsigned cs m ↔ (splitRadix cs).2 ≠ [] ∧ Digits (splitRadix cs).1 (splitRadix cs).2 m := by
  constructor
  · intro h
    cases h with
    | hexadecimal either some digits =>
      rcases either with rfl | rfl <;> exact ⟨some, digits⟩
    | @octal cs _ some digits =>
      cases cs with
      | nil => exact absurd rfl some
      | cons d rest =>
        have small : d ≠ 'x' := by
          rintro rfl
          exact digits_cons_of_none (by decide) rfl digits
        have capital : d ≠ 'X' := by
          rintro rfl
          exact digits_cons_of_none (by decide) rfl digits
        rw [splitRadix_octal small capital]
        exact ⟨some, digits⟩
    | zero => exact ⟨List.cons_ne_nil _ _, digits_zero.mpr rfl⟩
    | decimal first digits =>
      rw [splitRadix_decimal first]
      exact ⟨List.cons_ne_nil _ _, digits⟩
  · rintro ⟨some, digits⟩
    cases cs with
    | nil => exact absurd rfl some
    | cons c rest =>
      by_cases first : c = '0'
      · subst first
        cases rest with
        | nil =>
          obtain rfl := digits_zero.mp digits
          exact .zero
        | cons d rest =>
          by_cases small : d = 'x'
          · subst small
            exact .hexadecimal (.inl rfl) some digits
          · by_cases capital : d = 'X'
            · subst capital
              exact .hexadecimal (.inr rfl) some digits
            · rw [splitRadix_octal small capital] at digits
              exact .octal (List.cons_ne_nil _ _) digits
      · rw [splitRadix_decimal first] at digits
        exact .decimal first digits

theorem Unsigned.not_sign {rest : List Char} (h : Unsigned (c :: rest) m) : c ≠ '-' ∧ c ≠ '+' := by
  cases h with
  | hexadecimal _ _ _ => decide
  | octal _ _ => decide
  | zero => decide
  | decimal _ digits =>
    constructor
    · rintro rfl
      exact digits_cons_of_none (by decide) rfl digits
    · rintro rfl
      exact digits_cons_of_none (by decide) rfl digits

theorem splitSign_bare (minus : c ≠ '-') (plus : c ≠ '+') (rest : List Char) :
    splitSign (c :: rest) = (false, c :: rest) := by
  unfold splitSign
  split <;> simp_all

/-- The number without its sign. -/
theorem signed_iff :
    Signed cs z ↔ ∃ m : Nat, Unsigned (splitSign cs).2 m ∧
      z = if (splitSign cs).1 then -(m : Int) else m := by
  constructor
  · intro h
    cases h with
    | @bare cs m unsigned =>
      cases cs with
      | nil => exact ⟨m, unsigned, rfl⟩
      | cons c rest =>
        obtain ⟨minus, plus⟩ := unsigned.not_sign
        rw [splitSign_bare minus plus]
        exact ⟨m, unsigned, rfl⟩
    | plus unsigned => exact ⟨_, unsigned, rfl⟩
    | minus unsigned => exact ⟨_, unsigned, rfl⟩
  · rintro ⟨m, unsigned, rfl⟩
    cases cs with
    | nil => exact .bare unsigned
    | cons c rest =>
      by_cases minus : c = '-'
      · subst minus
        exact .minus unsigned
      · by_cases plus : c = '+'
        · subst plus
          exact .plus unsigned
        · rw [splitSign_bare minus plus] at unsigned ⊢
          exact .bare unsigned

theorem isLine_iff {text line : List Char} : IsLine text line ↔ line = dropNewline text := by
  rw [dropNewline, IsLine]
  rcases List.eq_nil_or_concat' text with rfl | ⟨init, last, rfl⟩
  · constructor
    · rintro (ends | ⟨rfl, -⟩)
      · exact absurd ends (List.append_ne_nil_of_right_ne_nil _ (List.cons_ne_nil _ _)).symm
      · rfl
    · rintro rfl
      exact .inr ⟨rfl, fun rest => (List.append_ne_nil_of_right_ne_nil _ (List.cons_ne_nil _ _)).symm⟩
  · rw [List.getLast?_concat, List.dropLast_concat]
    by_cases newline : last = '\n'
    · simp [newline, eq_comm]
    · simp [newline, eq_comm]

/-- What a text is taken apart into. -/
structure Parts where
  negative : Bool
  radix : Nat
  digits : List Char

/-- A text taken apart into sign, radix and digits. -/
def partsOf (text : List Char) : Parts :=
  let (negative, unsigned) := splitSign (dropNewline text)
  let (radix, digits) := splitRadix unsigned
  { negative, radix, digits }

theorem denotes_iff {text : List Char} :
    Denotes text z ↔ ∃ m : Nat,
      ((partsOf text).digits ≠ [] ∧ Digits (partsOf text).radix (partsOf text).digits m) ∧
        z = if (partsOf text).negative then -(m : Int) else m := by
  simp only [Denotes, isLine_iff, exists_eq_left, signed_iff, unsigned_iff]
  rfl

/-! ## The whole text -/

theorem radix_bounds (text : List Char) : 0 < (partsOf text).radix ∧ (partsOf text).radix ≤ 16 := by
  show 0 < (splitRadix _).1 ∧ (splitRadix _).1 ≤ 16
  unfold splitRadix
  split <;> simp

theorem toInt32?_eq_some {v : Int32} : toInt32? z = some v ↔ z = v.toInt := by
  rw [toInt32?]
  constructor
  · intro h
    split at h
    case isTrue within =>
      obtain rfl := Option.some.inj h
      exact (Int32.toInt_ofInt_of_le within.1 (Int.lt_add_one_of_le within.2)).symm
    case isFalse => cases h
  · rintro rfl
    rw [if_pos ⟨v.minValue_le_toInt, v.toInt_le⟩, Int32.ofInt_toInt]

/-- The number that a text denotes, if it is no farther from zero than any 32-bit number. -/
def signedValue? (text : List Char) : Option Int :=
  (magnitude? (partsOf text).radix (partsOf text).digits).map fun m : Nat =>
    if (partsOf text).negative then -(m : Int) else m

theorem natAbs_turned (negative : Bool) (m : Nat) :
    (if negative then -(m : Int) else m).natAbs = m := by
  cases negative <;> simp

theorem signedValue?_eq_some {text : List Char} :
    signedValue? text = some z ↔ Denotes text z ∧ z.natAbs ≤ maxMagnitude := by
  obtain ⟨positive, few⟩ := radix_bounds text
  simp only [denotes_iff, signedValue?, Option.map_eq_some_iff, magnitude?_eq_some positive few]
  constructor
  · rintro ⟨m, ⟨some, digits, within⟩, rfl⟩
    rw [natAbs_turned]
    exact ⟨⟨m, ⟨some, digits⟩, rfl⟩, within⟩
  · rintro ⟨⟨m, ⟨some, digits⟩, rfl⟩, within⟩
    rw [natAbs_turned] at within
    exact ⟨m, ⟨some, digits, within⟩, rfl⟩

/-- The answer that a 32-bit number is, if there is one. -/
def answer : Option Int32 → Answer Int32
  | none => .error .notANumber
  | some v => .ok v

theorem parse_eq (text : String) :
    parse text = answer ((signedValue? text.toList).bind toInt32?) := by
  rw [parse, signedValue?, partsOf]
  dsimp only
  cases magnitude? (splitRadix (splitSign (dropNewline text.toList)).2).1
    (splitRadix (splitSign (dropNewline text.toList)).2).2 with
  | none => rfl
  | some m => exact (answer.eq_def _).symm

theorem natAbs_toInt_le (v : Int32) : v.toInt.natAbs ≤ maxMagnitude := by
  have lower := v.le_toInt
  have upper := v.toInt_lt
  rw [maxMagnitude, Int32.toInt_minValue]
  omega

theorem signedValue?_bind_eq_some {text : List Char} {v : Int32} :
    (signedValue? text).bind toInt32? = some v ↔ Denotes text v.toInt := by
  simp only [Option.bind_eq_some_iff, signedValue?_eq_some, toInt32?_eq_some]
  constructor
  · rintro ⟨z, ⟨denotes, -⟩, rfl⟩
    exact denotes
  · exact fun denotes => ⟨_, ⟨denotes, natAbs_toInt_le v⟩, rfl⟩

theorem parse_eq_ok_iff {text : String} {v : Int32} :
    parse text = .ok v ↔ Denotes text.toList v.toInt := by
  rw [← signedValue?_bind_eq_some, parse_eq]
  cases (signedValue? text.toList).bind toInt32? <;> simp [answer]

/-- Whatever is no number is refused for that. -/
theorem parse_eq_ok_or_error (text : String) :
    (∃ v, parse text = .ok v) ∨ parse text = .error .notANumber := by
  rw [parse_eq]
  cases (signedValue? text.toList).bind toInt32? with
  | none => exact .inr rfl
  | some v => exact .inl ⟨v, rfl⟩

end InterCore.Text
