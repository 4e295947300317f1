import InterCore.Proofs.Text.Grammar
import InterCore.Proofs.Text.Utf8
import Mathlib.Data.List.Forall2

/-!
# The decimal form

A number is written without a leading zero, so it is never taken for an octal one, and it is read as
what it was.
-/

namespace InterCore.Text

variable {n : Nat} {z : Int}

/-- A sign, if the number is negative, and its digits in a line. No zero leads but the one that
stands alone. -/
def DecimalLine (z : Int) (text : List Char) : Prop :=
  ∃ digits, text = (if z < 0 then ['-'] else []) ++ digits ++ ['\n'] ∧ Digits 10 digits z.natAbs ∧
    (digits = ['0'] ∨ ∃ c rest, digits = c :: rest ∧ c ≠ '0')

/-! ## Digits -/

theorem isDigit_ofNat {d : Nat} (small : d < 10) : IsDigit 10 (Char.ofNat ('0'.toNat + d)) d := by
  refine ⟨small, .inl ?_⟩
  interval_cases d <;> rfl

theorem utf8Size_ofNat {d : Nat} (small : d < 10) :
    (Char.ofNat ('0'.toNat + d)).utf8Size = 1 := by
  interval_cases d <;> rfl

theorem digits_concat {cs : List Char} {c : Char} {m d : Nat} (digits : Digits 10 cs m)
    (digit : IsDigit 10 c d) : Digits 10 (cs ++ [c]) (d + 10 * m) := by
  obtain ⟨ds, digits, rfl⟩ := digits
  refine ⟨ds ++ [d], List.rel_append digits (.cons digit .nil), ?_⟩
  rw [List.reverse_append, List.reverse_singleton, List.singleton_append, Nat.ofDigits_cons]

theorem digits_decimal (n : Nat) : Digits 10 (decimal n) n := by
  fun_induction decimal n with
  | case1 n last small =>
    refine ⟨[n % 10], .cons (isDigit_ofNat (Nat.mod_lt n (by decide))) .nil, ?_⟩
    rw [List.reverse_singleton, Nat.ofDigits_singleton, Nat.mod_eq_of_lt small]
  | case2 n last _ ih =>
    have whole := digits_concat ih (isDigit_ofNat (Nat.mod_lt n (by decide)))
    rwa [Nat.mod_add_div] at whole

theorem decimal_cases (n : Nat) :
    decimal n = ['0'] ∨ ∃ c rest, decimal n = c :: rest ∧ c ≠ '0' := by
  fun_induction decimal n with
  | case1 n last small =>
    rcases Nat.eq_zero_or_pos n with rfl | positive
    · exact .inl rfl
    · refine .inr ⟨last, [], rfl, ?_⟩
      show Char.ofNat ('0'.toNat + n % 10) ≠ '0'
      interval_cases n <;> decide
  | case2 n last large ih =>
    rcases ih with zero | ⟨c, rest, whole, first⟩
    · have none := digits_decimal (n / 10)
      rw [zero, digits_zero] at none
      omega
    · exact .inr ⟨c, rest ++ [last], by rw [whole, List.cons_append], first⟩

theorem length_decimal_le {k : Nat} (small : n < 10 ^ (k + 1)) : (decimal n).length ≤ k + 1 := by
  induction k generalizing n with
  | zero =>
    rw [decimal, if_pos (by omega)]
    exact Nat.le_refl 1
  | succ k ih =>
    rw [decimal]
    split
    case isTrue =>
      rw [List.length_singleton]
      exact Nat.le_add_left 1 _
    case isFalse =>
      rw [Nat.pow_succ] at small
      rw [List.length_append, List.length_singleton]
      exact Nat.succ_le_succ (ih (Nat.div_lt_of_lt_mul (by omega)))

theorem utf8Size_of_mem_decimal {c : Char} (mem : c ∈ decimal n) : c.utf8Size = 1 := by
  fun_induction decimal n with
  | case1 n last _ =>
    rw [List.mem_singleton.mp mem]
    exact utf8Size_ofNat (Nat.mod_lt n (by decide))
  | case2 n last _ ih =>
    rcases List.mem_append.mp mem with before | here
    · exact ih before
    · rw [List.mem_singleton.mp here]
      exact utf8Size_ofNat (Nat.mod_lt n (by decide))

/-- No 32-bit number has more than 10 digits. -/
theorem length_utf8_decimal_le (v : Int32) : (utf8 (decimal v.toInt.natAbs)).length ≤ 10 := by
  have near := natAbs_toInt_le v
  rw [length_utf8_of_narrow fun _ => utf8Size_of_mem_decimal]
  exact length_decimal_le (Nat.lt_of_le_of_lt near (by decide))

/-! ## A number and the line that it is written on -/

theorem unsigned_decimal (n : Nat) : Unsigned (decimal n) n := by
  have digits := digits_decimal n
  rcases decimal_cases n with zero | ⟨c, rest, whole, first⟩
  · rw [zero] at digits ⊢
    rw [digits_zero.mp digits]
    exact .zero
  · rw [whole] at digits ⊢
    exact .decimal first digits

theorem signed_renderChars (z : Int) : Signed (renderChars z) z := by
  rw [renderChars]
  split
  case isTrue negative =>
    have minus := Signed.minus (unsigned_decimal z.natAbs)
    rwa [Int.ofNat_natAbs_of_nonpos (Int.le_of_lt negative), Int.neg_neg] at minus
  case isFalse nonneg =>
    have bare := Signed.bare (unsigned_decimal z.natAbs)
    rwa [Int.natAbs_of_nonneg (Int.not_lt.mp nonneg)] at bare

theorem toList_render_line (v : Int32) :
    (render v ++ "\n").toList = renderChars v.toInt ++ ['\n'] := by
  rw [String.toList_append, render, String.toList_ofList]
  rfl

theorem decimalLine_render (v : Int32) : DecimalLine v.toInt (render v ++ "\n").toList := by
  refine ⟨decimal v.toInt.natAbs, ?_, digits_decimal _, decimal_cases _⟩
  rw [toList_render_line, renderChars]
  split <;> rfl

/-- A number is read as what was written. -/
theorem parse_render_line (v : Int32) : parse (render v ++ "\n") = .ok v := by
  refine parse_eq_ok_iff.mpr ⟨renderChars v.toInt, .inl ?_, signed_renderChars _⟩
  exact toList_render_line v

end InterCore.Text
