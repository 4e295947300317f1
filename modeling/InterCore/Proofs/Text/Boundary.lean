import InterCore.Proofs.Text.Utf8

/-!
# Cutting by bytes

A machine that cuts a text has only its bytes. The byte at a position tells whether a character
begins there, and the machine steps back until one does. It comes to the beginning of the text at
the latest, and what is before the position where it stops is the longest beginning that fits.
-/

namespace InterCore.Text

variable {bytes : List UInt8} {cs : List Char} {c : Char} {b : UInt8} {i j limit : Nat}

/-- A byte that goes on with a character. -/
def continues (b : UInt8) : Bool :=
  0x80 ≤ b && b < 0xc0

/-- Whether a position in the bytes of a text is between two characters, as the byte there tells. -/
def isBoundary (bytes : List UInt8) (i : Nat) : Bool :=
  i == 0 || match bytes[i]? with
    | some b => !continues b
    | none => i == bytes.length

/-- The last position up to `i` that is between two characters. There is none if the search would go
on below zero. -/
def stepBack? (bytes : List UInt8) : (i : Nat) → Option Nat
  | 0 => if isBoundary bytes 0 then some 0 else none
  | i + 1 => if isBoundary bytes (i + 1) then some (i + 1) else stepBack? bytes i

/-! ## Positions between characters -/

theorem continues_ofNat {n : Nat} (room : n < 256) :
    continues (UInt8.ofNat n) = true ↔ 128 ≤ n ∧ n < 192 := by
  have value : (UInt8.ofNat n).toNat = n := UInt8.toNat_ofNat_of_lt' room
  simp only [continues, Bool.and_eq_true, decide_eq_true_eq, UInt8.le_iff_toNat_le,
    UInt8.lt_iff_toNat_lt, value]
  rfl

/-- Only the first byte of a character does not go on with one. -/
theorem utf8EncodeChar_eq (c : Char) :
    ∃ b bs, String.utf8EncodeChar c = b :: bs ∧ continues b = false ∧
      ∀ x ∈ bs, continues x = true := by
  have more {n : Nat} (low : 128 ≤ n) (high : n < 192) : continues (UInt8.ofNat n) = true :=
    (continues_ofNat (Nat.lt_trans high (by decide))).mpr ⟨low, high⟩
  have first {n : Nat} (room : n < 256) (out : n < 128 ∨ 192 ≤ n) :
      continues (UInt8.ofNat n) = false := by
    rw [Bool.eq_false_iff, ne_eq, continues_ofNat room]
    omega
  fun_cases String.utf8EncodeChar
  case case1 v small =>
    exact ⟨_, _, rfl, first (by omega) (by omega), by simp⟩
  all_goals
    refine ⟨_, _, rfl, first (by omega) (by omega), ?_⟩
    simp only [List.forall_mem_cons]
  · exact ⟨more (by omega) (by omega), by simp⟩
  · exact ⟨more (by omega) (by omega), more (by omega) (by omega), by simp⟩
  · exact ⟨more (by omega) (by omega), more (by omega) (by omega), more (by omega) (by omega),
      by simp⟩

/-- Behind other bytes a position is told by its own bytes. -/
theorem isBoundary_of_append {init : List UInt8} {k : Nat}
    (h : isBoundary (init ++ bytes) (init.length + k) = true) : isBoundary bytes k = true := by
  cases k with
  | zero => rfl
  | succ k =>
    have byte : (init ++ bytes)[init.length + (k + 1)]? = bytes[k + 1]? := by
      rw [List.getElem?_append_right (Nat.le_add_right _ _), Nat.add_sub_cancel_left]
    rw [isBoundary, byte] at h
    rw [isBoundary]
    split at h <;> simp_all

/-- The ends of a text's beginnings are between characters. -/
theorem isBoundary_of_prefix {ds : List Char} (beginning : ds <+: cs) :
    isBoundary (utf8 cs) (utf8 ds).length = true := by
  obtain ⟨rest, rfl⟩ := beginning
  have byte : (utf8 (ds ++ rest))[(utf8 ds).length]? = (utf8 rest)[0]? := by
    rw [utf8_append, List.getElem?_append_right (Nat.le_refl _), Nat.sub_self]
  rw [isBoundary, byte]
  cases rest with
  | nil => simp [utf8_eq]
  | cons c rest =>
    obtain ⟨b, bs, char, first, -⟩ := utf8EncodeChar_eq c
    rw [utf8_cons, char, List.cons_append, List.getElem?_cons_zero]
    simp only [first, Bool.not_false, Bool.or_true]

/-- The positions between characters are the ends of the text's beginnings. -/
theorem isBoundary_utf8 :
    isBoundary (utf8 cs) i = true ↔ ∃ ds, ds <+: cs ∧ (utf8 ds).length = i := by
  constructor
  · intro h
    induction cs generalizing i with
    | nil =>
      cases i with
      | zero => exact ⟨[], List.nil_prefix, rfl⟩
      | succ i => cases h
    | cons c rest ih =>
      obtain ⟨b, bs, char, -, others⟩ := utf8EncodeChar_eq c
      have size : (b :: bs).length = (String.utf8EncodeChar c).length := by rw [char]
      rw [utf8_cons, char] at h
      cases i with
      | zero => exact ⟨[], List.nil_prefix, rfl⟩
      | succ i =>
        by_cases inside : i < bs.length
        · -- Inside the first character every byte goes on with it.
          have goesOn : continues bs[i] = true := others _ (List.getElem_mem inside)
          have byte : (b :: bs ++ utf8 rest)[i + 1]? = some bs[i] := by
            rw [List.cons_append, List.getElem?_cons_succ, List.getElem?_append_left inside,
              List.getElem?_eq_getElem inside]
          rw [isBoundary, byte] at h
          simp [goesOn] at h
        · have behind : i + 1 = (b :: bs).length + (i - bs.length) := by
            rw [List.length_cons]
            omega
          rw [behind] at h ⊢
          obtain ⟨ds, beginning, length⟩ := ih (isBoundary_of_append h)
          refine ⟨c :: ds, (List.prefix_cons_inj c).mpr beginning, ?_⟩
          rw [utf8_cons, List.length_append, length, size]
  · rintro ⟨ds, beginning, rfl⟩
    exact isBoundary_of_prefix beginning

/-! ## Stepping back -/

/-- The search ends, at the last position that is between two characters. -/
theorem stepBack?_eq_some (bytes : List UInt8) (i : Nat) :
    ∃ j, stepBack? bytes i = some j ∧ j ≤ i ∧ isBoundary bytes j = true ∧
      ∀ k ≤ i, isBoundary bytes k = true → k ≤ j := by
  induction i with
  | zero => exact ⟨0, rfl, Nat.le_refl 0, rfl, fun k le _ => le⟩
  | succ i ih =>
    rw [stepBack?]
    by_cases here : isBoundary bytes (i + 1) = true
    · rw [if_pos here]
      exact ⟨i + 1, rfl, Nat.le_refl _, here, fun k le _ => le⟩
    · rw [if_neg here]
      obtain ⟨j, found, le, boundary, last⟩ := ih
      refine ⟨j, found, Nat.le_succ_of_le le, boundary, ?_⟩
      intro k within there
      rcases Nat.le_succ_iff.mp within with earlier | rfl
      · exact last k earlier there
      · exact absurd there here

/-- Stepping back from the most bytes that a field has room for cuts off the longest beginning of a
text that fits. -/
theorem stepBack?_toBytes (limit : Nat) (text : String) :
    ∃ j, stepBack? (toBytes text) (min (toBytes text).length limit) = some j ∧
      (toBytes text).take j = toBytes (cut limit text) := by
  obtain ⟨beginning, fits, longest⟩ := longestWithin_cut limit text
  have whole := utf8_isPrefix beginning
  rw [← toBytes_eq, ← toBytes_eq] at whole
  obtain ⟨j, found, le, boundary, last⟩ :=
    stepBack?_eq_some (toBytes text) (min (toBytes text).length limit)
  refine ⟨j, found, ?_⟩
  have size : j = (toBytes (cut limit text)).length := by
    refine Nat.le_antisymm ?_ (last _ (Nat.le_min.mpr ⟨whole.length_le, fits⟩) ?_)
    · rw [toBytes_eq text] at boundary
      obtain ⟨ds, inside, rfl⟩ := isBoundary_utf8.mp boundary
      rw [toBytes_eq (cut limit text)]
      exact (utf8_isPrefix (longest ds inside (Nat.le_trans le (Nat.min_le_right _ _)))).length_le
    · rw [toBytes_eq text, toBytes_eq (cut limit text)]
      exact isBoundary_of_prefix beginning
  rw [size]
  exact (List.prefix_iff_eq_take.mp whole).symm

/-! ## Text before a zero byte -/

/-- Only the zero character has a zero byte. -/
theorem beforeNul_utf8 (cs : List Char) :
    beforeNul (utf8 cs) = utf8 (cs.takeWhile (· ≠ '\x00')) := by
  induction cs with
  | nil => rfl
  | cons c rest ih =>
    rw [utf8_cons]
    by_cases nul : c = '\x00'
    · subst nul
      rfl
    · have nonzero : ∀ b ∈ String.utf8EncodeChar c, (b != 0) = true := by
        intro b mem
        rw [bne_iff_ne]
        rintro rfl
        exact nul (eq_of_mem_utf8EncodeChar mem (by decide) rfl)
      have kept : (c :: rest).takeWhile (· ≠ '\x00') = c :: rest.takeWhile (· ≠ '\x00') :=
        List.takeWhile_cons_of_pos (decide_eq_true nul)
      rw [kept, utf8_cons, ← ih]
      exact List.takeWhile_append_of_pos nonzero

/-- Zero bytes behind a text make no difference. -/
theorem beforeNul_append_zeros (bytes : List UInt8) (n : Nat) :
    beforeNul (bytes ++ List.replicate n 0) = beforeNul bytes := by
  induction bytes with
  | nil => cases n <;> rfl
  | cons b rest ih =>
    simp only [beforeNul] at ih
    rw [beforeNul, beforeNul, List.cons_append, List.takeWhile_cons, List.takeWhile_cons, ih]

end InterCore.Text
