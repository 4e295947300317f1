import InterCore.Text.Cut

/-!
# Texts and their bytes

The bytes of a text are those of its characters, one after another. The first bytes of a text are a
text again just when they are cut between two characters: then they are the bytes of a beginning of
it, and cut inside a character they are no UTF-8.
-/

namespace InterCore.Text

variable {limit : Nat} {cs : List Char} {text short : String}

/-- The UTF-8 form of characters. -/
def utf8 (cs : List Char) : List UInt8 :=
  toBytes (String.ofList cs)

theorem utf8_eq (cs : List Char) : utf8 cs = cs.flatMap String.utf8EncodeChar := by
  rw [utf8, toBytes, String.toByteArray_ofList, List.utf8Encode]
  simp

theorem utf8_cons (c : Char) (cs : List Char) :
    utf8 (c :: cs) = String.utf8EncodeChar c ++ utf8 cs := by
  rw [utf8_eq, utf8_eq, List.flatMap_cons]

theorem utf8_append (cs ds : List Char) : utf8 (cs ++ ds) = utf8 cs ++ utf8 ds := by
  rw [utf8_eq, utf8_eq, utf8_eq, List.flatMap_append]

theorem utf8_concat (cs : List Char) (c : Char) :
    utf8 (cs ++ [c]) = utf8 cs ++ String.utf8EncodeChar c := by
  rw [utf8_append, utf8_cons, utf8_eq [], List.flatMap_nil, List.append_nil]

theorem toBytes_eq (text : String) : toBytes text = utf8 text.toList := by
  rw [utf8, String.ofList_toList]

theorem length_utf8_cons (c : Char) (cs : List Char) :
    (utf8 (c :: cs)).length = c.utf8Size + (utf8 cs).length := by
  rw [utf8_cons, List.length_append, String.length_utf8EncodeChar]

theorem length_utf8_of_narrow (narrow : ∀ c ∈ cs, c.utf8Size = 1) :
    (utf8 cs).length = cs.length := by
  induction cs with
  | nil => rfl
  | cons c rest ih =>
    obtain ⟨one, others⟩ := List.forall_mem_cons.mp narrow
    rw [length_utf8_cons, one, ih others, List.length_cons, Nat.add_comm]

theorem length_utf8_replicate (k : Nat) (c : Char) :
    (utf8 (List.replicate k c)).length = k * c.utf8Size := by
  induction k with
  | zero => rw [List.replicate_zero, utf8_eq, List.flatMap_nil, List.length_nil, Nat.zero_mul]
  | succ k ih => rw [List.replicate_succ, length_utf8_cons, ih, Nat.succ_mul, Nat.add_comm]

theorem length_toBytes (text : String) : (toBytes text).length = text.utf8ByteSize := by
  rw [toBytes, Array.length_toList]
  exact String.size_toByteArray

/-! ## The bytes of a character -/

/-- A character below 128 is one byte, and all bytes of any other are not below it. -/
theorem utf8EncodeChar_cases (c : Char) :
    (c.toNat < 128 ∧ String.utf8EncodeChar c = [UInt8.ofNat c.toNat]) ∨
      128 ≤ c.toNat ∧ ∀ b ∈ String.utf8EncodeChar c, 128 ≤ b.toNat := by
  have high {n : Nat} (low : 128 ≤ n) (room : n < 256) : 128 ≤ (UInt8.ofNat n).toNat := by
    rwa [UInt8.toNat_ofNat_of_lt' room]
  fun_cases String.utf8EncodeChar
  case case1 v small => exact .inl ⟨Nat.lt_succ_of_le small, rfl⟩
  all_goals
    refine .inr ⟨Nat.lt_of_not_le ‹¬_ ≤ 0x7f›, ?_⟩
    simp only [List.forall_mem_cons]
  · exact ⟨high (by omega) (by omega), high (by omega) (by omega), by simp⟩
  · exact ⟨high (by omega) (by omega), high (by omega) (by omega), high (by omega) (by omega),
      by simp⟩
  · exact ⟨high (by omega) (by omega), high (by omega) (by omega), high (by omega) (by omega),
      high (by omega) (by omega), by simp⟩

/-- A byte of a character is the one byte of a character below 128 only if it is that character. -/
theorem eq_of_mem_utf8EncodeChar {a c : Char} {b : UInt8} (mem : b ∈ String.utf8EncodeChar c)
    (small : a.toNat < 128) (same : b = UInt8.ofNat a.toNat) : c = a := by
  have value : b.toNat = a.toNat := by
    rw [same, UInt8.toNat_ofNat_of_lt' (Nat.lt_trans small (by decide))]
  rcases utf8EncodeChar_cases c with ⟨small', one⟩ | ⟨-, all⟩
  · rw [one, List.mem_singleton] at mem
    rw [mem, UInt8.toNat_ofNat_of_lt' (Nat.lt_trans small' (by decide))] at value
    exact Char.toNat_inj.mp value
  · exact absurd (all b mem) (by omega)

/-! ## Bytes read as a text -/

/-- The bytes of a text are valid, and read as that text. -/
theorem fromUTF8?_toBytes (text : String) :
    String.fromUTF8? ⟨(toBytes text).toArray⟩ = some text := by
  have same : (⟨(toBytes text).toArray⟩ : ByteArray) = text.toByteArray := rfl
  have valid : (⟨(toBytes text).toArray⟩ : ByteArray).IsValidUTF8 := text.isValidUTF8
  rw [String.fromUTF8?, dif_pos valid]
  exact congrArg some (String.toByteArray_inj.mp same)

@[simp]
theorem ofBytes_toBytes (text : String) : ofBytes (toBytes text) = text := by
  rw [ofBytes, fromUTF8?_toBytes, Option.getD_some]

theorem utf8_injective {ds : List Char} (same : utf8 cs = utf8 ds) : cs = ds := by
  have texts := congrArg ofBytes same
  rw [utf8, utf8, ofBytes_toBytes, ofBytes_toBytes] at texts
  exact String.ofList_inj.mp texts

/-- The first `limit` bytes of a text are whole characters. -/
def WholeWithin (limit : Nat) (text : String) : Prop :=
  ∃ cs, cs <+: text.toList ∧ utf8 cs = (toBytes text).take limit

theorem wholeWithin_of_le (fits : (toBytes text).length ≤ limit) : WholeWithin limit text := by
  refine ⟨text.toList, List.prefix_refl _, ?_⟩
  rw [List.take_of_length_le fits, toBytes_eq]

theorem utf8_isPrefix {ds : List Char} (h : cs <+: ds) : utf8 cs <+: utf8 ds := by
  obtain ⟨rest, rfl⟩ := h
  rw [utf8_append]
  exact List.prefix_append _ _

/-- The first bytes of a text that are UTF-8 are whole characters of it. -/
theorem wholeWithin_of_valid
    (valid : (⟨((toBytes text).take limit).toArray⟩ : ByteArray).IsValidUTF8) :
    WholeWithin limit text := by
  by_cases fits : (toBytes text).length ≤ limit
  · exact wholeWithin_of_le fits
  · have within : limit ≤ text.utf8ByteSize := by
      rw [← length_toBytes]
      exact Nat.le_of_not_le fits
    have bytes : (⟨((toBytes text).take limit).toArray⟩ : ByteArray) =
        text.toByteArray.extract 0 limit := by
      refine ByteArray.ext (Array.toList_inj.mp ?_)
      simp [toBytes]
    rw [bytes] at valid
    have boundary : (⟨limit⟩ : String.Pos.Raw).IsValid text :=
      String.Pos.Raw.isValid_iff_isValidUTF8_extract_zero.mpr ⟨within, valid⟩
    obtain ⟨i, size⟩ := String.Pos.Raw.isValid_iff_exists_take_toList.mp boundary
    refine ⟨text.toList.take i, List.take_prefix _ _, ?_⟩
    have beginning := utf8_isPrefix (List.take_prefix i text.toList)
    rw [← toBytes_eq] at beginning
    rw [List.prefix_iff_eq_take.mp beginning, utf8, length_toBytes, ← size]

theorem ofBytes_take_of_whole (beginning : utf8 cs = (toBytes text).take limit) :
    ofBytes ((toBytes text).take limit) = String.ofList cs := by
  rw [← beginning, utf8, ofBytes_toBytes]

/-! ## Cutting between characters -/

/-- The longest beginning of a text that has at most `limit` bytes. -/
structure LongestWithin (limit : Nat) (text short : String) : Prop where
  beginning : short.toList <+: text.toList
  fits : (toBytes short).length ≤ limit
  longest : ∀ cs, cs <+: text.toList → (utf8 cs).length ≤ limit → cs <+: short.toList

theorem LongestWithin.unique {short' : String} (h : LongestWithin limit text short)
    (h' : LongestWithin limit text short') : short = short' := by
  have within := h'.longest _ h.beginning (toBytes_eq short ▸ h.fits)
  have within' := h.longest _ h'.beginning (toBytes_eq short' ▸ h'.fits)
  exact String.toList_inj.mp (within.eq_of_length_le within'.length_le)

theorem prefix_cutChars_iff {ds : List Char} :
    ds <+: cutChars limit cs ↔ ds <+: cs ∧ (utf8 ds).length ≤ limit := by
  induction cs generalizing limit ds with
  | nil =>
    rw [cutChars, List.prefix_nil]
    refine ⟨?_, And.left⟩
    rintro rfl
    exact ⟨rfl, Nat.zero_le _⟩
  | cons c rest ih =>
    rw [cutChars]
    cases ds with
    | nil => exact iff_of_true (List.nil_prefix) ⟨List.nil_prefix, Nat.zero_le _⟩
    | cons d ds =>
      rw [length_utf8_cons, List.cons_prefix_cons]
      split
      case isTrue fits =>
        rw [List.cons_prefix_cons, ih, and_assoc]
        refine and_congr_right ?_
        rintro rfl
        refine and_congr_right ?_
        intro _
        omega
      case isFalse large =>
        refine iff_of_false ?_ ?_
        · rw [List.prefix_nil]
          exact List.cons_ne_nil _ _
        · rintro ⟨⟨rfl, -⟩, fits⟩
          omega

theorem longestWithin_cut (limit : Nat) (text : String) :
    LongestWithin limit text (cut limit text) := by
  have chars : (cut limit text).toList = cutChars limit text.toList := String.toList_ofList
  have self := prefix_cutChars_iff.mp (List.prefix_refl (cutChars limit text.toList))
  refine ⟨by rw [chars]; exact self.1, self.2, ?_⟩
  intro cs beginning fits
  rw [chars]
  exact prefix_cutChars_iff.mpr ⟨beginning, fits⟩

/-- A character of a text lies across the end of its first `limit` bytes. -/
def Torn (limit : Nat) (text : String) : Prop :=
  ∃ init c rest, text.toList = init ++ c :: rest ∧
    (utf8 init).length < limit ∧ limit < (utf8 init).length + c.utf8Size

theorem wholeWithin_of_not_torn (clean : ¬Torn limit text) : WholeWithin limit text := by
  obtain ⟨beginning, fits, longest⟩ := longestWithin_cut limit text
  rw [toBytes_eq] at fits
  obtain ⟨rest, whole⟩ := beginning
  cases rest with
  | nil =>
    rw [List.append_nil] at whole
    refine wholeWithin_of_le ?_
    rwa [toBytes_eq, ← whole]
  | cons c rest =>
    have beyond : limit < (utf8 (cut limit text).toList).length + c.utf8Size := by
      refine Nat.lt_of_not_le fun fits' => ?_
      have more := longest ((cut limit text).toList ++ [c]) ⟨rest, by rw [← whole]; simp⟩ ?_
      · exact absurd more.length_le (by simp)
      · rwa [utf8_concat, List.length_append, String.length_utf8EncodeChar]
    have size : (utf8 (cut limit text).toList).length = limit := by
      refine Nat.le_antisymm fits (Nat.le_of_not_lt fun less => ?_)
      exact clean ⟨_, c, rest, whole.symm, less, beyond⟩
    refine ⟨_, ⟨_, whole⟩, ?_⟩
    rw [toBytes_eq, ← whole, utf8_append, List.take_left' size]

theorem Torn.not_wholeWithin (torn : Torn limit text) : ¬WholeWithin limit text := by
  obtain ⟨init, c, rest, whole, below, beyond⟩ := torn
  rintro ⟨cs, beginning, bytes⟩
  have upTo : (utf8 (init ++ [c])).length = (utf8 init).length + c.utf8Size := by
    rw [utf8_concat, List.length_append, String.length_utf8EncodeChar]
  have inside : init ++ [c] <+: text.toList := ⟨rest, by rw [whole]; simp⟩
  have size : (utf8 cs).length = limit := by
    have enough := (utf8_isPrefix inside).length_le
    rw [bytes, toBytes_eq, List.length_take]
    omega
  rcases List.prefix_or_prefix_of_prefix beginning inside with short | long
  · rcases List.prefix_concat_iff.mp short with rfl | shorter
    · omega
    · have less := (utf8_isPrefix shorter).length_le
      omega
  · have more := (utf8_isPrefix long).length_le
    omega

theorem not_torn_of_le (fits : (toBytes text).length ≤ limit) : ¬Torn limit text :=
  fun torn => torn.not_wholeWithin (wholeWithin_of_le fits)

/-- Bytes of a text that end inside a character are no UTF-8. -/
theorem Torn.ofBytes_take (torn : Torn limit text) : ofBytes ((toBytes text).take limit) = "" := by
  rw [ofBytes, String.fromUTF8?,
    dif_neg fun valid => torn.not_wholeWithin (wholeWithin_of_valid valid)]
  rfl

/-- A text whose bytes were cut before, but between two characters and no shorter, is cut as if they
had not been. -/
theorem longestWithin_cut_again {long : Nat} (le : limit ≤ long) (clean : ¬Torn long text) :
    LongestWithin limit text (cut limit (ofBytes ((toBytes text).take long))) := by
  obtain ⟨whole, beginning, bytes⟩ := wholeWithin_of_not_torn clean
  rw [ofBytes_take_of_whole bytes]
  obtain ⟨inside, fits, longest⟩ := longestWithin_cut limit (String.ofList whole)
  rw [String.toList_ofList] at inside longest
  refine ⟨inside.trans beginning, fits, ?_⟩
  intro cs beginning' fits'
  apply longest cs _ fits'
  rcases List.prefix_or_prefix_of_prefix beginning' beginning with within | beyond
  · exact within
  · -- What fits into fewer bytes was not cut off before.
    have kept : utf8 cs <+: utf8 whole := by
      rw [bytes]
      refine List.prefix_take_iff.mpr ⟨?_, Nat.le_trans fits' le⟩
      rw [toBytes_eq]
      exact utf8_isPrefix beginning'
    obtain rfl := utf8_injective (kept.eq_of_length_le (utf8_isPrefix beyond).length_le)
    exact List.prefix_refl cs

end InterCore.Text
