import InterCore.Proofs.Client.Served
import InterCore.Proofs.Text.Decimal

/-!
# Numbers that are written back

A reply that tells a number has it as text, too, on a line of at most 12 bytes, for which there is
always room. The text is read as the number that it was made of. So a variable whose value is read
as text and written back stays what it was.
-/

namespace InterCore

open Config (Message Reply Request ResponseKind maxReplyText)
open Text (DecimalLine)

/-! ## Texts in buffers -/

namespace Config.Reply

/-- Room for a number while it is written. -/
def numberRoom : Nat := 16

/-- A buffer with more bytes in it, if it has room for all of them. -/
def push (room : Nat) (buffer bytes : List UInt8) : Answer (List UInt8) :=
  if buffer.length + bytes.length ≤ room then .ok (buffer ++ bytes) else .error .bufferTooSmall

/-- The pieces in which a number is written. -/
def numberPieces (v : Int32) : List (List UInt8) :=
  [Text.utf8 (if v.toInt < 0 then ['-'] else []), Text.utf8 (Text.decimal v.toInt.natAbs),
    Text.utf8 ['\n']]

/-- The text of a number. It is written to one buffer and copied to that of the reply. -/
def bufferedNumber (v : Int32) : Answer (List UInt8) := do
  let line ← (numberPieces v).foldlM (push numberRoom) []
  push maxReplyText [] line

/-- A reply whose text is put together in buffers of a fixed size. -/
def ofMessageBuffered (m : Message) : Answer Reply := do
  let kind ← m.responseKind
  match kind with
  | .ok => return ⟨kind, m.value, []⟩
  | .count | .value | .min | .max => return ⟨kind, m.value, ← bufferedNumber m.value⟩
  | .name | .description =>
    return ⟨kind, m.value,
      ← push maxReplyText [] (m.data.toList.take (min m.dataLen.toNat maxReplyText))⟩
  | .badIndex => throw .badIndex
  | .badRequest => throw .badRequest

theorem push_of_le {room : Nat} {buffer bytes : List UInt8}
    (fits : buffer.length + bytes.length ≤ room) :
    push room buffer bytes = .ok (buffer ++ bytes) := by
  rw [push, if_pos fits]

theorem foldlM_push {room : Nat} {buffer : List UInt8} {pieces : List (List UInt8)}
    (fits : buffer.length + pieces.flatten.length ≤ room) :
    pieces.foldlM (push room) buffer = .ok (buffer ++ pieces.flatten) := by
  induction pieces generalizing buffer with
  | nil => rw [List.foldlM_nil, List.flatten_nil, List.append_nil]; rfl
  | cons piece rest ih =>
    rw [List.flatten_cons, List.length_append] at fits
    rw [List.foldlM_cons, push_of_le (by omega), List.flatten_cons, ← List.append_assoc]
    refine ih ?_
    rw [List.length_append]
    omega

theorem flatten_numberPieces (v : Int32) : (numberPieces v).flatten = numberText v := by
  rw [numberText, Text.toBytes_eq, Text.toList_render_line, Text.utf8_append, Text.renderChars]
  split
  case isTrue negative =>
    rw [numberPieces, if_pos negative, Text.utf8_cons '-']
    simp [Text.utf8_eq]
  case isFalse nonneg =>
    rw [numberPieces, if_neg nonneg]
    simp [Text.utf8_eq]

theorem length_numberText_le (v : Int32) : (numberText v).length ≤ 12 := by
  have digits := Text.length_utf8_decimal_le v
  have sign : (Text.utf8 (if v.toInt < 0 then ['-'] else [])).length ≤ 1 := by
    split <;> decide
  have newline : (Text.utf8 ['\n']).length = 1 := rfl
  rw [← flatten_numberPieces, numberPieces]
  simp only [List.flatten_cons, List.flatten_nil, List.length_append, List.length_nil]
  omega

/-- There is room for every number. -/
theorem bufferedNumber_eq (v : Int32) : bufferedNumber v = .ok (numberText v) := by
  have small := length_numberText_le v
  have written : (numberPieces v).foldlM (push numberRoom) [] = .ok (numberText v) := by
    rw [← flatten_numberPieces] at small ⊢
    refine foldlM_push ?_
    rw [List.length_nil, Nat.zero_add]
    exact small.trans (by decide)
  have copied : push maxReplyText [] (numberText v) = .ok (numberText v) := by
    refine push_of_le ?_
    rw [List.length_nil, Nat.zero_add]
    exact small.trans (by decide)
  rw [bufferedNumber, written]
  exact copied

theorem push_validData (m : Message) :
    push maxReplyText [] (m.data.toList.take (min m.dataLen.toNat maxReplyText)) =
      .ok m.validData := by
  have size : m.data.toList.length = maxReplyText := Vector.length_toList
  have valid : m.data.toList.take (min m.dataLen.toNat maxReplyText) = m.validData := by
    rw [← size, ← List.take_eq_take_min]
    rfl
  rw [valid, push_of_le, List.nil_append]
  rw [Message.validData, List.length_take, List.length_nil, size]
  omega

/-- No reply is refused for want of room. -/
theorem ofMessage_eq_buffered (m : Message) : ofMessage m = ofMessageBuffered m := by
  rw [ofMessage, ofMessageBuffered]
  cases m.responseKind with
  | error e => rfl
  | ok kind =>
    rw [bufferedNumber_eq, push_validData]
    cases kind <;> rfl

/-- A reply tells a number: its text is a line in UTF-8 with the decimal form of the number, which
is read as the number again. -/
structure TellsNumber (kind : ResponseKind) (v : Int32) (r : Reply) : Prop where
  kind : r.kind = kind
  value : r.value = v
  valid : r.text = Text.toBytes r.asText
  short : r.text.length ≤ 12
  line : DecimalLine v.toInt r.asText.toList
  parsed : Text.parse r.asText = .ok v

theorem tellsNumber_number (kind : ResponseKind) (v : Int32) :
    (number kind v).TellsNumber kind v := by
  have text : (number kind v).asText = Text.render v ++ "\n" := Text.ofBytes_toBytes _
  refine ⟨rfl, rfl, ?_, length_numberText_le v, ?_, ?_⟩
  · rw [text]
    rfl
  · rw [text]
    exact Text.decimalLine_render v
  · rw [text]
    exact Text.parse_render_line v

theorem ofMessage_of_number {m : Message} {kind : ResponseKind} (known : m.responseKind = .ok kind)
    (numeric : kind ∈ [.count, .value, .min, .max]) : ofMessage m = .ok (number kind m.value) := by
  rw [ofMessage, known]
  cases kind with
  | count | value | min | max => rfl
  | _ => simp at numeric

end Config.Reply

/-! ## A variable that is read and written -/

theorem clamp_of_mem {lo hi value : Int32} (above : lo ≤ value) (below : value ≤ hi) :
    clamp lo hi value = value := by
  have upper : min value hi = value := if_pos below
  rw [clamp, upper]
  exact if_pos above

/-- What a client learns that asks about a variable. -/
def Client.Access.reply (v : Variable) : Client.Access → Reply
  | value => .number .value v.value
  | min => .number .min v.min
  | max => .number .max v.max
  | name => .worded .name v.value v.name
  | description => .worded .description v.value v.description

namespace Config.Server

variable {t : VarTable} {i : Nat} {v : Variable}

/-- What is asked about a variable without hooks is told as it stands, and nothing changes. -/
theorem answerTo_access (here : t.vars[i]? = some v) (small : i < 0x80000000)
    (hookless : v.Hookless) (access : Client.Access) :
    answerTo t ⟨access.requestKind, Int32.ofNat i, 0⟩ = (.ok (access.reply v), t) := by
  have inside : i < VarStore.count t := (List.getElem?_eq_some_iff.mp here).1
  have spot (kind : Config.RequestKind) :
      (Request.toMessage ⟨kind, Int32.ofNat i, 0⟩ 0).index = Int32.ofNat i := rfl
  obtain ⟨value, min, max, name, description⟩ := VarTable.fields_eq here
  cases access <;>
    simp only [answerTo, handle, Client.Access.requestKind, requestKind_toMessage, spot,
      index?_ofNat inside small, VarTable.sample_hookless here hookless, value, min, max, name,
      description, Reply.ofMessage_name, Reply.ofMessage_description] <;>
    rfl

theorem answerTo_read (here : t.vars[i]? = some v) (small : i < 0x80000000)
    (hookless : v.Hookless) :
    answerTo t ⟨.read, Int32.ofNat i, 0⟩ = (.ok (.number .value v.value), t) :=
  answerTo_access here small hookless .value

theorem answerTo_write (here : t.vars[i]? = some v) (small : i < 0x80000000)
    (hookless : v.Hookless) (value : Int32) :
    answerTo t ⟨.write, Int32.ofNat i, value⟩ =
      (.ok .done, ⟨t.vars.set i (v.clampedTo value), t.calls⟩) := by
  have inside : i < VarStore.count t := (List.getElem?_eq_some_iff.mp here).1
  have spot : (Request.toMessage ⟨.write, Int32.ofNat i, value⟩ 0).index = Int32.ofNat i := rfl
  have put : (Request.toMessage ⟨.write, Int32.ofNat i, value⟩ 0).value = value := rfl
  simp only [answerTo, handle, requestKind_toMessage, spot, put, index?_ofNat inside small,
    VarTable.write_hookless here hookless]
  rfl

/-- A variable that is written with its own value stays as it is. -/
theorem answerTo_write_back (here : t.vars[i]? = some v) (small : i < 0x80000000)
    (hookless : v.Hookless) (above : v.min ≤ v.value) (below : v.value ≤ v.max) :
    answerTo t ⟨.write, Int32.ofNat i, v.value⟩ = (.ok .done, t) := by
  have same : v.clampedTo v.value = v := by
    rw [Variable.clampedTo, clamp_of_mem above below]
  obtain ⟨inside, rfl⟩ := List.getElem?_eq_some_iff.mp here
  rw [answerTo_write here small hookless, same, List.set_getElem_self]

end Config.Server

namespace Client

open Config.Server

/-- A reply that tells a number has it as text, too, for which its buffers have room, and which is
read as the number again. So a client can write back what it has read: after that a variable without
hooks whose value was in its range is as it was, and so is all of the table. A variable whose index
is too large for a request is not read at all. -/
theorem numbers_survive_as_text :
    (∀ (m : Message) (kind : ResponseKind), m.responseKind = .ok kind →
      kind ∈ [.count, .value, .min, .max] →
        ∃ r, Reply.ofMessage m = .ok r ∧ Reply.ofMessageBuffered m = .ok r ∧
          r.TellsNumber kind m.value) ∧
    ∀ (n : Nat) (W : Type) (s : Surroundings (Around W) n)
      (At : W → VarTable → List Request → Prop) (p : Pool n) (w : W) (t : VarTable)
      (past : List Request) (i : Nat) (v : Variable),
      s.Serves At → p.Idle → At w t past →
      t.vars[i]? = some v → v.Hookless → v.min ≤ v.value → v.value ≤ v.max →
        (i < 2147483648 → ∃ r p₁ w₁,
          Blocking.perform s (.read i .value) p w = .ok ((.ok r, p₁), w₁) ∧
          r.TellsNumber .value v.value ∧
          ∃ p₂ w₂, Blocking.perform s (.writeText i r.asText) p₁ w₁ = .ok ((.ok (), p₂), w₂) ∧
            At w₂ t (past ++ [⟨.read, Int32.ofNat i, 0⟩, ⟨.write, Int32.ofNat i, v.value⟩])) ∧
        (2147483648 ≤ i →
          Blocking.perform s (.read i .value) p w = .ok ((.error .badIndex, p), w)) := by
  constructor
  · intro m kind known numeric
    have told := Reply.ofMessage_of_number known numeric
    exact ⟨_, told, (Reply.ofMessage_eq_buffered m).symm.trans told, Reply.tellsNumber_number _ _⟩
  · intro n W s At p w t past i v serves idle begun here hookless above below
    constructor
    · intro small
      obtain ⟨p₁, w₁, read, idle₁, -, between⟩ := serves.perform idle begun (q := .read i .value)
        (Plan.forVariable_of_lt small .read 0)
      rw [answerTo_read here small hookless] at read between
      have parsed : (Query.writeText i (Reply.number .value v.value).asText).plan p₁.count =
          .ask .write (Int32.ofNat i) v.value := by
        rw [Query.plan, (Reply.tellsNumber_number .value v.value).parsed]
        exact Plan.forVariable_of_lt small .write v.value
      obtain ⟨p₂, w₂, written, -, -, after⟩ := serves.perform idle₁ between parsed
      rw [answerTo_write_back here small hookless above below] at written after
      rw [List.append_assoc] at after
      exact ⟨_, p₁, w₁, read, Reply.tellsNumber_number _ _, p₂, w₂, written, after⟩
    · intro large
      exact Blocking.perform_of_answered (Plan.forVariable_of_le large .read 0)

/-- A table with one variable, whose value is the least there is. -/
def leastTable : VarTable where
  vars := [{
    id := 0, name := "least", description := "", value := Int32.minValue, min := Int32.minValue,
    max := 0 }]

theorem numbers_survive_as_text_of_least :
    (∃ r, Reply.ofMessage (.response 7 .min 3 Int32.minValue) = .ok r ∧
      Text.parse r.asText = .ok Int32.minValue) ∧
    ∃ r p₁ d₁ p₂ d₂,
      Blocking.perform Desk.surroundings (.read 0 .value) ({} : Pool defaultPoolSize)
        ⟨leastTable, [], []⟩ = .ok ((.ok r, p₁), d₁) ∧
      Blocking.perform Desk.surroundings (.writeText 0 r.asText) p₁ d₁ = .ok ((.ok (), p₂), d₂) ∧
      d₂.store = leastTable := by
  obtain ⟨replies, writes⟩ := numbers_survive_as_text
  constructor
  · obtain ⟨r, told, -, number⟩ :=
      replies (.response 7 .min 3 Int32.minValue) .min rfl (by decide)
    exact ⟨r, told, number.parsed⟩
  · have here : Desk.IsAt ⟨leastTable, [], []⟩ leastTable [] := rfl
    obtain ⟨r, p₁, d₁, read, -, p₂, d₂, written, rfl⟩ :=
      (writes defaultPoolSize _ _ _ _ _ _ _ 0 _ Desk.serves (Pool.Idle.init (by decide)) here rfl
        ⟨rfl, rfl⟩ (by decide) (by decide)).1 (by decide)
    exact ⟨r, p₁, d₁, p₂, _, read, written, rfl⟩

end Client

end InterCore
