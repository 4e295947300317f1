/-!
# Text as bytes

Text travels as UTF-8 in fields of a fixed size. A text that is too long for its field is cut
between two characters, never inside one. Bytes that are no UTF-8 read as the empty text.
-/

namespace InterCore.Text

/-- The longest beginning of a text whose UTF-8 form has at most `limit` bytes. -/
def cutChars (limit : Nat) : List Char → List Char
  | [] => []
  | c :: rest =>
    if c.utf8Size ≤ limit then c :: cutChars (limit - c.utf8Size) rest else []

/-- The longest beginning of a text that fits into `limit` bytes of UTF-8. -/
def cut (limit : Nat) (text : String) : String :=
  String.ofList (cutChars limit text.toList)

/-- The UTF-8 form of a text. -/
def toBytes (text : String) : List UInt8 :=
  text.toByteArray.data.toList

/-- The text that bytes stand for, empty if they are no UTF-8. -/
def ofBytes (bytes : List UInt8) : String :=
  (String.fromUTF8? ⟨bytes.toArray⟩).getD ""

/-- The bytes before the first zero byte. -/
def beforeNul (bytes : List UInt8) : List UInt8 :=
  bytes.takeWhile (· != 0)

end InterCore.Text
