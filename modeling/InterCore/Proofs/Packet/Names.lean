import InterCore.Packet.Announcement
import InterCore.Proofs.Bytes.Fields
import InterCore.Proofs.Text.Boundary

/-!
# Names

A name is sent in a field of 32 bytes. A text that has room in it is the name, up to its first zero
character, and of a longer one the name is the longest beginning that has room. What is read from a
field that was made of a text is always UTF-8.
-/

namespace InterCore.Packet

open Text (beforeNul beforeNul_append_zeros beforeNul_utf8 cut fromUTF8?_toBytes LongestWithin
  longestWithin_cut stepBack? stepBack?_toBytes toBytes toBytes_eq)

namespace Name

/-- The name field of the bytes of a text, which are cut where stepping back from the size of the
field comes to an end. -/
def ofBytes? (bytes : List UInt8) : Option Name :=
  (stepBack? bytes (min bytes.length nameSize)).map fun len =>
    Area.ofBytes nameSize (bytes.take len)

/-- A name field tells a text as far as it has room for it. -/
structure Tells (name : Name) (text short : String) : Prop where
  /-- To step back comes to an end, with this field. -/
  made : ofBytes? (toBytes text) = some name
  longest : LongestWithin 32 text short
  bytes : name.toList = toBytes short ++ List.replicate (32 - (toBytes short).length) 0
  /-- The name is not empty for want of UTF-8. -/
  valid : String.fromUTF8? ⟨(beforeNul name.toList).toArray⟩ = some name.text
  chars : name.text.toList = short.toList.takeWhile (· ≠ '\x00')

variable (text : String)

theorem ofBytes?_toBytes : ofBytes? (toBytes text) = some (ofText text) := by
  obtain ⟨len, found, short⟩ := stepBack?_toBytes nameSize text
  rw [ofBytes?, found, Option.map_some, short]
  rfl

theorem toList_ofText : (ofText text).toList =
    toBytes (cut 32 text) ++ List.replicate (32 - (toBytes (cut 32 text)).length) 0 := by
  have fits : (toBytes (cut 32 text)).length ≤ 32 := (longestWithin_cut 32 text).fits
  rw [ofText, Area.toList_ofBytes, fit_eq, nameSize, List.take_of_length_le fits]

/-- What is read of the field of a text. -/
theorem beforeNul_ofText : beforeNul (ofText text).toList =
    toBytes (String.ofList ((cut 32 text).toList.takeWhile (· ≠ '\x00'))) := by
  rw [toList_ofText, beforeNul_append_zeros, toBytes_eq, beforeNul_utf8]
  rfl

theorem text_ofText :
    (ofText text).text = String.ofList ((cut 32 text).toList.takeWhile (· ≠ '\x00')) := by
  rw [Name.text, beforeNul_ofText, Text.ofBytes_toBytes]

/-- The last character has two bytes, and only one of them has room. -/
example : (ofText "0123456789012345678901234567890é").text = "0123456789012345678901234567890" := by
  rw [text_ofText]
  decide

theorem tells_ofText : (ofText text).Tells text (cut 32 text) where
  made := ofBytes?_toBytes text
  longest := longestWithin_cut 32 text
  bytes := toList_ofText text
  valid := by rw [text_ofText, beforeNul_ofText, fromUTF8?_toBytes]
  chars := by rw [text_ofText, String.toList_ofList]

end Name

end InterCore.Packet
