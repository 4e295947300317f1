import InterCore.Config.Message
import InterCore.Text.Cut

/-!
# Replies

A successful response as its caller sees it. A number comes with its decimal form and a newline,
ready to hand on as text; a name or a description comes as it was sent. A response that says no
becomes an error.
-/

namespace InterCore.Config

/-- Most bytes of a reply's text. -/
def maxReplyText : Nat := dataSize

/-- A successful response. -/
structure Reply where
  kind : ResponseKind
  value : Int32
  text : List UInt8
  deriving DecidableEq, Repr

namespace Reply

/-- The text of a number: its decimal form and a newline. -/
def numberText (v : Int32) : List UInt8 :=
  Text.toBytes (Text.render v ++ "\n")

/-- The reply that a response stands for, or the error if it says no. -/
def ofMessage (m : Message) : Answer Reply := do
  match ← m.responseKind with
  | .ok => return ⟨.ok, m.value, []⟩
  | .count => return ⟨.count, m.value, numberText m.value⟩
  | .value => return ⟨.value, m.value, numberText m.value⟩
  | .min => return ⟨.min, m.value, numberText m.value⟩
  | .max => return ⟨.max, m.value, numberText m.value⟩
  | .name => return ⟨.name, m.value, m.validData⟩
  | .description => return ⟨.description, m.value, m.validData⟩
  | .badIndex => throw .badIndex
  | .badRequest => throw .badRequest

/-- The text as characters, empty if it is no UTF-8. -/
def asText (r : Reply) : String :=
  Text.ofBytes r.text

end Reply

end InterCore.Config
