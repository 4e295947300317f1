/-!
# Errors

The causes for which an operation is refused, with the text shown for each. A refusal is an
ordinary answer: the caller goes on with the state it gets back. What stops a run instead is a
`Fault`.
-/

namespace InterCore

/-- The causes of a refusal. -/
inductive Error where
  /-- There is nothing to answer with. -/
  | noData
  /-- A response whose sequence number no request is waiting under. -/
  | unknownSequence
  /-- Fewer bytes than a message needs. -/
  | bufferTooSmall
  /-- The message could not be handed over. -/
  | inputOutput
  /-- The other core has not placed the ring yet. -/
  | unassigned
  /-- A ring or a buffer at an unaligned address. -/
  | notAligned
  /-- A fixed pool or table is full. -/
  | resourceExhausted
  /-- The wait for a response was given up. -/
  | interrupted
  /-- The server has no variable with this index. -/
  | badIndex
  /-- The server does not know this kind of request. -/
  | badRequest
  /-- A ring size that is no power of two, or that differs between two rings. -/
  | invalidRingSize
  /-- A message that is malformed or out of place. -/
  | protocol
  /-- A text that denotes no number. -/
  | notANumber
  /-- No variable has this name or identifier. -/
  | unknownVariable
  deriving DecidableEq, Repr

namespace Error

/-- The text shown for a cause. -/
def message : Error → String
  | noData => "no data available"
  | unknownSequence => "no pending request with this sequence number"
  | bufferTooSmall => "buffer too small"
  | inputOutput => "I/O error"
  | unassigned => "vring not initialized"
  | notAligned => "not aligned"
  | resourceExhausted => "no free slot"
  | interrupted => "interrupted"
  | badIndex => "invalid variable index"
  | badRequest => "request rejected"
  | invalidRingSize => "invalid vring size"
  | protocol => "protocol error"
  | notANumber => "invalid number"
  | unknownVariable => "unknown variable"

end Error

/-- The answer of an operation that can be refused. -/
abbrev Answer (α : Type) := Except Error α

end InterCore
