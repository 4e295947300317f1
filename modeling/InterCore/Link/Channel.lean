import InterCore.Packet.Announcement
import InterCore.Packet.Header

/-!
# Channels

Several named channels share one link. A channel has an address of its own, and from the first
message on it knows the address at the other end. Its handler is given each message, works on the
state of the application, and says what to send back to the sender.
-/

namespace InterCore.Link

/-- Number of slots of the channel table. -/
def maxChannels : Nat := 5

/-- Address of the first channel; further channels count up. -/
def firstLocalAddr : UInt32 := 0x50

/-- The two ends of a channel as a handler sees them. -/
structure Endpoint where
  localAddr : UInt32
  /-- Address of the sender of the message that is handled. -/
  remoteAddr : UInt32
  deriving DecidableEq, Repr

/-- What is sent back for a message, one payload after the other. A payload is made when those
before it have gone out. -/
inductive Replies where
  | done
  | next (data : List UInt8) (rest : Unit → Replies)

namespace Replies

/-- The replies that are known from the beginning. -/
def ofList : List (List UInt8) → Replies
  | [] => done
  | data :: rest => next data fun _ => ofList rest

/-- All payloads of some replies in order. -/
def toList : Replies → List (List UInt8)
  | done => []
  | next data rest => data :: toList (rest ())

@[simp]
theorem toList_ofList (payloads : List (List UInt8)) : (ofList payloads).toList = payloads := by
  induction payloads with
  | nil => rfl
  | cons data rest ih => simp [ofList, toList, ih]

end Replies

/-- What a channel does with a message: what it sends back, and the application's state after it. -/
abbrev Handler (σ : Type) := Endpoint → List UInt8 → σ → Replies × σ

/-- How far a channel has come. There is no way back. -/
inductive ChannelState where
  | unused
  /-- Announced to the other core, whose address is not known yet. -/
  | announced
  /-- A message has arrived, so that the other end's address is known. -/
  | up
  deriving DecidableEq, Repr

/-- One slot of the channel table. -/
structure Channel (σ : Type) where
  localAddr : UInt32 := 0
  remoteAddr : UInt32 := Packet.anyAddr
  state : ChannelState := .unused
  name : Packet.Name := Area.ofBytes Packet.nameSize []
  handler : Handler σ := fun _ _ app => (.done, app)

namespace Channel

/-- Whether a channel was created. -/
def isLive (c : Channel σ) : Bool :=
  c.state != .unused

end Channel

end InterCore.Link
