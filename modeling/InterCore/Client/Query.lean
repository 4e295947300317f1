import InterCore.Client.Pool

/-!
# Queries

What a client asks of the server: a question with the type of its answer. A query is turned into
one request, or it is answered without any, because the answer is known or the query makes no
sense. The reply to the request is turned into the answer.
-/

namespace InterCore.Client

open InterCore.Config (Message Reply RequestKind)

/-- What can be read of a variable. -/
inductive Access where
  | value
  | min
  | max
  | name
  | description
  deriving DecidableEq, Repr

/-- The request that reads an aspect. -/
def Access.requestKind : Access → RequestKind
  | value => .read
  | min => .min
  | max => .max
  | name => .name
  | description => .description

/-- The forms that an answer can have. -/
inductive Shape where
  | done
  | count
  | number
  | reply
  deriving DecidableEq, Repr

/-- The answers of a form. -/
abbrev Shape.Result : Shape → Type
  | done => Unit
  | count => Nat
  | number => Int32
  | reply => Reply

/-- A question whose answer has the given form. -/
inductive Query : Shape → Type where
  /-- Whether the server answers. -/
  | ping : Query .done
  /-- The number of variables. It is asked for once and then kept. -/
  | count : Query .count
  | read (index : Nat) (access : Access) : Query .reply
  | value (index : Nat) : Query .number
  /-- Sets a variable; the server brings the value into the range. -/
  | write (index : Nat) (value : Int32) : Query .done
  | writeText (index : Nat) (text : String) : Query .done
  | request (kind : RequestKind) (index value : Int32) : Query .reply

/-- How a query is answered: without a request, or by one. -/
inductive Plan (α : Type) where
  | answered (answer : Answer α)
  | ask (kind : RequestKind) (index value : Int32)

/-- A variable index as it is sent. -/
def indexArg (index : Nat) : Answer Int32 :=
  if index ≤ Int32.maxValue.toInt.toNat then .ok (Int32.ofNat index) else .error .badIndex

/-- The plan that sends a request for a variable. -/
def Plan.forVariable (index : Nat) (kind : RequestKind) (value : Int32) : Plan α :=
  match indexArg index with
  | .ok index => .ask kind index value
  | .error e => .answered (.error e)

namespace Query

/-- How a query is answered, given the number of variables if it is known. -/
def plan (known : Option Nat) : Query s → Plan s.Result
  | ping => .ask .nop (-1) 0
  | count =>
    match known with
    | some n => .answered (.ok n)
    | none => .ask .count (-1) 0
  | read index access => .forVariable index access.requestKind 0
  | value index => .forVariable index .read 0
  | write index v => .forVariable index .write v
  | writeText index text =>
    match Text.parse text with
    | .ok v => .forVariable index .write v
    | .error e => .answered (.error e)
  | request kind index v => .ask kind index v

/-- The answer that a reply gives, and the pool with what is kept of it. -/
def settle (p : Pool n) (reply : Reply) : Query s → Answer s.Result × Pool n
  | ping => (.ok (), p)
  | count =>
    if 0 ≤ reply.value.toInt then
      let count := reply.value.toInt.toNat
      (.ok count, p.cacheCount count)
    else
      (.error .protocol, p)
  | read .. => (.ok reply, p)
  | value .. => (.ok reply.value, p)
  | write .. => (.ok (), p)
  | writeText .. => (.ok (), p)
  | request .. => (.ok reply, p)

end Query

/-- A response as it came in. A message of any size but the full one is refused. -/
def decodeResponse (bytes : List UInt8) : Answer Message :=
  if bytes.length = Config.messageSize then Message.decode bytes else .error .protocol

/-- Takes in a message from the channel as the response to a transaction. -/
def Pool.receive (p : Pool n) (bytes : List UInt8) : Answer Unit × Pool n :=
  match decodeResponse bytes with
  | .error e => (.error e, p)
  | .ok m => p.complete m

end InterCore.Client
