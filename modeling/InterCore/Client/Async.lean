import InterCore.Client.Query

/-!
# The asynchronous client

A query is a future that is polled. Nothing happens before the first poll, which starts the
transaction and the sending. Once the message is sent, every poll looks for the result; if there is
none, the future begins a delay, and the delay is over at the next poll. A future that is dropped
gives up its request.
-/

namespace InterCore.Client

open InterCore.Config (Message Reply)

/-- How far the sending of a message is. `F` is what a link keeps of a message under way. -/
inductive Sending (F : Type) where
  | underWay (flight : F)
  | over (result : Answer Unit)

/-- What an asynchronous client needs of its surroundings. -/
structure AsyncLink (m : Type → Type) (n : Nat) (F : Type) where
  start : List UInt8 → StateT (Pool n) m (Sending F)
  resume : F → StateT (Pool n) m (Sending F)
  delay : StateT (Pool n) m Unit

/-- A query that is being answered. -/
inductive Future (n : Nat) (F : Type) (shape : Shape) where
  | fresh (query : Query shape)
  | sending (query : Query shape) (ticket : Ticket n) (flight : F)
  /-- The request is sent, and the result was not there when last looked for. -/
  | waiting (query : Query shape) (ticket : Ticket n)

/-- What a poll gives: the future as it goes on, or the answer. -/
inductive Progress (n : Nat) (F : Type) (shape : Shape) where
  | pending (future : Future n F shape)
  | ready (answer : Answer shape.Result)

namespace Future

variable [Monad m]

/-- Looks for the result of a request that was sent. -/
def check (link : AsyncLink m n F) (q : Query shape) (ticket : Ticket n) :
    StateT (Pool n) m (Progress n F shape) := do
  match ticket.take? (← get) with
  | (some (.ok reply), _, p) =>
    let (answer, p) := q.settle p reply
    set p
    return .ready answer
  | (some (.error e), _, p) =>
    set p
    return .ready (.error e)
  | (none, _, _) =>
    link.delay
    return .pending (.waiting q ticket)

/-- Goes on from where the sending is. A request that cannot be sent is withdrawn. -/
def sent (link : AsyncLink m n F) (q : Query shape) (ticket : Ticket n) :
    Sending F → StateT (Pool n) m (Progress n F shape)
  | .underWay flight => return .pending (.sending q ticket flight)
  | .over (.error e) => do
    modify ticket.cancel
    return .ready (.error e)
  | .over (.ok ()) => check link q ticket

/-- Carries a future on as far as it goes by now. A query that needs no request is answered at
once. -/
def poll (link : AsyncLink m n F) : Future n F shape → StateT (Pool n) m (Progress n F shape)
  | fresh q => do
    match q.plan (← get).count with
    | .answered answer => return .ready answer
    | .ask kind index value =>
      match ← modifyGet Pool.start with
      | .error e => return .ready (.error e)
      | .ok ticket => do
        let sending ← link.start (Message.request ticket.seq kind index value).encode
        sent link q ticket sending
  | sending q ticket flight => do sent link q ticket (← link.resume flight)
  | waiting q ticket => check link q ticket

/-- Gives up the request of a future, if it has made one. -/
def drop (p : Pool n) : Future n F shape → Pool n
  | fresh _ => p
  | sending _ ticket _ => ticket.drop p
  | waiting _ ticket => ticket.drop p

end Future

end InterCore.Client
