import InterCore.Client.Query

/-!
# The blocking client

A caller sends its request and waits until the response has arrived. How a message is sent and how
a caller waits is up to the surroundings; other callers and incoming messages may change the pool
meanwhile.
-/

namespace InterCore.Client

open InterCore.Config (Message Reply RequestKind)

/-- Work on the pool within surroundings `m`. -/
abbrev OnPool (m : Type → Type) (n : Nat) := StateT (Pool n) m

/-- What a blocking client needs of its surroundings. -/
structure Surroundings (m : Type → Type) (n : Nat) where
  send : List UInt8 → OnPool m n (Answer Unit)
  /-- Blocks until the ticket's response has arrived, or gives up with an error. -/
  waitFor : Ticket n → OnPool m n (Answer Unit)

namespace Blocking

variable [Monad m]

/-- Takes in a message from the channel, and wakes the callers if it is somebody's response. -/
def onMessage (wakeAll : OnPool m n Unit) (bytes : List UInt8) : OnPool m n (Answer Unit) := do
  match ← modifyGet (·.receive bytes) with
  | .error e => return .error e
  | .ok () =>
    wakeAll
    return .ok ()

/-- Collects the result that a caller has waited for. A caller that was woken without a result
leaves as one whose wait was given up. -/
def collect (ticket : Ticket n) (p : Pool n) : Answer Reply × Pool n :=
  match ticket.take? p with
  | (some result, _, p) => (result, p)
  | (none, ticket, p) => (.error .interrupted, ticket.drop p)

/-- Sends a request and waits for its reply. A request that cannot be sent is withdrawn; one whose
wait is given up stays outstanding until its response arrives. -/
def request (s : Surroundings m n) (kind : RequestKind) (index value : Int32) :
    OnPool m n (Answer Reply) := do
  match ← modifyGet Pool.start with
  | .error e => return .error e
  | .ok ticket =>
    match ← s.send (Message.request ticket.seq kind index value).encode with
    | .error e =>
      modify ticket.cancel
      return .error e
    | .ok () =>
      match ← s.waitFor ticket with
      | .error e =>
        modify ticket.drop
        return .error e
      | .ok () => modifyGet (collect ticket)

/-- Answers a query, with a request to the server if it takes one. -/
def perform (s : Surroundings m n) (q : Query shape) : OnPool m n (Answer shape.Result) := do
  match q.plan (← get).count with
  | .answered answer => return answer
  | .ask kind index value =>
    match ← request s kind index value with
    | .error e => return .error e
    | .ok reply => modifyGet (q.settle · reply)

end Blocking

end InterCore.Client
