import InterCore.Config.Reply

/-!
# The transaction pool

A client may have several requests outstanding. Each takes a slot of a fixed pool and a sequence
number, and is on the pending list until a response with that number arrives. Its ticket then
collects the result, which frees the slot. Free slots form a stack; at first slot 0 is on top.

A ticket that is dropped before the response arrives leaves its slot abandoned: it stays pending,
and the response that comes late frees it.
-/

namespace InterCore.Client

open InterCore.Config (Message Reply)

/-- Number of transactions of a pool where nothing else is said. -/
def defaultPoolSize : Nat := 16

/-- How far the transaction in a slot has come. -/
inductive SlotState where
  | free
  /-- A ticket waits for the response. -/
  | waiting
  /-- Nobody waits for the response any more. -/
  | abandoned
  /-- The response has arrived. -/
  | done (result : Answer Reply)

/-- A slot of the pool. Its number is the one of the transaction that had it last. -/
structure Slot where
  seq : UInt32 := 0
  state : SlotState := .free

/-- The right to the result of a request. A ticket is finished once the result was collected. -/
structure Ticket (n : Nat) where
  slot : Fin n
  seq : UInt32
  finished : Bool := false

/-- A pool of `n` transactions. -/
structure Pool (n : Nat) where
  slots : Vector Slot n := Vector.replicate n {}
  /-- The free slots, the next one to use first. -/
  free : List (Fin n) := List.finRange n
  /-- The sequence numbers that wait for a response, each with its slot. -/
  pending : List (UInt32 × Fin n) := []
  nextSeq : UInt32 := 0
  /-- The number of variables, once it is known. -/
  count : Option Nat := none

/-- A list without the element at a position, whose place the last element takes. -/
def swapRemove (l : List α) (pos : Nat) : List α :=
  match l.getLast? with
  | none => l
  | some last => (l.set pos last).dropLast

namespace Pool

/-- How far the transaction in a slot has come. -/
def stateOf (p : Pool n) (slot : Fin n) : SlotState :=
  (p.slots.get slot).state

/-- The pool with a slot in another state. The lists do not change. -/
def setState (p : Pool n) (slot : Fin n) (state : SlotState) : Pool n :=
  { p with slots := p.slots.set slot { p.slots.get slot with state } slot.isLt }

/-- Puts a slot on the stack of free slots, unless that is full. -/
def release (p : Pool n) (slot : Fin n) : Pool n :=
  if p.free.length < n then { p with free := slot :: p.free } else p

/-- Takes the first pending entry of a slot off the list, if there is one. -/
def unlist (p : Pool n) (slot : Fin n) : Pool n :=
  match p.pending.findIdx? (·.2 = slot) with
  | none => p
  | some pos => { p with pending := swapRemove p.pending pos }

/-- Starts a transaction under the next sequence number. -/
def start (p : Pool n) : Answer (Ticket n) × Pool n :=
  match p.free with
  | [] => (.error .resourceExhausted, p)
  | slot :: free =>
    let seq := p.nextSeq
    let p := { p with free, nextSeq := seq + 1, slots := p.slots.set slot ⟨seq, .waiting⟩ slot.isLt }
    if p.pending.length < n then
      (.ok { slot, seq }, { p with pending := p.pending ++ [(seq, slot)] })
    else
      (.error .resourceExhausted, (p.setState slot .free).release slot)

/-- Hands a response to the transaction that waits for it. A response that says no, or that makes no
sense, is a result as well. -/
def complete (p : Pool n) (m : Message) : Answer Unit × Pool n :=
  match p.pending.findIdx? (·.1 = m.seq) with
  | none => (.error .unknownSequence, p)
  | some pos =>
    match p.pending[pos]? with
    | none => (.error .unknownSequence, p)
    | some (_, slot) =>
      let p := { p with pending := swapRemove p.pending pos }
      match p.stateOf slot with
      | .abandoned => (.ok (), (p.setState slot .free).release slot)
      | _ => (.ok (), p.setState slot (.done (Reply.ofMessage m)))

/-- Number of transactions that wait for a response, abandoned ones included. -/
def pendingCount (p : Pool n) : Nat :=
  p.pending.length

/-- Number of free slots. -/
def available (p : Pool n) : Nat :=
  p.free.length

/-- The pool that knows the number of variables. -/
def cacheCount (p : Pool n) (count : Nat) : Pool n :=
  { p with count := some count }

end Pool

namespace Ticket

/-- Whether there is a result in the ticket's slot. It is not asked whose result it is. -/
def isDone (t : Ticket n) (p : Pool n) : Bool :=
  match p.stateOf t.slot with
  | .done _ => true
  | _ => false

/-- Collects the result, if the response has arrived. -/
def take? (t : Ticket n) (p : Pool n) : Option (Answer Reply) × Ticket n × Pool n :=
  if t.finished then
    (none, t, p)
  else
    match p.stateOf t.slot with
    | .done result =>
      (some result, { t with finished := true }, (p.setState t.slot .free).release t.slot)
    | _ => (none, t, p)

/-- Withdraws a request that was never sent. -/
def cancel (t : Ticket n) (p : Pool n) : Pool n :=
  ((p.unlist t.slot).setState t.slot .free).release t.slot

/-- Gives the ticket up. A request whose response is still to come is abandoned. -/
def drop (t : Ticket n) (p : Pool n) : Pool n :=
  if t.finished then
    p
  else
    match p.stateOf t.slot with
    | .waiting => p.setState t.slot .abandoned
    | .done _ => (p.setState t.slot .free).release t.slot
    | _ => p

end Ticket

end InterCore.Client
