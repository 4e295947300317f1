import InterCore.Client.Pool

/-!
# Bench for the transaction pool

Tickets go by names that a script gives them. A finished ticket may be used again, which the pool
answers as it stands then.
-/

namespace InterCore.Bench.Pool

open InterCore.Client (Ticket)
open InterCore.Config (Message Reply)

/-- The pool and the tickets by name. -/
structure State (n : Nat) where
  pool : Client.Pool n := {}
  tickets : List (String × Ticket n) := []

namespace State

/-- The state without the ticket of a name. -/
def forget (s : State n) (name : String) : State n :=
  { s with tickets := s.tickets.filter (·.1 ≠ name) }

/-- The state with a ticket under a name, in place of one that was there. -/
def keep (s : State n) (name : String) (ticket : Ticket n) : State n :=
  { s with tickets := (name, ticket) :: (s.forget name).tickets }

end State

/-- One thing that happens to the pool or to a ticket. -/
inductive Step where
  | start (name : String)
  | complete (m : Message)
  | seq (name : String)
  | isDone (name : String)
  | take (name : String)
  | drop (name : String)
  | cancel (name : String)
  | cache (count : Nat)

/-- What a step answers. -/
inductive Value where
  | noTicket
  | done
  | started (seq : Answer UInt32)
  | completed (answer : Answer Unit)
  | seq (seq : UInt32)
  | isDone (done : Bool)
  | taken (result : Option (Answer Reply))

/-- Work with the ticket of a name, if there is one. -/
def withTicket (s : State n) (name : String) (f : Ticket n → Value × State n) : Value × State n :=
  match s.tickets.lookup name with
  | none => (.noTicket, s)
  | some ticket => f ticket

/-- Does one step. A new ticket is there before the one that had its name is dropped. -/
def Step.run (s : State n) : Step → Value × State n
  | .start name =>
    match s.pool.start with
    | (.error e, pool) => (.started (.error e), { s with pool })
    | (.ok ticket, pool) =>
      let pool := match s.tickets.lookup name with
        | some old => old.drop pool
        | none => pool
      (.started (.ok ticket.seq), { s with pool }.keep name ticket)
  | .complete m =>
    let (answer, pool) := s.pool.complete m
    (.completed answer, { s with pool })
  | .seq name => withTicket s name fun ticket => (.seq ticket.seq, s)
  | .isDone name => withTicket s name fun ticket => (.isDone (ticket.isDone s.pool), s)
  | .take name => withTicket s name fun ticket =>
    let (result, ticket, pool) := ticket.take? s.pool
    (.taken result, { s with pool }.keep name ticket)
  | .drop name => withTicket s name fun ticket =>
    (.done, { s with pool := ticket.drop s.pool }.forget name)
  | .cancel name => withTicket s name fun ticket =>
    (.done, { s with pool := ticket.cancel s.pool }.forget name)
  | .cache count => (.done, { s with pool := s.pool.cacheCount count })

/-- What can be seen of the pool after a step. -/
structure Status where
  pending : Nat
  available : Nat
  count : Option Nat

/-- What can be seen of a pool. -/
def Status.of (p : Client.Pool n) : Status :=
  ⟨p.pendingCount, p.available, p.count⟩

/-- Every step's answer, with the status after it. -/
def run (s : State n) : List Step → List (Value × Status)
  | [] => []
  | step :: rest =>
    let (value, s) := step.run s
    (value, .of s.pool) :: run s rest

end InterCore.Bench.Pool
