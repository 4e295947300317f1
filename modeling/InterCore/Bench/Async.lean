import InterCore.Bench.Pool
import InterCore.Bench.World
import InterCore.Client.Async

/-!
# Bench for the asynchronous client

Futures go by names that a script gives them. A message that is sent slowly reaches the outbox at
the next poll.
-/

namespace InterCore.Bench.Async

open InterCore.Client (AnyQuery AsyncLink Future Outcome Progress Shape)
open InterCore.Config (Message)

/-- What becomes of a message that is begun to be sent. -/
inductive Sending where
  | carry
  /-- It is under way until the next poll. -/
  | slow
  | refuse (e : Error)

/-- What is kept of a message that is sent slowly. -/
abbrev Flight := List UInt8

/-- A future for a query of any form. -/
structure AnyFuture (n : Nat) where
  {shape : Shape}
  future : Future n Flight shape

/-- What is around the client: the server, the messages that wait for an answer, and how often a
future began a delay. -/
structure Outside where
  app : App
  outbox : List (List UInt8) := []
  sent : List Sent := []
  delays : Nat := 0

/-- Work of the client and of what is around it. -/
abbrev OnClient (n : Nat) := StateT (Client.Pool n) (StateM Outside)

namespace Outside

/-- Puts a message into the outbox, and notes it if it can be read. -/
def post (bytes : List UInt8) : StateM Outside Unit :=
  modify fun d =>
    let sent := match Message.decode bytes with
      | .error _ => d.sent
      | .ok message => d.sent ++ [⟨message, bytes.length⟩]
    { d with outbox := d.outbox ++ [bytes], sent }

/-- Takes a message out of the outbox. -/
def takePosted? (i : Nat) : StateM Outside (Option (List UInt8)) :=
  modifyGet fun d => (d.outbox[i]?, { d with outbox := d.outbox.eraseIdx i })

end Outside

/-- The link as a poll finds it. -/
def link (sending : Sending) : AsyncLink (StateM Outside) n Flight where
  start bytes := do
    match sending with
    | .refuse e => return .over (.error e)
    | .slow => return .underWay bytes
    | .carry =>
      Outside.post bytes
      return .over (.ok ())
  resume bytes := do
    Outside.post bytes
    return .over (.ok ())
  delay := (modify fun d => { d with delays := d.delays + 1 } : StateM Outside Unit)

/-- One thing that happens to the client. Messages of the outbox go by their position in it. -/
inductive Step where
  | start (name : String) (query : AnyQuery)
  | poll (name : String) (sending : Sending)
  | drop (name : String)
  | answer (i : Nat)
  | lose (i : Nat)
  | message (bytes : List UInt8)

/-- What a step answers. -/
inductive Value where
  | done
  /-- There is no such future, or no such message. -/
  | missing
  | pending
  | ready (answer : Answer Outcome)
  | received (answer : Answer Unit)

/-- The client, what is around it, and the futures by name. -/
structure State (n : Nat) where
  pool : Client.Pool n := {}
  outside : Outside
  futures : List (String × AnyFuture n) := []

/-- Work of a script. -/
abbrev OnBench (n : Nat) := StateM (State n)

/-- Work of the client, which leaves the futures of the script alone. -/
def onClient (work : OnClient n α) : OnBench n α := fun ⟨pool, outside, futures⟩ =>
  let ((a, pool), outside) := work pool outside
  (a, ⟨pool, outside, futures⟩)

/-- Takes out the future of a name. -/
def takeFuture? (name : String) : OnBench n (Option (AnyFuture n)) :=
  modifyGet fun s =>
    (s.futures.lookup name, { s with futures := s.futures.filter (·.1 ≠ name) })

/-- Puts a future in under a name. -/
def putFuture (name : String) (f : AnyFuture n) : OnBench n Unit :=
  modify fun s => { s with futures := (name, f) :: s.futures }

/-- Drops the future of a name, and says whether there was one. -/
def dropFuture (name : String) : OnBench n Bool := do
  match ← takeFuture? name with
  | none => return false
  | some ⟨f⟩ =>
    modify fun s => { s with pool := f.drop s.pool }
    return true

/-- Polls a future that was taken out, and puts it back if it has not come to an end. -/
def pollOnce (name : String) (sending : Sending) (f : AnyFuture n) : OnBench n Value := do
  match ← onClient (f.future.poll (link sending)) with
  | .pending next =>
    putFuture name ⟨next⟩
    return .pending
  | .ready answer => return .ready (answer.map (Outcome.of f.shape))

/-- A message comes in from the channel. -/
def comeIn (bytes : List UInt8) : OnBench n Value := do
  let answer ← onClient (modifyGet (·.receive bytes))
  return .received answer

/-- Does one step. A name that is given anew loses the future it had. -/
def Step.run : Step → OnBench n Value
  | .start name ⟨query⟩ => do
    let _ ← dropFuture name
    putFuture name ⟨.fresh query⟩
    return .done
  | .poll name sending => do
    match ← takeFuture? name with
    | none => return .missing
    | some f => pollOnce name sending f
  | .drop name => do
    return if ← dropFuture name then .done else .missing
  | .answer i => do
    match ← onClient (Outside.takePosted? i : StateM Outside _) with
    | none => return .missing
    | some bytes =>
      match Message.decode bytes with
      | .error e => return .received (.error e)
      | .ok req =>
        let response ← modifyGet fun s =>
          let (response, app) := s.outside.app.onTable mainTable req (Config.Server.handle · req)
          (response, { s with outside := { s.outside with app } })
        comeIn response.encode
  | .lose i => do
    match ← onClient (Outside.takePosted? i : StateM Outside _) with
    | none => return .missing
    | some _ => return .done
  | .message bytes => comeIn bytes

/-- What a step answers, and what happened in it. -/
structure Report where
  value : Value
  status : Pool.Status
  delays : Nat
  posted : Nat
  values : List Int32
  sent : List Sent

/-- Does one step and reports it, with only what was sent in this step. -/
def report (step : Step) : OnBench n Report := do
  modify fun s => { s with outside := { s.outside with sent := [], app := s.outside.app.forget } }
  let value ← step.run
  let s ← get
  return {
    value
    status := .of s.pool
    delays := s.outside.delays
    posted := s.outside.outbox.length
    values := s.outside.app.values mainTable
    sent := s.outside.sent }

/-- Does steps in order and reports each. -/
def reports : List Step → OnBench n (List Report)
  | [] => return []
  | step :: rest => do
    let first ← report step
    return first :: (← reports rest)

/-- Runs a script on a fresh client of a table. -/
def run (n : Nat) (table : VarTable) (steps : List Step) : List Report :=
  let s : State n := { outside := { app := { tables := [table] } } }
  (reports steps s).1

end InterCore.Bench.Async
