import InterCore.Bench.Table
import InterCore.Link.ConfigService

/-!
# Applications for the benches

What the channels of a bench do with their messages: note them, send them back, or answer them as
configuration requests.
-/

namespace InterCore.Bench

open InterCore.Config (Message)
open InterCore.Link (Endpoint Handler Replies)
open InterCore.Variable (Call)

/-- A message that a handler was given, with the ends it travelled between. -/
structure Heard where
  endpoint : Endpoint
  data : List UInt8

/-- The state of a bench's application. -/
structure App where
  /-- The messages noted so far, the latest first. -/
  heard : List Heard := []
  /-- The variable tables of its configuration servers. -/
  tables : List VarTable := []
  /-- The hooks that ran so far, the latest first. -/
  calls : List Call := []

namespace App

/-- Notes a message. -/
def note (app : App) (ep : Endpoint) (data : List UInt8) : App :=
  { app with heard := ⟨ep, data⟩ :: app.heard }

/-- Work on a table, whose hook runs go to the application's list. A table that is not there gives
the answer `absent`. -/
def onTable (app : App) (k : Nat) (absent : α) (f : VarTable → α × VarTable) : α × App :=
  match app.tables[k]? with
  | none => (absent, app)
  | some table =>
    let (a, table) := f table
    (a, { app with
      tables := app.tables.set k { table with calls := [] }
      calls := table.calls.reverseAux app.calls })

/-- The values of a table. A table that is not there has none. -/
def values (app : App) (k : Nat) : List Int32 :=
  match app.tables[k]? with
  | none => []
  | some table => table.values

/-- Forgets what was noted, but not the tables. -/
def forget (app : App) : App :=
  { app with heard := [], calls := [] }

end App

/-- Notes messages and answers nothing. -/
def logger : Handler App := fun ep data app =>
  (.done, app.note ep data)

/-- Notes messages and sends them back. -/
def echoer : Handler App := fun ep data app =>
  (.ofList [data], app.note ep data)

/-- A payload repeated `n` times, or as often as it takes to fill a packet. -/
def repeated (n : Nat) (data : List UInt8) : List UInt8 :=
  (List.replicate (min n (Packet.maxPayload / data.length + 1)) data).flatten

/-- A payload repeated `n` times, then once more, and so on, `count` payloads in all. -/
def growing (data : List UInt8) : (count n : Nat) → Replies
  | 0, _ => .done
  | count + 1, n => .next (repeated n data) fun _ => growing data count (n + 1)

/-- Notes messages and sends them back once, then twice in one, and so on up to `n` times. -/
def repeater (n : Nat) : Handler App := fun ep data app =>
  (growing data n 1, app.note ep data)

/-- Answers configuration requests from a table. -/
def configServer (k : Nat) : Handler App := fun ep data app =>
  app.onTable k .done (Link.configService ep data)

/-- What a channel of a bench does with its messages. -/
inductive Behaviour where
  | log
  | echo
  | repeats (n : Nat)
  | config (vars : List Variable) (hooks : List Table.Registration)

/-- The handler for a behaviour, and the application with the table it needs. -/
def Behaviour.install (app : App) : Behaviour → Handler App × App
  | .log => (logger, app)
  | .echo => (echoer, app)
  | .repeats n => (repeater n, app)
  | .config vars hooks =>
    let table : VarTable := { Table.tableOf vars hooks with calls := [] }
    (configServer app.tables.length, { app with tables := app.tables ++ [table] })

end InterCore.Bench
