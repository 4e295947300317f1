import InterCore.Bench.Pool
import InterCore.Bench.World
import InterCore.Client.Directory

/-!
# Bench for the blocking client

Calls of a client, with what happens while each of them sends and waits. Another call may be made
while one waits.
-/

namespace InterCore.Bench.Session

open InterCore.Client (Access AnyQuery Asked Directory Outcome Pool Surroundings Ticket)
open InterCore.Link (Firmware PeerStep Station)
open InterCore.Variable (Call)

/-- What becomes of the message of a call. -/
inductive Sending where
  /-- It is put into the outbox, or sent over the link. -/
  | carry
  /-- It is answered at once instead of being put into the outbox. A link carries it all the
  same. -/
  | inline
  /-- It cannot be sent. -/
  | refuse (e : Error)

mutual

/-- A call of the client, with what becomes of its message and what happens while it waits. -/
inductive Request where
  | mk (query : AnyQuery) (sending : Sending) (wait : Wait)

/-- What happens while a call waits. -/
inductive Wait where
  /-- Everything that was sent is answered. -/
  | deliverAll
  /-- The wait ends at once, though nothing has happened. -/
  | spurious
  /-- The given things happen. -/
  | actions (list : List Action)

/-- One thing that happens while a call waits. -/
inductive Action where
  /-- Everything that was sent is answered, the latest first if `reverse` is set. -/
  | deliver (reverse : Bool)
  /-- One message of the outbox is answered. -/
  | answer (i : Nat)
  /-- One message of the outbox is lost. -/
  | lose (i : Nat)
  /-- A message comes in. -/
  | message (bytes : List UInt8)
  /-- Somebody else calls. -/
  | request (r : Request)

end

/-- Sends a message over the link if there is one, and otherwise does `unlinked` with it. -/
def carry (bytes : List UInt8) (unlinked : OnClient n Unit) : OnClient n (Answer Unit) := do
  World.noteSent bytes
  match ← World.sendOverLink? bytes with
  | some true => return .ok ()
  | some false => return .error .inputOutput
  | none =>
    unlinked
    return .ok ()

/-- Sends the message of a call. -/
def send (sending : Sending) (bytes : List UInt8) : OnClient n (Answer Unit) :=
  match sending with
  | .refuse e => return .error e
  | .inline => carry bytes (answerRequest bytes)
  | .carry => carry bytes (World.post bytes)

/-- Answers messages in order. -/
def answerAll : List (List UInt8) → OnClient n Unit
  | [] => return
  | bytes :: rest => do
    answerRequest bytes
    answerAll rest

/-- Messages come in, in order. -/
def comeInAll : List Link.Received → OnClient n Unit
  | [] => return
  | r :: rest => do
    comeIn r.payload
    comeInAll rest

/-- Lets the firmware and the client exchange messages until the caller is ready, but no more than
`rounds` times. -/
def exchange (ready : Pool n → Bool) : (rounds : Nat) → OnClient n Unit
  | 0 => return
  | rounds + 1 => do
    if ready (← get) then
      return
    comeInAll (← World.exchange)
    exchange ready rounds

/-- Number of exchanges that a delivery over a link has. -/
def deliveryRounds : Nat := 4

/-- Everything that was sent is answered. -/
def deliver (reverse : Bool) (ready : Pool n → Bool) : OnClient n Unit := do
  let w ← getThe World
  if w.isLinked then
    exchange ready deliveryRounds
  else
    World.onDesk ({ · with outbox := [] })
    answerAll (if reverse then w.desk.outbox.reverse else w.desk.outbox)

/-- The end of a wait, which is a success if the caller is ready. -/
def leave (ready : Pool n → Bool) : OnClient n (Answer Unit) := do
  return if ready (← get) then .ok () else .error .interrupted

/-- The surroundings of a call. -/
def surroundings (sending : Sending) (waitFor : Ticket n → OnClient n (Answer Unit)) :
    Surroundings OnWorld n :=
  { send := send sending, waitFor }

mutual

/-- Makes a call. -/
def Request.run : Request → OnClient n (Answer Outcome)
  | .mk q sending wait => do
    let answer ← Client.Blocking.perform (surroundings sending fun t => wait.run t.isDone) q.query
    return answer.map (Outcome.of q.shape)

/-- Waits until `ready`, or gives up. -/
def Wait.run (ready : Pool n → Bool) : Wait → OnClient n (Answer Unit)
  | .deliverAll => do
    deliver false ready
    leave ready
  | .spurious => return .ok ()
  | .actions list => do
    Action.runAll ready list
    leave ready

/-- Has one thing happen while a caller waits to be ready. -/
def Action.run (ready : Pool n → Bool) : Action → OnClient n Unit
  | .deliver reverse => deliver reverse ready
  | .answer i => do
    match ← World.takePosted? i with
    | none => World.enter .missing
    | some bytes => answerRequest bytes
  | .lose i => do
    match ← World.takePosted? i with
    | none => World.enter .missing
    | some _ => return
  | .message bytes => comeIn bytes
  | .request r => do
    let answer ← r.run
    World.enter (.nested answer)

/-- Has things happen in order while a caller waits to be ready. -/
def Action.runAll (ready : Pool n → Bool) : List Action → OnClient n Unit
  | [] => return
  | action :: rest => do
    action.run ready
    Action.runAll ready rest

end

/-- The client as it answers queries with nothing special happening. -/
def plainly : Asked (OnClient n) where
  ask q := Client.Blocking.perform (surroundings .carry fun t => do
    deliver false t.isDone
    leave t.isDone) q

/-- What a script asks a directory. -/
inductive DirectoryQuery where
  | names
  | size
  | indexOf (name : String)
  | value (name : String)
  | read (name : String) (access : Access)
  | setValue (name : String) (v : Int32)
  | setText (name text : String)

/-- One step of a script: a call, something that happens between calls, or a use of the
directory. -/
inductive Step where
  | request (r : Request)
  | action (a : Action)
  | discover (capacity : Nat)
  | directory (e : DirectoryQuery)

/-- A step, with what the peer of a link does in each wait of the firmware. -/
structure Turn where
  step : Step
  idle : List (List PeerStep)

/-- What a step answers. -/
inductive Value where
  | done
  | answer (a : Answer Outcome)
  | noDirectory
  | names (names : List String)
  | size (n : Nat)

/-- What a step answers, and what happened in it. -/
structure Report where
  value : Value
  status : Pool.Status
  wakes : Nat
  posted : Nat
  values : List Int32
  sent : List Sent
  happened : List Happening
  calls : List Call

/-- The client, the far side, and the directory if there is one. -/
structure State (n : Nat) where
  pool : Client.Pool n := {}
  world : World
  directory : Option Directory := none

/-- Work of a script. -/
abbrev OnBench (n : Nat) := StateT (State n) (Except Fault)

/-- Work of the client, which leaves the directory alone. -/
def onClient (work : OnClient n α) : OnBench n α := fun ⟨pool, world, directory⟩ =>
  match work pool world with
  | .error fault => .error fault
  | .ok ((a, pool), world) => .ok (a, ⟨pool, world, directory⟩)

/-- Asks a directory. -/
def DirectoryQuery.run (d : Directory) : DirectoryQuery → OnClient n Value
  | .names => return .names d.names
  | .size => return .size d.names.length
  | .indexOf name => return .answer ((d.indexOf name).map .count)
  | .value name => do return .answer ((← d.value plainly name).map .number)
  | .read name access => do return .answer ((← d.read plainly name access).map .reply)
  | .setValue name v => do return .answer ((← d.setValue plainly name v).map fun _ => .done)
  | .setText name text => do
    return .answer ((← d.setValueText plainly name text).map fun _ => .done)

/-- Does one step. What happens between calls finds no caller that is ready. -/
def Step.run : Step → OnBench n Value
  | .request r => do return .answer (← onClient r.run)
  | .action a => do
    onClient (a.run fun _ => false)
    return .done
  | .discover capacity => do
    match ← onClient (Directory.discover plainly capacity) with
    | .error e => return .answer (.error e)
    | .ok d =>
      modify ({ · with directory := some d })
      return .answer (.ok .done)
  | .directory e => do
    match (← get).directory with
    | none => return .noDirectory
    | some d => onClient (e.run d)

/-- Does one step and reports it. -/
def report (turn : Turn) : OnBench n Report := do
  modify fun ⟨pool, world, directory⟩ => ⟨pool, world.startStep turn.idle, directory⟩
  let value ← turn.step.run
  let s ← get
  let app := s.world.app
  let desk := s.world.desk
  return {
    value
    status := .of s.pool
    wakes := desk.wakes
    posted := desk.outbox.length
    values := app.values mainTable
    sent := desk.sent.reverse
    happened := desk.happened.reverse
    calls := app.calls.reverse }

/-- A link for a client: its channels are created before the server's. -/
structure LinkSetup where
  setup : Link.Setup
  channels : List (String × Behaviour × List (List PeerStep))
  dst : UInt32

/-- Creates the channels that come before the server's, each with its own turns of the peer. -/
def createAll : List (String × Behaviour × List (List PeerStep)) → Firmware App Unit
  | [] => return
  | (name, behaviour, idle) :: rest => do
    Link.prepare idle
    let _ ← Link.createChannel name behaviour
    createAll rest

/-- The far side with a link. What the firmware has sent by then is received. -/
def LinkSetup.world (l : LinkSetup) (app : App) (desk : Desk) : Except Fault (Answer World) := do
  let work : Firmware App Unit := do
    createAll l.channels
    Link.prepare []
    let _ ← Firmware.createChannel Config.channelName (configServer mainTable)
    let _ ← Firmware.onMachine (Link.Peer.receiveAll true true Link.indexSpan)
  match ← l.setup.station app with
  | .error e => return .error e
  | .ok station =>
    let ((), station) ← work station
    return .ok ⟨.link station l.dst, desk⟩

/-- The far side at the beginning of a script, with a link or without. -/
def world (link : Option LinkSetup) (app : App) (desk : Desk) : Except Fault (Answer World) :=
  match link with
  | none => .ok (.ok ⟨.outbox app, desk⟩)
  | some l => l.world app desk

/-- Runs a script on a fresh client. -/
def run (n : Nat) (link : Option LinkSetup) (table : VarTable) (patches : List Patch)
    (turns : List Turn) : Except Fault (Answer (List (Except Fault Report))) := do
  match ← world link { tables := [table] } { patches } with
  | .error e => return .error e
  | .ok world => return .ok (runScript report turns ({ world } : State n)).1

end InterCore.Bench.Session
