import InterCore.Bench.Link
import InterCore.Client.Blocking
import InterCore.Client.Outcome

/-!
# The far side of a client bench

What a client's messages meet. Either they lie in an outbox until a script has them answered from a
variable table, or they go over a link to a firmware that serves the table. Answers from the outbox
may be tampered with on the way.
-/

namespace InterCore.Bench

open InterCore.Client (OnPool)
open InterCore.Config (Message)
open InterCore.Link (Station Firmware PeerStep Peer Received)

/-- The index of the table that a client asks about. -/
def mainTable : Nat := 0

/-- Address from which the client's messages come. -/
def clientAddr : UInt32 := 0x400

/-- What is done to the response to one request. -/
structure Patch where
  req : UInt32
  /-- The response never arrives. -/
  lost : Bool := false
  seq : Option UInt32 := none
  kind : Option UInt32 := none
  value : Option Int32 := none
  data : Option (List UInt8) := none
  dataLen : Option UInt32 := none
  /-- Only so many bytes arrive. -/
  cut : Option Nat := none

namespace Patch

/-- The response with its fields replaced. -/
def apply (p : Patch) (m : Message) : Message :=
  let m := { m with
    seq := p.seq.getD m.seq
    kind := p.kind.getD m.kind
    value := p.value.getD m.value }
  let m := match p.data with
    | none => m
    | some data => m.setData data
  { m with dataLen := p.dataLen.getD m.dataLen }

/-- The bytes of a response that arrive. -/
def cutBytes (p : Patch) (bytes : List UInt8) : List UInt8 :=
  match p.cut with
  | none => bytes
  | some n => bytes.take n

/-- What arrives of a response after some patches, the last of which decides how much of it. -/
def deliver? : List Patch → Message → Option (List UInt8)
  | [], m => some m.encode
  | [p], m => if p.lost then none else some (p.cutBytes (p.apply m).encode)
  | p :: rest, m => if p.lost then none else deliver? rest (p.apply m)

end Patch

/-- A message that was handed over, with its size. -/
structure Sent where
  message : Message
  size : Nat

/-- One entry in the list of what happened. -/
inductive Happening where
  /-- A message came in. -/
  | received (answer : Answer Unit)
  /-- The message asked for is not in the outbox. -/
  | missing
  /-- A call was made while another one waited. -/
  | nested (answer : Answer Client.Outcome)

/-- What is written down about a client's messages. -/
structure Desk where
  outbox : List (List UInt8) := []
  /-- The messages handed over, the latest first. -/
  sent : List Sent := []
  /-- What happened, the latest first. -/
  happened : List Happening := []
  /-- How often the callers were woken. -/
  wakes : Nat := 0
  patches : List Patch := []

/-- What carries the messages. -/
inductive Carrier where
  /-- The outbox. -/
  | outbox (app : App)
  /-- A link, on which the server's channel has the address `dst`. -/
  | link (station : Station App) (dst : UInt32)

/-- The far side: what carries the messages, and what is written down about them. -/
structure World where
  carrier : Carrier
  desk : Desk

/-- Work of the far side. -/
abbrev OnWorld := StateT World (Except Fault)

/-- Work of a client with `n` transactions, and of what is around it. -/
abbrev OnClient (n : Nat) := OnPool OnWorld n

namespace World

/-- The application that serves the variables. -/
def app (w : World) : App :=
  match w.carrier with
  | .outbox app => app
  | .link station _ => station.app

/-- Work on the application, wherever it is. -/
def onApp (f : App → α × App) : OnWorld α := fun ⟨carrier, desk⟩ =>
  match carrier with
  | .outbox app =>
    let (a, app) := f app
    .ok (a, ⟨.outbox app, desk⟩)
  | .link ⟨run, mux, app⟩ dst =>
    let (a, app) := f app
    .ok (a, ⟨.link ⟨run, mux, app⟩ dst, desk⟩)

/-- Changes what is written down and nothing else. -/
def onDesk (f : Desk → Desk) : OnWorld Unit :=
  modify fun ⟨carrier, desk⟩ => ⟨carrier, f desk⟩

/-- Writes down that something happened. -/
def enter (h : Happening) : OnWorld Unit :=
  onDesk fun d => { d with happened := h :: d.happened }

/-- Work of the firmware with the address of the server's channel, where there is a link. -/
def onStation? (work : UInt32 → Firmware App α) : OnWorld (Option α) := fun ⟨carrier, desk⟩ =>
  match carrier with
  | .outbox app => .ok (none, ⟨.outbox app, desk⟩)
  | .link station dst =>
    match work dst station with
    | .error fault => .error fault
    | .ok (a, station) => .ok (some a, ⟨.link station dst, desk⟩)

/-- Puts a message into the outbox. -/
def post (bytes : List UInt8) : OnWorld Unit :=
  onDesk fun d => { d with outbox := d.outbox ++ [bytes] }

/-- Writes down a message that was handed over. -/
def noteSent (bytes : List UInt8) : OnWorld Unit :=
  match Message.decode bytes with
  | .error _ => pure ()
  | .ok message => onDesk fun d => { d with sent := ⟨message, bytes.length⟩ :: d.sent }

/-- Takes a message out of the outbox. -/
def takePosted? (i : Nat) : OnWorld (Option (List UInt8)) := do
  let outbox := (← get).desk.outbox
  onDesk ({ · with outbox := outbox.eraseIdx i })
  return outbox[i]?

/-- Has the server answer a request. -/
def respond (req : Message) : OnWorld Message :=
  onApp fun app => app.onTable mainTable req (Config.Server.handle · req)

/-- What arrives of the response to a request, if anything does. -/
def responseTo? (bytes : List UInt8) : OnWorld (Option (List UInt8)) := do
  match Message.decode bytes with
  | .error _ => return none
  | .ok req =>
    let response ← respond req
    let patches := (← get).desk.patches.filter (·.req = req.seq)
    return Patch.deliver? patches response

/-- Hands a message to the peer of the link, which sends it. Says whether there was a link and a
buffer. -/
def sendOverLink? (bytes : List UInt8) : OnWorld (Option Bool) :=
  onStation? fun dst => do
    let idx ← Firmware.onMachine
      (Peer.send clientAddr dst bytes (UInt16.ofNat bytes.length) true)
    return idx.isSome

/-- Lets the firmware handle what it got, and gives what it sent. -/
def exchange : OnWorld (List Received) := do
  let received ← onStation? fun _ => do
    let _ ← Firmware.poll
    Firmware.onMachine (Peer.receiveAll true true Link.indexSpan)
  return received.getD []

/-- Whether messages go over a link. -/
def isLinked (w : World) : Bool :=
  match w.carrier with
  | .outbox _ => false
  | .link .. => true

/-- The far side at the beginning of a step. -/
def startStep (idle : List (List PeerStep)) : World → World
  | ⟨carrier, desk⟩ =>
    let carrier := match carrier with
      | .outbox app => .outbox app.forget
      | .link ⟨⟨machine, _, _⟩, mux, app⟩ dst => .link ⟨⟨machine, idle, []⟩, mux, app.forget⟩ dst
    ⟨carrier, { desk with sent := [], happened := [] }⟩

end World

/-- Wakes the callers, who are not there; the bench counts it. -/
def wakeAll : OnClient n Unit :=
  (World.onDesk fun d => { d with wakes := d.wakes + 1 } : OnWorld Unit)

/-- A message comes in from the channel, and how it was taken is written down. -/
def comeIn (bytes : List UInt8) : OnClient n Unit := do
  let answer ← Client.Blocking.onMessage wakeAll bytes
  World.enter (.received answer)

/-- Answers a message that the client sent, if its response arrives. -/
def answerRequest (bytes : List UInt8) : OnClient n Unit := do
  match ← World.responseTo? bytes with
  | none => return
  | some response => comeIn response

end InterCore.Bench
