import InterCore.Proofs.Client.Blocking
import InterCore.Proofs.Client.Delivery
import InterCore.Proofs.Config.Sequential

/-!
# Client and server together

A client issues requests, the server answers them from its table, and requests and responses may
overtake each other on the way. Every result that the client collects is the one that the request
would have had, if the requests had been applied to the table one after another, in the order in
which the server took them.

The bookkeeping is a `Ledger`: which requests the server took and which are still under way, with
their numbers. The sequence numbers that are pending in the client's pool are at every moment those
of the requests and responses under way, so that each response finds its own request.
-/

namespace InterCore.Client

open InterCore.Config (Message Reply Request answersTo variablesAfter)

variable {n : Nat}

/-- The pool of a client with its tickets, the table of the server, and what is under way between
them. -/
structure Exchange (n : Nat) where
  session : Session n := {}
  table : VarTable
  requests : List (List UInt8) := []
  responses : List (List UInt8) := []

/-- What the client, the server and the channel between them can do. -/
inductive Act where
  /-- A request is started and sent. -/
  | issue (q : Request)
  /-- The server takes a request and sends its response. -/
  | serve (bytes : List UInt8)
  /-- The client is handed a response. -/
  | deliver (bytes : List UInt8)
  | collect (k : Nat)
  | drop (k : Nat)

/-- What the client makes of a message from the server, and its pool after it. -/
def Pool.onMessage (p : Pool n) (bytes : List UInt8) : Answer Unit × Pool n :=
  (Blocking.onMessage (m := Id) (pure ()) bytes).run p

namespace Exchange

/-- One act, with what it reports. Any of the requests and responses that are under way may be the
next to arrive. -/
inductive Step (x : Exchange n) : Act → Report → Exchange n → Prop where
  | issued {q : Request} {seq : UInt32} {session : Session n} :
      x.session.Step .start (.started seq) session →
        Step x (.issue q) (.started seq)
          { x with session, requests := x.requests ++ [(q.toMessage seq).encode] }
  | refused {q : Request} {e : Error} {session : Session n} :
      x.session.Step .start (.refused e) session →
        Step x (.issue q) (.refused e) { x with session }
  | serve {bytes : List UInt8} {before after : List (List UInt8)} :
      x.requests = before ++ bytes :: after →
        Step x (.serve bytes) .done
          { x with
            table := (Config.Server.receive x.table bytes).2
            requests := before ++ after
            responses := x.responses ++ (Config.Server.receive x.table bytes).1 }
  | deliver {bytes : List UInt8} {before after : List (List UInt8)} :
      x.responses = before ++ bytes :: after →
        Step x (.deliver bytes) (.completed (x.session.pool.onMessage bytes).1)
          { x with
            session := { x.session with pool := (x.session.pool.onMessage bytes).2 }
            responses := before ++ after }
  | collect {k : Nat} {result : Option (Answer Reply)} {session : Session n} :
      x.session.Step (.take k) (.taken result) session →
        Step x (.collect k) (.taken result) { x with session }
  | drop {k : Nat} {session : Session n} :
      x.session.Step (.drop k) .done session → Step x (.drop k) .done { x with session }

/-- What acts lead to from an unused pool and a table, with nothing under way. -/
inductive Run (t : VarTable) : List (Act × Report) → Exchange n → Prop where
  | start : Run t [] { table := t }
  | act {past : List (Act × Report)} {x x' : Exchange n} {a : Act} {r : Report} :
      Run t past x → Step x a r x' → Run t (past ++ [(a, r)]) x'

end Exchange

/-! ## What the record of a run tells -/

/-- The request that is started. -/
def requestOf : Act × Report → Option Request
  | (.issue q, .started _) => some q
  | _ => none

/-- The request that the server takes, as it came. -/
def takenOf : Act × Report → Option (List UInt8)
  | (.serve bytes, _) => some bytes
  | _ => none

/-- What is collected for request `k`. -/
def collectedOf (k : Nat) : Act × Report → Option (Answer Reply)
  | (.collect k', .taken result) => if k' = k then result else none
  | _ => none

/-- What an act does with the client's pool. -/
def callOf : Act × Report → Option Event
  | (.issue _, r) => some (.start, r)
  | (.serve _, _) => none
  | (.deliver bytes, r) =>
    match decodeResponse bytes with
    | .ok m => some (.complete m, r)
    | .error _ => none
  | (.collect k, r) => some (.take k, r)
  | (.drop k, r) => some (.drop k, r)

/-- The requests in the order in which they were started. -/
def askedIn (past : List (Act × Report)) : List Request :=
  past.filterMap requestOf

/-- The requests in the order in which the server took them. -/
def takenIn (past : List (Act × Report)) : List (List UInt8) :=
  past.filterMap takenOf

/-- What was collected for request `k`, in order. -/
def collectedIn (k : Nat) (past : List (Act × Report)) : List (Answer Reply) :=
  past.filterMap (collectedOf k)

/-- What the client did with its pool, in order. -/
def callsIn (past : List (Act × Report)) : List Event :=
  past.filterMap callOf

/-- A numbered request as it is sent. -/
def sentAs (request : Request × Nat) : List UInt8 :=
  (request.1.toMessage (UInt32.ofNat request.2)).encode

/-- Waking the callers leaves the pool alone. -/
theorem Pool.onMessage_eq (p : Pool n) (bytes : List UInt8) :
    p.onMessage bytes = p.receive bytes := by
  rw [onMessage, StateT.run, Blocking.onMessage_apply]
  rcases p.receive bytes with ⟨_ | _, _⟩ <;> rfl

theorem Pool.onMessage_encode (p : Pool n) (m : Message) : p.onMessage m.encode = p.complete m := by
  rw [onMessage_eq, receive_encode]

theorem filterMap_concat {α β : Type} (f : α → Option β) (l : List α) (a : α) :
    (l ++ [a]).filterMap f = l.filterMap f ++ (f a).toList := by
  rw [List.filterMap_append, List.filterMap_cons]
  cases f a <;> rfl

theorem askedIn_append (past : List (Act × Report)) (e : Act × Report) :
    askedIn (past ++ [e]) = askedIn past ++ (requestOf e).toList :=
  filterMap_concat _ _ _

theorem takenIn_append (past : List (Act × Report)) (e : Act × Report) :
    takenIn (past ++ [e]) = takenIn past ++ (takenOf e).toList :=
  filterMap_concat _ _ _

theorem callsIn_append (past : List (Act × Report)) (e : Act × Report) :
    callsIn (past ++ [e]) = callsIn past ++ (callOf e).toList :=
  filterMap_concat _ _ _

theorem askedIn_kept {past : List (Act × Report)} {e : Act × Report} (asks : requestOf e = none) :
    askedIn (past ++ [e]) = askedIn past := by
  rw [askedIn_append, asks, Option.toList_none, List.append_nil]

theorem takenIn_kept {past : List (Act × Report)} {e : Act × Report} (takes : takenOf e = none) :
    takenIn (past ++ [e]) = takenIn past := by
  rw [takenIn_append, takes, Option.toList_none, List.append_nil]

/-- A call that brings no message answers no request. -/
theorem responseTo_callsIn_append {k : Nat} {past : List (Act × Report)} {e : Act × Report}
    (silent : ∀ call seq, callOf e = some call → messageWith seq call = none) :
    responseTo k (callsIn (past ++ [e])) = responseTo k (callsIn past) := by
  rw [callsIn_append]
  cases call : callOf e with
  | none => rw [Option.toList_none, List.append_nil]
  | some call' =>
    rw [Option.toList_some, responseTo_append]
    cases (numbersIn (callsIn past))[k]? with
    | none => exact Option.or_none
    | some seq =>
      show (responseTo k (callsIn past)).or (messageWith seq call') = _
      rw [silent call' seq call, Option.or_none]

/-- What is collected is told from the calls on the pool alone. -/
theorem collectedIn_eq (k : Nat) (past : List (Act × Report)) :
    collectedIn k past = resultsOf k (callsIn past) := by
  rw [collectedIn, resultsOf, callsIn, List.filterMap_filterMap]
  congr 1
  funext entry
  obtain ⟨a, r⟩ := entry
  cases a with
  | issue q => rfl
  | serve bytes => rfl
  | deliver bytes =>
    show none = (callOf (.deliver bytes, r)).bind (resultOf k)
    rw [callOf]
    cases decodeResponse bytes <;> rfl
  | collect k' => cases r <;> rfl
  | drop k' => rfl

namespace Exchange

variable {x x' : Exchange n} {a : Act} {r : Report} {t : VarTable} {past : List (Act × Report)}

theorem Step.session (step : x.Step a r x') :
    match callOf (a, r) with
    | none => x'.session = x.session
    | some (c, r') => x.session.Step c r' x'.session := by
  cases step with
  | issued started => exact started
  | refused refused => exact refused
  | serve _ => rfl
  | @deliver bytes before after _ =>
    rw [callOf, Pool.onMessage_eq, Pool.receive]
    cases decodeResponse bytes with
    | error e => rfl
    | ok m => exact .complete m
  | collect taken => exact taken
  | drop dropped => exact dropped

/-- The calls on the client's pool are a run of its session. -/
theorem Run.session (run : Run t past x) : Session.Run (callsIn past) x.session := by
  induction run with
  | start => exact .start
  | @act past x x' a r _ step ih =>
    have changed := step.session
    rw [callsIn_append]
    cases call : callOf (a, r) with
    | none =>
      rw [call] at changed
      rw [Option.toList_none, List.append_nil, changed]
      exact ih
    | some event =>
      rw [call] at changed
      exact ih.call changed

end Exchange

end InterCore.Client
