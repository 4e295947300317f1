import InterCore.Client.Query

/-!
# Variables by name

A directory knows the name of every variable of a server, in the order of their indices, and so
gives access to the variables by name. Names are cut to 64 bytes of UTF-8. Where two names agree
after that, the variable with the lesser index is the one meant.
-/

namespace InterCore.Client

open InterCore.Config (Reply)

/-- Number of variables that a directory holds where nothing else is said. -/
def maxVars : Nat := 64

/-- Number of bytes of a name that a directory keeps. -/
def maxNameLen : Nat := 64

/-- Anyone who answers queries. -/
structure Asked (m : Type → Type) where
  ask : {shape : Shape} → Query shape → m (Answer shape.Result)

/-- The names of a server's variables by index. -/
structure Directory where
  names : List String
  deriving DecidableEq, Repr

namespace Directory

/-- The name under which a directory keeps a variable. -/
def nameOf (reply : Reply) : String :=
  Text.cut maxNameLen reply.asText

/-- The index of the first variable that is kept under a name. -/
def indexOf (d : Directory) (name : String) : Answer Nat :=
  match d.names.findIdx? (· = name) with
  | some i => .ok i
  | none => .error .unknownVariable

variable [Monad m] (server : Asked m)

/-- Asks for the names of `count` variables from `index` on. -/
def readNames : (count index : Nat) → m (Answer (List String))
  | 0, _ => return .ok []
  | count + 1, index => do
    match ← server.ask (.read index .name) with
    | .error e => return .error e
    | .ok reply =>
      match ← readNames count (index + 1) with
      | .error e => return .error e
      | .ok names => return .ok (nameOf reply :: names)

/-- Asks a server for its variables, of which there have to be some but no more than `capacity`. -/
def discover (capacity : Nat) : m (Answer Directory) := do
  match ← server.ask .count with
  | .error e => return .error e
  | .ok count =>
    if count = 0 then return .error .noData
    else if capacity < count then return .error .resourceExhausted
    else
      match ← readNames server count 0 with
      | .error e => return .error e
      | .ok names => return .ok { names }

/-- Asks a query about the variable with a name. -/
def askAbout (d : Directory) (name : String) (query : Nat → Query shape) :
    m (Answer shape.Result) := do
  match d.indexOf name with
  | .error e => return .error e
  | .ok index => server.ask (query index)

/-- Asks for an aspect of the variable with a name. -/
def read (d : Directory) (name : String) (access : Access) : m (Answer Reply) :=
  d.askAbout server name (.read · access)

/-- Asks for the value of the variable with a name. -/
def value (d : Directory) (name : String) : m (Answer Int32) :=
  d.askAbout server name .value

/-- Sets the variable with a name. -/
def setValue (d : Directory) (name : String) (v : Int32) : m (Answer Unit) :=
  d.askAbout server name (.write · v)

/-- Sets the variable with a name to the number that a text denotes. -/
def setValueText (d : Directory) (name text : String) : m (Answer Unit) :=
  d.askAbout server name (.writeText · text)

end Directory

end InterCore.Client
