/-!
# Variables

A configuration variable is a 32-bit number with a name, a description and a range. It may have a
hook that runs before the value is read and one that runs after it was written. A hook gets the
context it was registered with and may change its own variable.
-/

namespace InterCore.Variable

/-- A value brought into a range. Where the range is empty, its lower end wins. -/
def limit (value min max : Int32) : Int32 :=
  let value := if value > max then max else value
  if value < min then min else value

/-- When a hook runs. -/
inductive Occasion where
  | read
  | write
  deriving DecidableEq, Repr

/-- What a hook does to its own variable. -/
inductive Reaction where
  | keep
  | set (value : Int32)
  | setLimited (value : Int32)
  /-- Sets the value brought into the range, and has the write hook run for it. A write hook that
  does this is not run again. -/
  | writeThrough (value : Int32)
  deriving DecidableEq, Repr

/-- A hook: what it does for an occasion, its context and the value it finds. -/
structure Hook where
  react : Occasion → UInt64 → Int32 → Reaction
  context : UInt64

/-- A run of a hook, as the hook sees it. -/
structure Call where
  id : Int32
  occasion : Occasion
  context : UInt64
  /-- The value that the hook found. -/
  value : Int32
  deriving DecidableEq, Repr

end InterCore.Variable

namespace InterCore

open Variable (Hook Call Occasion limit)

/-- A variable with its hooks. -/
structure Variable where
  /-- Identifier chosen by the application, which need not be the index in a table. -/
  id : Int32
  name : String
  description : String
  value : Int32
  min : Int32
  max : Int32
  onRead : Option Hook := none
  onWrite : Option Hook := none

namespace Variable

/-- The variable with its value brought into its range. -/
def setLimited (v : Variable) (value : Int32) : Variable :=
  { v with value := limit value v.min v.max }

/-- The run of a hook for the variable as it is. -/
def call (v : Variable) (occasion : Occasion) (hook : Hook) : Call :=
  ⟨v.id, occasion, hook.context, v.value⟩

/-- Runs the write hook. Gives the variable after it, and the hook's run. -/
def fireWrite (v : Variable) : Variable × List Call :=
  match v.onWrite with
  | none => (v, [])
  | some hook =>
    let after := match hook.react .write hook.context v.value with
      | .keep => v
      | .set value => { v with value }
      | .setLimited value | .writeThrough value => v.setLimited value
    (after, [v.call .write hook])

/-- Runs the read hook. Gives the variable after it, and the runs of its hooks in order. -/
def fireRead (v : Variable) : Variable × List Call :=
  match v.onRead with
  | none => (v, [])
  | some hook =>
    let run := v.call .read hook
    match hook.react .read hook.context v.value with
    | .keep => (v, [run])
    | .set value => ({ v with value }, [run])
    | .setLimited value => (v.setLimited value, [run])
    | .writeThrough value =>
      let (after, runs) := (v.setLimited value).fireWrite
      (after, run :: runs)

/-- Writes a value brought into the range, with the write hook if `trigger` is set. The hook finds
the value already in place. -/
def write (v : Variable) (value : Int32) (trigger : Bool) : Variable × List Call :=
  let v := v.setLimited value
  if trigger then v.fireWrite else (v, [])

end Variable

end InterCore
