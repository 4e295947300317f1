import InterCore.Variable.Basic

/-!
# Ready-made hooks

Hooks for trying out a table.
-/

namespace InterCore.Variable.Hook

/-- A context as a 32-bit number. -/
def contextValue (context : UInt64) : Int32 :=
  context.toUInt32.toInt32

/-- Leaves the value alone, so that only its run is noted. -/
def record (context : UInt64) : Hook where
  react _ _ _ := .keep
  context

/-- Adds the context to the value. -/
def add (context : UInt64) : Hook where
  react _ context value := .set (value + contextValue context)
  context

/-- Changes the sign of the value. -/
def negate (context : UInt64) : Hook where
  react _ _ value := .set (-value)
  context

/-- Before a read, writes the value with the context added, as the other core would. -/
def chain (context : UInt64) : Hook where
  react occasion context value := match occasion with
    | .read => .writeThrough (value + contextValue context)
    | .write => .keep
  context

end InterCore.Variable.Hook
