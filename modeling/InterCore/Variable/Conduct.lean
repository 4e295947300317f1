import InterCore.Variable.Table

/-!
# Tables with hooks of any kind

A hook may do more with its own variable than react once: set it several times over, have the write
hook run for each of them, even from within the write hook itself, and keep a count of its own. To a
table all that comes to a value that is left and to runs of hooks. `TableWith` is a table whose
hooks behave in any way that can be told so, and a `VarTable` is one of them (`VarTable.reacting`).
-/

namespace InterCore

open Variable (Call Occasion)

namespace Variable

/-- What comes of running the hook of a variable, or of its having none: the value that is left, and
the runs of hooks in order. -/
abbrev Conduct := Occasion → Variable → Int32 × List Call

/-- The variable after its hook was run, and the runs. -/
def conducted (conduct : Conduct) (occasion : Occasion) (v : Variable) : Variable × List Call :=
  let (value, runs) := conduct occasion v
  ({ v with value }, runs)

/-- What comes of a hook that reacts once. -/
def reactions : Conduct
  | .read, v => (v.fireRead.1.value, v.fireRead.2)
  | .write, v => (v.fireWrite.1.value, v.fireWrite.2)

end Variable

/-- A table whose hooks behave as `conduct` says, which may depend on all that was run before. -/
structure TableWith (conduct : List Call → Variable.Conduct) where
  table : VarTable

namespace TableWith

variable {conduct : List Call → Variable.Conduct}

/-- The table after the hook of the variable at an index was run. -/
def fire (t : TableWith conduct) (occasion : Occasion) (i : Nat) : TableWith conduct :=
  ⟨t.table.update i (Variable.conducted (conduct t.table.calls) occasion)⟩

/-- A store like the table itself but for its hooks, which run as `conduct` says. -/
instance : VarStore (TableWith conduct) where
  count t := VarStore.count t.table
  value t := VarStore.value t.table
  store t i value := ⟨VarStore.store t.table i value⟩
  min t := VarStore.min t.table
  max t := VarStore.max t.table
  name t := VarStore.name t.table
  description t := VarStore.description t.table
  onRead t i := t.fire .read i
  onWrite t i := t.fire .write i

/-- Writes a value, brought into the variable's range, at an index. Gives the value that was put
in. -/
def setLimited (t : TableWith conduct) (i : Nat) (value : Int32) (trigger : Bool) :
    Int32 × TableWith conduct :=
  let limited := t.table.aspect (fun v => (v.setLimited value).value) i
  let t : TableWith conduct := ⟨t.table.update i fun v => (v.setLimited value, [])⟩
  (limited, if trigger then t.fire .write i else t)

/-- Sets the variable with an identifier, with its write hook if `trigger` is set. Gives the value
that was put in. -/
def setById (t : TableWith conduct) (id value : Int32) (trigger : Bool) :
    Answer Int32 × TableWith conduct :=
  match t.table.indexOfId? id with
  | none => (.error .unknownVariable, t)
  | some i =>
    let (value, t) := t.setLimited i value trigger
    (.ok value, t)

end TableWith

/-- A table whose hooks react once. -/
def VarTable.reacting (t : VarTable) : TableWith fun _ => Variable.reactions :=
  ⟨t⟩

end InterCore
