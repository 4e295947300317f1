import InterCore.Error
import InterCore.Variable.Store

/-!
# Variable tables

A fixed list of variables. On the wire a variable goes by its index, and in the application by its
identifier or its name; the first variable that fits is the one meant.
-/

namespace InterCore

open Variable (Call Hook Occasion)

/-- A list of variables, with the runs of their hooks in order. -/
structure VarTable where
  vars : List Variable
  calls : List Call := []

namespace VarTable

/-- The table with its variable at an index replaced by what `f` makes of it, and the runs of hooks
that `f` reports. An index beyond the table changes nothing. -/
def update (t : VarTable) (i : Nat) (f : Variable → Variable × List Call) : VarTable :=
  match t.vars[i]? with
  | none => t
  | some v =>
    let (v, calls) := f v
    ⟨t.vars.set i v, t.calls ++ calls⟩

/-- What `f` says of the variable at an index, or a default beyond the table. -/
def aspect [Inhabited α] (t : VarTable) (f : Variable → α) (i : Nat) : α :=
  match t.vars[i]? with
  | none => default
  | some v => f v

/-- A table is a store whose hooks are those registered with its variables. -/
instance : VarStore VarTable where
  count t := t.vars.length
  value t := t.aspect (·.value)
  store t i value := t.update i fun v => ({ v with value }, [])
  min t := t.aspect (·.min)
  max t := t.aspect (·.max)
  name t := t.aspect (·.name)
  description t := t.aspect (·.description)
  onRead t i := t.update i Variable.fireRead
  onWrite t i := t.update i Variable.fireWrite

/-- The index of the first variable with an identifier. -/
def indexOfId? (t : VarTable) (id : Int32) : Option Nat :=
  t.vars.findIdx? (·.id = id)

/-- The first variable with an identifier. -/
def get? (t : VarTable) (id : Int32) : Option Variable :=
  t.vars.find? (·.id = id)

/-- The first variable with a name. -/
def find? (t : VarTable) (name : String) : Option Variable :=
  t.vars.find? (·.name = name)

/-- The value of the variable with an identifier. -/
def valueById (t : VarTable) (id : Int32) : Answer Int32 :=
  match t.get? id with
  | some v => .ok v.value
  | none => .error .unknownVariable

/-- The value of the variable with a name. -/
def valueByName (t : VarTable) (name : String) : Answer Int32 :=
  match t.find? name with
  | some v => .ok v.value
  | none => .error .unknownVariable

/-- Writes a value, brought into the variable's range, at an index. Gives the value that was put
in. -/
def setLimited (t : VarTable) (i : Nat) (value : Int32) (trigger : Bool) : Int32 × VarTable :=
  (t.aspect (fun v => (v.setLimited value).value) i, t.update i (·.write value trigger))

/-- Sets the variable with an identifier, with its write hook if `trigger` is set. Gives the value
that was put in. -/
def setById (t : VarTable) (id value : Int32) (trigger : Bool) : Answer Int32 × VarTable :=
  match t.indexOfId? id with
  | none => (.error .unknownVariable, t)
  | some i =>
    let (value, t) := t.setLimited i value trigger
    (.ok value, t)

/-- Registers a hook for the variable with an identifier, or removes it. -/
def setHook (t : VarTable) (id : Int32) (occasion : Occasion) (hook : Option Hook) :
    Answer Unit × VarTable :=
  match t.indexOfId? id with
  | none => (.error .unknownVariable, t)
  | some i =>
    let put (v : Variable) : Variable := match occasion with
      | .read => { v with onRead := hook }
      | .write => { v with onWrite := hook }
    (.ok (), t.update i fun v => (put v, []))

/-- The values by index. -/
def values (t : VarTable) : List Int32 :=
  t.vars.map (·.value)

end VarTable

/-- A store that has variables but no hooks of its own. -/
structure PlainStore where
  vars : List Variable

namespace PlainStore

/-- What `f` says of the variable at an index, or a default beyond the table. -/
def aspect [Inhabited α] (s : PlainStore) (f : Variable → α) (i : Nat) : α :=
  match s.vars[i]? with
  | none => default
  | some v => f v

/-- A store of plain variables samples and writes without running anything. -/
instance : VarStore PlainStore where
  count s := s.vars.length
  value s := s.aspect (·.value)
  store s i value := ⟨s.vars.modify i fun v => { v with value }⟩
  min s := s.aspect (·.min)
  max s := s.aspect (·.max)
  name s := s.aspect (·.name)
  description s := s.aspect (·.description)

/-- The values by index. -/
def values (s : PlainStore) : List Int32 :=
  s.vars.map (·.value)

end PlainStore

end InterCore
