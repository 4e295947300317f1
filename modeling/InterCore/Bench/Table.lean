import InterCore.Bench.Script
import InterCore.Config.Server
import InterCore.Variable.Hooks
import InterCore.Variable.Table

/-!
# Bench for variables

A table with hooks, and a store of the same variables without hooks. A script works on the table by
identifier and name, on the store of its choice by index, or sends requests to a server over it.
-/

namespace InterCore.Bench.Table

open InterCore.Variable (Call Hook Occasion)
open InterCore.Config (Message)

/-- A hook to be registered for an occasion of a variable. -/
structure Registration where
  id : Int32
  occasion : Occasion
  hook : Hook

/-- The table of some variables with hooks registered. A hook for an unknown variable is left
out. -/
def tableOf (vars : List Variable) (hooks : List Registration) : VarTable :=
  hooks.foldl (fun t r => (t.setHook r.id r.occasion (some r.hook)).2) { vars }

/-- Which store a script works on. -/
inductive Choice where
  | table
  | plain
  deriving DecidableEq

/-- The table and the store beside it. -/
structure State where
  choice : Choice
  table : VarTable
  plain : PlainStore

namespace State

/-- What can be seen of the chosen store. -/
def view (s : State) (f : {S : Type} → [VarStore S] → S → α) : α :=
  match s.choice with
  | .table => f s.table
  | .plain => f s.plain

/-- Work on the chosen store. -/
def work (s : State) (f : {S : Type} → [VarStore S] → S → α × S) : α × State :=
  match s.choice with
  | .table => let (a, table) := f s.table; (a, { s with table })
  | .plain => let (a, plain) := f s.plain; (a, { s with plain })

/-- The values of the chosen store by index. -/
def values (s : State) : List Int32 :=
  match s.choice with
  | .table => s.table.values
  | .plain => s.plain.values

end State

/-- One thing that is asked of the table or of the chosen store. -/
inductive Step where
  | get (id : Int32)
  | find (name : String)
  | valueById (id : Int32)
  | valueByName (name : String)
  | setById (id value : Int32) (trigger : Bool)
  | setHook (id : Int32) (occasion : Occasion) (hook : Option Hook)
  | varSet (index : Nat) (value : Int32)
  | varSetLimited (index : Nat) (value : Int32) (trigger : Bool)
  | count
  | value (index : Nat)
  | min (index : Nat)
  | max (index : Nat)
  | name (index : Nat)
  | description (index : Nat)
  | sample (index : Nat)
  | store (index : Nat) (value : Int32)
  | onRead (index : Nat)
  | onWrite (index : Nat)
  | write (index : Nat) (value : Int32)

/-- What a step answers. -/
inductive Value where
  | done
  | variable (v : Option Variable)
  | answer (value : Answer Int32)
  | accepted (answer : Answer Unit)
  | number (value : Int32)
  | count (count : Nat)
  | text (text : String)

/-- Work of a script. -/
abbrev OnBench := StateT State (Except Fault)

/-- Refuses an index beyond `count` variables. -/
def inRange (index count : Nat) : OnBench Unit :=
  if index < count then pure () else throw .noSuchVariable

/-- One aspect of a variable of the chosen store. -/
def look (index : Nat) (f : {S : Type} → [VarStore S] → S → Nat → α) : OnBench α := do
  let s ← get
  inRange index (s.view VarStore.count)
  return s.view (fun store => f store index)

/-- Work on a variable of the chosen store. -/
def act (index : Nat) (f : {S : Type} → [VarStore S] → S → Nat → α × S) : OnBench α := do
  inRange index ((← get).view VarStore.count)
  modifyGet fun s => s.work (fun store => f store index)

/-- Runs a hook of the chosen store. The store without hooks does nothing, for any index. -/
def hook (index : Nat) (f : {S : Type} → [VarStore S] → S → Nat → S) : OnBench Value := do
  if (← get).choice = .table then
    act index (fun store i => ((), f store i))
  return .done

/-- Does one step. Identifiers and names are those of the table, whichever store is chosen. -/
def Step.run : Step → OnBench Value
  | .get id => return .variable ((← MonadState.get).table.get? id)
  | .find wanted => return .variable ((← MonadState.get).table.find? wanted)
  | .valueById id => return .answer ((← MonadState.get).table.valueById id)
  | .valueByName wanted => return .answer ((← MonadState.get).table.valueByName wanted)
  | .setById id v trigger => modifyGet fun s =>
    let (answer, table) := s.table.setById id v trigger
    (.answer answer, { s with table })
  | .setHook id occasion hook => modifyGet fun s =>
    let (answer, table) := s.table.setHook id occasion hook
    (.accepted answer, { s with table })
  | .varSet i v => do
    inRange i (← MonadState.get).table.vars.length
    modify fun s => { s with table := VarStore.store s.table i v }
    return .done
  | .varSetLimited i v trigger => do
    inRange i (← MonadState.get).table.vars.length
    modifyGet fun s =>
      let (put, table) := s.table.setLimited i v trigger
      (.number put, { s with table })
  | .count => return .count ((← MonadState.get).view VarStore.count)
  | .value i => return .number (← look i VarStore.value)
  | .min i => return .number (← look i VarStore.min)
  | .max i => return .number (← look i VarStore.max)
  | .name i => return .text (← look i VarStore.name)
  | .description i => return .text (← look i VarStore.description)
  | .sample i => return .number (← act i VarStore.sample)
  | .store i v => do
    act i (fun store i => ((), VarStore.store store i v))
    return .done
  | .onRead i => hook i VarStore.onRead
  | .onWrite i => hook i VarStore.onWrite
  | .write i v => return .number (← act i (VarStore.write · · v))

/-- What a step answers, with the values after it and the runs of hooks in it. -/
structure Report (α : Type) where
  value : α
  values : List Int32
  calls : List Call

/-- Does one step and reports it, with only the hooks that ran in it. -/
def report (step : OnBench α) : OnBench (Report α) := do
  modify fun s => { s with table := { s.table with calls := [] } }
  let value ← step
  let s ← get
  return { value, values := s.values, calls := s.table.calls }

/-- The table with its hooks, and the store without, at the beginning of a script. -/
def State.start (choice : Choice) (vars : List Variable) (hooks : List Registration) : State :=
  { choice, table := tableOf vars hooks, plain := { vars } }

/-- Runs a script and reports every step. -/
def run (s : State) (steps : List Step) : List (Except Fault (Report Value)) :=
  (runScript (fun step => report step.run) steps s).1

/-- Sends requests to a server over the chosen store. -/
def serve (s : State) (requests : List Message) : List (Except Fault (Report Message)) :=
  (runScript (fun req => report (modifyGet fun s => s.work (Config.Server.handle · req)))
    requests s).1

end InterCore.Bench.Table
