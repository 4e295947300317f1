import InterCore.Variable.Basic

/-!
# Variable stores

What a configuration server needs of a table of variables. Variables go by their index from zero;
whoever calls has checked that it is below `count`. How a value is sampled and written for the
other core is fixed by the hooks, but a store may do it in its own way.
-/

namespace InterCore

/-- A table of variables whose state is `S`. -/
class VarStore (S : Type) where
  count : S → Nat
  /-- The value as it is. -/
  value : S → Nat → Int32
  /-- The store with a value put in as it is. -/
  store : S → Nat → Int32 → S
  min : S → Nat → Int32
  max : S → Nat → Int32
  name : S → Nat → String
  description : S → Nat → String
  /-- Runs before a value is sampled. -/
  onRead : S → Nat → S := fun s _ => s
  /-- Runs after a value has been written. -/
  onWrite : S → Nat → S := fun s _ => s
  /-- The value for the other core, after the read hook. -/
  sample : S → Nat → Int32 × S := fun s i =>
    let s := onRead s i
    (value s i, s)
  /-- Puts in a value from the other core, brought into the range, and runs the write hook. Gives
  the value that was put in. -/
  write : S → Nat → Int32 → Int32 × S := fun s i v =>
    let v := Variable.limit v (min s i) (max s i)
    (v, onWrite (store s i v) i)

/-- A store that is lent out. Its values, ranges, texts and hooks are the lender's; how it samples
and writes follows from these. -/
structure Lent (S : Type) where
  lender : S

/-- What is lent is the lender's but for `sample` and `write`, which are those of any store. -/
instance [VarStore S] : VarStore (Lent S) where
  count s := VarStore.count s.lender
  value s := VarStore.value s.lender
  store s i v := ⟨VarStore.store s.lender i v⟩
  min s := VarStore.min s.lender
  max s := VarStore.max s.lender
  name s := VarStore.name s.lender
  description s := VarStore.description s.lender
  onRead s i := ⟨VarStore.onRead s.lender i⟩
  onWrite s i := ⟨VarStore.onWrite s.lender i⟩

end InterCore
